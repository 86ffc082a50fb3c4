import ModelRest.Proofs.Revision

/-!
# Updating the values of an instance

An instance takes over what is given field by field. What one field makes of its value, `assigned`,
depends on the value that it has, on the one that is given and on whether the instance has an
identifier; doing it again changes nothing, also when the first time gave the instance its
identifier and so closed some fields (`assigned_assigned`). As fields of one name are the same field
(`Factory.field_unique_of_init`), all fields together do to each key what one of them does
(`Factory.get?_assignAll`), and `Factory.updateValues_updateValues` says what this means for the
instance.
-/

namespace ModelRest

/-! ### One field -/

namespace Field

variable {f : Field} {hasId hasId' : Bool} {params : Parameters} {data values : Object}
  {given old : Option Json}

/-- What becomes of the value of a field where this is given. -/
def assigned (f : Field) (hasId : Bool) (params : Parameters) (given old : Option Json) :
    Option Json :=
  if f.name = idField then
    match given with
    | none => old
    | some .null => old
    | some id => if hasId then old else some id
  else if f.name = createdAtField ∨ f.name = updatedAtField then given.or old
  else if f.isWritable hasId params then
    match given with
    | some v => some (f.accept v)
    | none => if params.deleteMissing then none else old
  else old

theorem get?_assign_self (f : Field) (values : Object) :
    KeyMap.get? (f.assign hasId params data values) f.name =
      f.assigned hasId params (KeyMap.get? data f.name) (KeyMap.get? values f.name) := by
  unfold assigned
  by_cases hid : f.name = idField
  · rw [if_pos hid, hid, Factory.get?_assign_idField hid]
    cases KeyMap.get? data idField with
    | none => exact ite_self _
    | some id => cases id <;> cases hasId <;> rfl
  rw [if_neg hid]
  by_cases htime : f.name = createdAtField ∨ f.name = updatedAtField
  · rw [if_pos htime]
    simp only [assign, if_neg hid, if_pos htime]
    cases KeyMap.get? data f.name with
    | some v => exact KeyMap.get?_insert_self ..
    | none => rfl
  rw [if_neg htime]
  have hname : IsOrdinary f.name := ⟨hid, fun h => htime (.inl h), fun h => htime (.inr h)⟩
  by_cases hw : f.isWritable hasId params = true
  · rw [if_pos hw]
    refine (get?_assign_of_writable hname hw).trans ?_
    cases KeyMap.get? data f.name <;> rfl
  · simp [assign, hid, htime, hw]

/-- A field that is closed stays closed when the instance gets an identifier. -/
theorem isWritable_of_hasId (h : hasId = true → hasId' = true)
    (hw : f.isWritable hasId' params = true) : f.isWritable hasId params = true := by
  cases hasId with
  | true => rwa [h rfl] at hw
  | false =>
    rw [isWritable, Bool.and_eq_true] at hw ⊢
    exact ⟨hw.1, rfl⟩

/-- **Assigning again changes nothing**, and an identifier that there is by now does not matter. -/
theorem assigned_assigned (h : hasId = true → hasId' = true) :
    f.assigned hasId' params given (f.assigned hasId params given old) =
      f.assigned hasId params given old := by
  by_cases hid : f.name = idField
  · simp only [assigned, if_pos hid]
    cases given with
    | none => rfl
    | some id => cases id <;> cases hasId <;> cases hasId' <;> simp_all
  by_cases htime : f.name = createdAtField ∨ f.name = updatedAtField
  · simp only [assigned, if_neg hid, if_pos htime]
    cases given <;> rfl
  simp only [assigned, if_neg hid, if_neg htime]
  by_cases hw : f.isWritable hasId' params = true
  · rw [if_pos hw, if_pos (isWritable_of_hasId h hw)]
    cases given with
    | some v => rfl
    | none => cases params.deleteMissing <;> rfl
  · -- what was written while the field was open is kept now
    rw [if_neg hw]

end Field

/-! ### All fields -/

theorem Field.sorted_assign {f : Field} {hasId : Bool} {params : Parameters} {data values : Object}
    (h : KeyMap.Sorted values) : KeyMap.Sorted (f.assign hasId params data values) := by
  unfold Field.assign
  dsimp only
  repeat' split
  all_goals first | exact h | exact h.insert _ _ | exact h.erase _

namespace Factory

variable {f g : Factory} {everywhere : KeyMap Validator} {binding : Option Actions}
  {params : Parameters} {data values : Object} {name : String}

theorem sorted_assignAll (h : KeyMap.Sorted values) :
    KeyMap.Sorted (f.assignAll params data values) := by
  unfold assignAll
  -- the fields see whether there was an identifier before the first of them
  generalize (idOf? values).isSome = hasId
  generalize f.fields = fields
  induction fields generalizing values with
  | nil => exact h
  | cons field rest ih => exact ih (Field.sorted_assign h)

/-- The fields that a factory was given are those that its schema has entries for. -/
theorem resolveFields_of_init (h : g.init everywhere binding = .ok f) :
    f.resolveFields f.schema = .ok f.fields := by
  obtain ⟨schema, fields, hs, hfields, rfl⟩ := Registry.init_eq_ok h
  have hschema : g.schema = schema := by
    unfold Factory.schema
    rw [hs]
    rfl
  subst hschema
  exact hfields

/-- The fields of one name are the same field. -/
theorem field_unique_of_init (h : g.init everywhere binding = .ok f) {field other : Field}
    (hfield : field ∈ f.fields) (hother : other ∈ f.fields) (hname : other.name = field.name) :
    other = field := by
  have hresolve := resolveFields_of_init h
  obtain ⟨entry, hentry, hr⟩ := resolve_of_mem hresolve hfield
  obtain ⟨entry', hentry', hr'⟩ := resolve_of_mem hresolve hother
  rw [hname, hentry] at hentry'
  cases hentry'
  rw [hname, hr] at hr'
  exact (Except.ok.inj hr').symm

/-- What becomes of the value of a key that is a field. -/
theorem get?_assignAll (h : g.init everywhere binding = .ok f) {field : Field}
    (hfield : field ∈ f.fields) :
    KeyMap.get? (f.assignAll params data values) field.name =
      field.assigned (idOf? values).isSome params (KeyMap.get? data field.name)
        (KeyMap.get? values field.name) := by
  unfold assignAll
  rw [Field.get?_foldl_assign
    (field.assigned (idOf? values).isSome params (KeyMap.get? data field.name))]
  · exact if_pos ⟨field, hfield, rfl⟩
  · exact fun v => Field.assigned_assigned id
  · intro other hother hname values'
    rw [field_unique_of_init h hfield hother hname]
    exact Field.get?_assign_self field values'

theorem get?_assignAll_assignAll (h : g.init everywhere binding = .ok f) (key : String) :
    KeyMap.get? (f.assignAll params data (f.assignAll params data values)) key =
      KeyMap.get? (f.assignAll params data values) key := by
  by_cases hkey : ∃ field ∈ f.fields, field.name = key
  · obtain ⟨field, hfield, rfl⟩ := hkey
    rw [get?_assignAll h hfield, get?_assignAll h hfield]
    refine Field.assigned_assigned fun hsome => ?_
    obtain ⟨id, hid⟩ := Option.isSome_iff_exists.mp hsome
    rw [idOf?_assignAll hid]
    rfl
  · exact get?_assignAll_of_no_field fun field hfield hname => hkey ⟨field, hfield, hname⟩

/-- A key is a field of the factory if its schema names it and has an entry for it. -/
theorem mem_fieldNames_of_mem (h : g.init everywhere binding = .ok f) {field : Field}
    (hfield : field ∈ f.fields) : field.name ∈ f.schema.fieldNames ∧
      KeyMap.contains f.schema.prototype field.name = true := by
  have hresolve := resolveFields_of_init h
  obtain ⟨entry, hentry, -⟩ := resolve_of_mem hresolve hfield
  refine ⟨(names_sublist hresolve).subset (List.mem_map_of_mem hfield), ?_⟩
  rw [KeyMap.contains, hentry]
  rfl

/-- **Updating the values of an instance** is idempotent and stays in the schema. The second time
changes the value of no key, and so nothing about values kept in order; a key that is no field of
the schema, or one that has no entry there, keeps its value or has still none; a text that is the
identifier stays; and data that is no object changes nothing. -/
theorem updateValues_updateValues (h : g.init everywhere binding = .ok f) (i : Instance)
    (data : Json) (params : Parameters) :
    (∀ key, (f.updateValues (f.updateValues i data params) data params).get? key =
      (f.updateValues i data params).get? key) ∧
    (KeyMap.Sorted i.values → f.updateValues (f.updateValues i data params) data params =
      f.updateValues i data params) ∧
    (∀ key, ¬(key ∈ f.schema.fieldNames ∧ KeyMap.contains f.schema.prototype key = true) →
      (f.updateValues i data params).get? key = i.get? key) ∧
    (∀ id, i.id? = some id → (f.updateValues i data params).id? = some id) ∧
    ((∀ members, data ≠ .object members) → f.updateValues i data params = i) := by
  cases data with
  | object members =>
    refine ⟨get?_assignAll_assignAll h, fun hs => ?_, fun key hkey => ?_, fun id hid => ?_,
      fun hdata => absurd rfl (hdata members)⟩
    · have hsorted : KeyMap.Sorted (f.assignAll params members i.values) := sorted_assignAll hs
      have hvalues := (sorted_assignAll hsorted).eq_of_get? hsorted (get?_assignAll_assignAll h)
      exact congrArg i.replace hvalues
    · refine get?_assignAll_of_no_field fun field hfield hname => hkey ?_
      rw [← hname]
      exact mem_fieldNames_of_mem h hfield
    · exact idOf?_assignAll hid
  | null | bool | number | string | array =>
    exact ⟨fun _ => rfl, fun _ => rfl, fun _ _ => rfl, fun _ hid => hid, fun _ => rfl⟩

end Factory

/-! ### The factories of a server -/

/-- The factories of an assembled server were initialized. -/
theorem Server.Assembled.exists_init {server : Server} (h : server.Assembled) :
    ∀ f ∈ server.registry.made, ∃ g binding,
      Factory.init g server.registry.sharedValidators binding = .ok f := by
  obtain ⟨start, validators, hempty, hok⟩ := h.started
  obtain ⟨loaded, numbers, r, fs, hr, hfs, rfl⟩ := assemble_eq_ok hempty hok
  intro f hf
  obtain ⟨g, hg, hsetup⟩ := exists_left_of_forall₂ hfs hf
  obtain ⟨source, binding, -, -, hinit⟩ := Registry.setup_eq_ok_iff.mp hsetup
  exact ⟨g, binding, hinit⟩

namespace Lending

/-- A book that is not stored yet, with a value that is no field. -/
def draft : Instance :=
  { model := "Book"
    values := [("author", .string "a1"), ("shelf", .string "s1"), ("title", .string "Emma")] }

/-- What it takes over: an identifier, another author, and a note with its text. -/
def edition : Json := .ofMembers
  [("_id", .string "b1"), ("author", .string "a2"),
    ("note", .ofMembers [("_id", .string "n1"), ("text", .string "first")]),
    ("publisher", .string "p1")]

/-- The first time gives the book its identifier, and the author counts as given before it; the
second time the author may not be written any more. -/
theorem draft_updated_twice :
    books.updateValues (books.updateValues draft edition { deleteMissing := true }) edition
        { deleteMissing := true } =
      books.updateValues draft edition { deleteMissing := true } ∧
    (books.updateValues draft edition { deleteMissing := true }).values =
      [("_id", .string "b1"), ("author", .string "a2"), ("note", .string "n1"),
        ("shelf", .string "s1")] := by
  obtain ⟨g, binding, hinit⟩ := assembled.exists_init books books_mem
  have hsorted : KeyMap.Sorted draft.values := by
    unfold KeyMap.Sorted
    decide
  refine ⟨?_, by decide +kernel⟩
  exact (Factory.updateValues_updateValues hinit draft edition _).2.1 hsorted

end Lending

end ModelRest
