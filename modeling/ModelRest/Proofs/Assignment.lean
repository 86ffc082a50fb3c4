import ModelRest.Persistence
import ModelRest.Proofs.Effects
import ModelRest.Proofs.KeyMap

/-!
# Assigning values

Values are assigned field by field, and each field touches its own value only. What becomes of one
value is therefore decided by the fields of that name: a field that is protected keeps its value once
the record has an identifier (`get?_assignAll_of_protected`), an identifier is given once
(`idOf?_assignAll`), and a new instance has the identifier that it was given (`id?_instanceOf`).
-/

namespace ModelRest

namespace Field

variable {hasId : Bool} {params : Parameters} {data values : Object}

/-- Assigning one field leaves the values of the others as they are. -/
theorem get?_assign_of_ne {f : Field} {name : String} (h : f.name ≠ name) :
    KeyMap.get? (assign hasId params data values f) name = KeyMap.get? values name := by
  unfold assign
  dsimp only
  split
  · rename_i hid
    split
    · rfl
    · rfl
    · split
      · rfl
      · exact KeyMap.get?_insert_of_ne _ _ (hid ▸ h)
  · split
    · split
      · exact KeyMap.get?_insert_of_ne _ _ h
      · rfl
    · split
      · split
        · exact KeyMap.get?_insert_of_ne _ _ h
        · split
          · exact KeyMap.get?_erase_of_ne _ h
          · rfl
      · rfl

/-- If every field of a name does the same to its value, and no more when it is done again, then all
fields together do this if there is one. -/
theorem get?_foldl_assign {name : String} (change : Option Json → Option Json)
    (hchange : ∀ v, change (change v) = change v) (fields : List Field)
    (h : ∀ f ∈ fields, f.name = name → ∀ values,
      KeyMap.get? (assign hasId params data values f) name = change (KeyMap.get? values name))
    (values : Object) :
    KeyMap.get? (fields.foldl (assign hasId params data) values) name =
      if ∃ f ∈ fields, f.name = name then change (KeyMap.get? values name)
      else KeyMap.get? values name := by
  induction fields generalizing values with
  | nil => simp
  | cons f rest ih =>
    rw [List.foldl_cons, ih fun g hg => h g (List.mem_cons_of_mem _ hg)]
    by_cases hf : f.name = name
    · rw [h f (List.mem_cons_self ..) hf, hchange, ite_self, if_pos ⟨f, List.mem_cons_self .., hf⟩]
    · rw [get?_assign_of_ne hf]
      simp [hf]

/-- The client must not change a value that is there. -/
def isProtected (f : Field) : Bool := f.readOnly || f.insertOnly || f.immutable

theorem get?_assign_of_protected {f : Field} (hp : f.isProtected = true)
    (hparams : params.ignoreReadOnly = false) (hid : f.name ≠ idField)
    (hcreated : f.name ≠ createdAtField) (hupdated : f.name ≠ updatedAtField) :
    assign true params data values f = values := by
  have hflags : ∀ r i m : Bool, (r || i || m) = true →
      ((!r || false) && !(true && (i || m))) = false := by decide
  have hw : f.isWritable true params = false := by
    unfold isWritable
    rw [hparams]
    exact hflags _ _ _ hp
  unfold assign
  simp [hid, hcreated, hupdated, hw]

end Field

namespace Factory

variable {f : Factory} {params : Parameters} {data values : Object}

/-- A protected value stays, once there is an identifier. -/
theorem get?_assignAll_of_protected {name id : String} (hvalues : idOf? values = some id)
    (hp : ∀ field ∈ f.fields, field.name = name → field.isProtected = true)
    (hparams : params.ignoreReadOnly = false) (hid : name ≠ idField)
    (hcreated : name ≠ createdAtField) (hupdated : name ≠ updatedAtField) :
    KeyMap.get? (f.assignAll params data values) name = KeyMap.get? values name := by
  unfold assignAll
  rw [hvalues, Field.get?_foldl_assign (fun v => v) (fun _ => rfl)]
  · simp
  · intro field hfield hname values
    subst hname
    rw [Option.isSome_some, Field.get?_assign_of_protected (hp field hfield rfl) hparams hid hcreated
      hupdated]

/-- The identifier that is assigned where there is none. -/
theorem get?_assign_idField {field : Field} (h : field.name = idField) (hasId : Bool) :
    KeyMap.get? (field.assign hasId params data values) idField =
      if hasId then KeyMap.get? values idField
      else
        match KeyMap.get? data idField with
        | none => KeyMap.get? values idField
        | some .null => KeyMap.get? values idField
        | some id => some id := by
  unfold Field.assign
  rw [h]
  simp only [if_true]
  split <;> cases hasId <;> simp_all

/-- An identifier that is there stays. -/
theorem idOf?_assignAll {id : String} (hvalues : idOf? values = some id) :
    idOf? (f.assignAll params data values) = some id := by
  have hget : KeyMap.get? (f.assignAll params data values) idField =
      KeyMap.get? values idField := by
    unfold assignAll
    rw [hvalues, Field.get?_foldl_assign (fun v => v) (fun _ => rfl)]
    · simp
    · intro field _ hname values
      rw [get?_assign_idField hname]
      rfl
  unfold idOf?
  rw [hget]
  exact hvalues

/-- A new instance has the identifier that is given. -/
theorem id?_instanceOf (h : ∃ field ∈ f.fields, field.name = idField) (body : Object) :
    (f.instanceOf (.object body)).id? = idOf? body := by
  have hget : KeyMap.get? (f.instanceOf (.object body)).values idField =
      match KeyMap.get? body idField with
      | none => none
      | some .null => none
      | some id => some id := by
    show KeyMap.get? (f.fields.foldl (Field.assign false { deleteMissing := true } body) [])
      idField = _
    rw [Field.get?_foldl_assign (fun v => match KeyMap.get? body idField with
      | none => v
      | some .null => v
      | some id => some id)]
    · rw [if_pos h]
      rfl
    · intro v
      cases KeyMap.get? body idField with
      | none => rfl
      | some id => cases id <;> rfl
    · intro field _ hname values
      rw [get?_assign_idField hname]
      rfl
  show (KeyMap.get? _ idField).bind Json.string? = (KeyMap.get? body idField).bind Json.string?
  rw [hget]
  cases KeyMap.get? body idField with
  | none => rfl
  | some id => cases id <;> rfl

/-- What becomes of a value when the references are simplified. -/
theorem get?_simplifyValues (f : Factory) (values : Object) (name : String) :
    KeyMap.get? (f.simplifyValues values) name = (KeyMap.get? values name).map fun v =>
      if KeyMap.contains f.schema.references name then Reference.simplify v else v := by
  induction values with
  | nil => rfl
  | cons p rest ih =>
    obtain ⟨key, v⟩ := p
    have hcons : f.simplifyValues ((key, v) :: rest) =
        (key, if KeyMap.contains f.schema.references key then Reference.simplify v else v) ::
          f.simplifyValues rest := rfl
    rw [hcons, KeyMap.get?_cons, KeyMap.get?_cons]
    by_cases hk : key = name
    · subst hk
      simp
    · rw [if_neg hk, if_neg hk, ih]

end Factory

/-- Queries never ask to write what clients do not write. -/
theorem Parameters.ignoreReadOnly_ofQuery {query : KeyMap String} {params : Parameters}
    (h : ofQuery query = .ok params) : params.ignoreReadOnly = false := by
  unfold ofQuery at h
  dsimp only at h
  split at h
  · obtain ⟨includes, -, h⟩ := andThen_eq_ok_iff.mp h
    cases h
    rfl
  · obtain ⟨includes, -, h⟩ := andThen_eq_ok_iff.mp h
    cases h
    rfl

end ModelRest
