import ModelRest.Proofs.OrderedUnion

/-!
# Adding to a reference

A PATCH of a reference to several records adds what it gives to the items that the record has.
`Call.Appends` says what is left in the store: the items of an array stay and those that are new
come after them, then every reference of the record is simplified, and nothing else changes but the
time of the last change. `Server.unites_iff` derives from it when the result is the union of the
identifiers that the reference stood for and those that are given (`Call.Unites`), and when the same
request may be repeated without effect (`Call.Repeats`).
-/

namespace ModelRest

/-! ### Items that are saved -/

namespace ModelSchema

variable {s : ModelSchema} {name : String} {v : Json}

/-- The item that is stored when a record with this item is saved. -/
def settledItem (s : ModelSchema) (name : String) (v : Json) : Json :=
  if KeyMap.contains s.references name then Reference.simplifyOne v else v

theorem settled_array (s : ModelSchema) (name : String) (items : List Json) :
    s.settled name (.array items) = .array (items.map (s.settledItem name)) := by
  unfold settled settledItem
  cases KeyMap.contains s.references name with
  | true => rfl
  | false => simp

theorem settledItem_eq_self_iff : s.settledItem name v = v ↔
    (KeyMap.contains s.references name = true → ¬Reference.IsPopulated v) := by
  unfold settledItem
  cases KeyMap.contains s.references name with
  | true => simp [Reference.simplifyOne_eq_self_iff]
  | false => simp

/-- Equal items are left alike. -/
theorem settledItem_eq_self_of_same {w : Json} (hsame : Json.same v w = true)
    (h : s.settledItem name v = v) : s.settledItem name w = w := by
  rw [settledItem_eq_self_iff] at h ⊢
  exact fun href hw => h href (hw.of_same (by rwa [Json.same_comm]))

theorem settled_eq_self_iff : s.settled name v = v ↔
    (KeyMap.contains s.references name = true → Reference.simplify v = v) := by
  unfold settled
  cases KeyMap.contains s.references name <;> simp

theorem size_settledItem (s : ModelSchema) (name : String) (v : Json) :
    s.settledItem name v = v ∨ (s.settledItem name v).size < v.size := by
  unfold settledItem
  cases KeyMap.contains s.references name with
  | true => exact Reference.size_simplifyOne v
  | false => exact .inl rfl

/-- Items that are added again after all were saved change nothing exactly if saving changes neither
them nor those that are there. -/
theorem settled_append_settled_iff {items more stored : List Json}
    (h : stored = (Reference.append items more).map (s.settledItem name)) :
    s.settled name (.array (Reference.append stored more)) = .array stored ↔
      (∀ v ∈ more, s.settledItem name v = v) ∧ ∀ w ∈ stored, s.settledItem name w = w := by
  rw [settled_array, Json.array.injEq, Reference.map_append_eq_self_iff]
  refine and_congr_left fun hstored => ⟨fun hholds v hv => ?_, fun hmore v hv => ?_⟩
  · obtain ⟨w, hw, hsame⟩ := List.any_eq_true.mp (hholds v hv)
    exact settledItem_eq_self_of_same (by rwa [Json.same_comm]) (hstored w hw)
  · -- an item like it was there before all were saved, and stayed
    have hholds : Reference.holds (Reference.append items more) v = true :=
      Reference.holds_append_of_mem (.inr hv)
    obtain ⟨w, hw, hsame⟩ := List.any_eq_true.mp hholds
    have hstays := settledItem_eq_self_of_same hsame (hmore v hv)
    refine List.any_eq_true.mpr ⟨w, ?_, hsame⟩
    rw [h, ← hstays]
    exact List.mem_map_of_mem hw

end ModelSchema

/-! ### Requests that add to a reference -/

/-- The items that a request gives to a reference. -/
def Call.additions (call : Call) : List Json :=
  Reference.items (Reference.simplify call.request.body)

/-- The value that a request which adds to a reference sets it to. -/
def Call.appended (call : Call) (old : Option Json) : Json :=
  .array (Reference.append (Reference.kept old) call.additions)

/-- What is left by a request that adds what it gives to a reference, at a place. -/
structure Call.Appends (call : Call) (p : Place) (s s' : Store) : Prop where
  /-- What is given comes after the items that are kept, and all of them are saved. -/
  reference : s'.value? p =
    some (call.factory.schema.settled p.field (call.appended (s.value? p)))
  /-- Every other value of the record is saved. -/
  saved : ∀ name, IsOrdinary name → name ≠ p.field → s'.value? { p with field := name } =
    (s.value? { p with field := name }).map (call.factory.schema.settled name)
  /-- The identifier and the time of creation stay. -/
  kept : ∀ name, name = idField ∨ name = createdAtField →
    s'.value? { p with field := name } = s.value? { p with field := name }
  /-- So does every other record. -/
  others : ∀ q : Place, ¬(p.number = q.number ∧ p.collection = q.collection ∧ p.id = q.id) →
    s'.value? q = s.value? q

/-- The reference of a record is set, and the record is saved. -/
theorem Call.Appends.of_put {call : Call} {s s' : Store} {p : Place} {old : StoredRecord}
    (hname : IsOrdinary p.field) (hs : s.Sound)
    (hold : KeyMap.get? (s.records p.number p.collection) p.id = some old)
    (hput : s.Put s' p.number p.collection p.id
      { old with
        values := updatedValues old.values (call.factory.simplifyValues (KeyMap.insert old.values
          p.field (call.appended (KeyMap.get? old.values p.field)))) p.id true s.nextStamp }) :
    call.Appends p s s' := by
  have hbefore : ∀ name, s.value? { p with field := name } = KeyMap.get? old.values name := by
    intro name
    rw [Store.value?, Store.record?, hold]
    rfl
  have hafter : ∀ name, s'.value? { p with field := name } =
      if name = updatedAtField then some s.nextStamp
      else if name = createdAtField ∨ name = idField then KeyMap.get? old.values name
      else (KeyMap.get? (KeyMap.insert old.values p.field
        (call.appended (KeyMap.get? old.values p.field))) name).map
          (call.factory.schema.settled name) := by
    intro name
    rw [Store.value?, Store.record?, hput.get?_self, Option.bind_some,
      (hs _ _ _ _ hold).get?_updated, Factory.get?_simplifyValues]
    rfl
  constructor
  case reference =>
    have hthere := hafter p.field
    rw [if_neg hname.2.2, if_neg fun h => h.elim hname.2.1 hname.1,
      KeyMap.get?_insert_self] at hthere
    rw [show s.value? p = KeyMap.get? old.values p.field from hbefore p.field]
    exact hthere
  case saved =>
    intro name hname' hne
    rw [hafter, hbefore, if_neg hname'.2.2, if_neg fun h => h.elim hname'.2.1 hname'.1,
      KeyMap.get?_insert_of_ne _ _ (Ne.symm hne)]
  case kept =>
    intro name hstays
    have hne : name ≠ updatedAtField := by
      rcases hstays with rfl | rfl <;> decide
    rw [hafter, hbefore, if_neg hne, if_pos hstays.symm]
  case others =>
    intro q hq
    rw [Store.value?, Store.record?, hput.get?_of_ne hq]
    rfl

namespace Registry

variable {r : Registry} {call : Call} {s : Store} {p : Place} {field : Field}

/-- A request that adds to a reference does so, or it fails and leaves everything as it was. -/
theorem appends_of_patch (hooks : call.factory.HookFree)
    (hb : call.factory.actions? = some (.memory p.number p.collection))
    (hn : p.number < s.databases.length) (hs : s.Sound) (hop : call.operation = .patch)
    (href : call.request.reference = some p.field) (hid : call.request.id = some p.id)
    (hfield : call.factory.field? p.field = some field) (hplural : field.isPlural = true)
    (hname : IsOrdinary p.field) :
    (∃ e, r.perform call s = .error e s) ∨ call.Appends p s (r.after s call) := by
  have hw : call.operation.writes = true := by
    rw [hop]
    rfl
  rcases r.perform_writes_cases hw hooks hb hn with
    ⟨e, -, he⟩ | ⟨_, _, e, -, -, he⟩ | ⟨i, params, i', s', hplan, hsave, -⟩
  · exact .inl ⟨e, he⟩
  · exact .inl ⟨_, he⟩
  · have hsaves : r.Saves call s p.number p.collection i := ⟨hb, hw, params, i', s', hplan, hsave⟩
    obtain ⟨-, stored, hwritten⟩ := hsaves.written hooks hn
    rw [plan_of_change_of_reference (.inr hop) href] at hplan
    obtain ⟨-, target, id, old, value, -, -, hid', hold, hvalue, rfl⟩ :=
      (planReference_eq_ok_iff hb).mp hplan
    cases hid.symm.trans hid'
    have hgiven : value = call.appended (KeyMap.get? old.values p.field) := by
      rw [hfield, Option.any_some, hplural, hop] at hvalue
      exact (Except.ok.inj hvalue).symm
    subst hgiven
    -- the instance has the identifier of the record still
    have hsame : idOf? (KeyMap.insert old.values p.field
        (call.appended (KeyMap.get? old.values p.field))) = some p.id := by
      unfold idOf?
      rw [KeyMap.get?_insert_of_ne _ _ hname.1]
      exact (hs _ _ _ _ hold).idOf?_eq
    rw [Instance.id?, hsame] at hwritten
    exact .inr (.of_put hname hs hold (hwritten.put_of_stored hold))

end Registry

/-! ### Unions -/

/-- What a request gives, added to what a reference has, makes the union of all identifiers. -/
structure Call.Unites (call : Call) (p : Place) (old : Option Json) : Prop where
  /-- The store does not write the value itself. -/
  ordinary : IsOrdinary p.field
  /-- A value that stands alone is given again, before the others. -/
  single : ∀ v, old = some v → Reference.IsSingle v →
    call.additions.head? = some v
  /-- Null is not given alone, unless it is an item already. -/
  null : Reference.simplify call.request.body = .null → .null ∈ Reference.kept old
  /-- No item is populated, where saving simplifies the items once more. -/
  simple : KeyMap.contains call.factory.schema.references p.field = true →
    ∀ w ∈ Reference.append (Reference.kept old) call.additions, ¬Reference.IsPopulated w

/-- The union of the identifiers that a reference has and those that a request gives. -/
def Call.united (call : Call) (old : Option Json) : Json :=
  .array (Reference.union (Reference.identifiers old)
    (Reference.identifiers (some (Reference.simplify call.request.body))))

/-- Adding again what was given changes nothing but the time of the last change. -/
structure Call.Repeats (call : Call) (p : Place) (s : Store) : Prop where
  /-- The references of the record are in normal form. -/
  stored : ∀ name v, KeyMap.contains call.factory.schema.references name = true →
    s.value? { p with field := name } = some v → Reference.simplify v = v
  /-- What is given is not populated, where saving simplifies the items once more. -/
  given : KeyMap.contains call.factory.schema.references p.field = true →
    ∀ w ∈ call.additions, ¬Reference.IsPopulated w

variable {call : Call} {p : Place} {s s' s'' : Store}

theorem Call.settled_appended_eq_iff (hname : IsOrdinary p.field) (old : Option Json) :
    call.factory.schema.settled p.field (call.appended old) = call.united old ↔
      call.Unites p old := by
  unfold Call.appended Call.united Call.additions
  rw [ModelSchema.settled_array, Json.array.injEq,
    Reference.map_append_eq_union_iff (call.factory.schema.size_settledItem p.field)]
  simp only [ModelSchema.settledItem_eq_self_iff]
  constructor
  · rintro ⟨hsingle, hnull, hsimple⟩
    exact ⟨hname, hsingle, hnull, fun href w hw => hsimple w hw href⟩
  · intro h
    exact ⟨h.single, h.null, fun w hw href => h.simple href w hw⟩

/-- Adding again what was given changes nothing else exactly if all is in normal form. -/
theorem Call.Appends.repeats_iff (h : call.Appends p s s') (h' : call.Appends p s' s'')
    (hname : IsOrdinary p.field)
    (htexts : ∀ (q : Place) v, ¬IsOrdinary q.field → s'.value? q = some v →
      ∃ text, v = .string text) :
    (∀ q, q ≠ { p with field := updatedAtField } → s''.value? q = s'.value? q) ↔
      call.Repeats p s' := by
  obtain ⟨stored, hstored⟩ : ∃ stored, stored = (Reference.append (Reference.kept (s.value? p))
      call.additions).map (call.factory.schema.settledItem p.field) := ⟨_, rfl⟩
  have hthere : s'.value? p = some (.array stored) := by
    rw [h.reference, Call.appended, ModelSchema.settled_array, hstored]
  have hagain : s''.value? p = s'.value? p ↔
      (∀ v ∈ call.additions, call.factory.schema.settledItem p.field v = v) ∧
      ∀ w ∈ stored, call.factory.schema.settledItem p.field w = w := by
    rw [h'.reference, hthere, Option.some.injEq, ← ModelSchema.settled_append_settled_iff hstored]
    rfl
  have hsimple : (∀ w ∈ stored, call.factory.schema.settledItem p.field w = w) ↔
      call.factory.schema.settled p.field (.array stored) = .array stored := by
    rw [ModelSchema.settled_array, Json.array.injEq, Reference.map_eq_self_iff]
  constructor
  · intro hall
    obtain ⟨hgiven, hkept⟩ := hagain.mp (hall p fun he => hname.2.2 (congrArg Place.field he))
    refine ⟨fun name v href hv => ?_, fun href w hw =>
      ModelSchema.settledItem_eq_self_iff.mp (hgiven w hw) href⟩
    by_cases hother : name = p.field
    · subst hother
      cases hv.symm.trans hthere
      exact ModelSchema.settled_eq_self_iff.mp (hsimple.mp hkept) href
    by_cases hord : IsOrdinary name
    · have hsame := hall { p with field := name } fun he => hord.2.2 (congrArg Place.field he)
      rw [h'.saved name hord hother, hv, Option.map_some, Option.some.injEq] at hsame
      exact ModelSchema.settled_eq_self_iff.mp hsame href
    · obtain ⟨text, rfl⟩ := htexts _ v hord hv
      rfl
  · intro hrepeats q hq
    by_cases hrecord : p.number = q.number ∧ p.collection = q.collection ∧ p.id = q.id
    case neg => exact h'.others q hrecord
    obtain ⟨number, collection, id, name⟩ := q
    obtain ⟨rfl, rfl, rfl⟩ := hrecord
    by_cases hother : name = p.field
    · subst hother
      refine hagain.mpr ⟨fun v hv => ModelSchema.settledItem_eq_self_iff.mpr fun href =>
        hrepeats.given href v hv, hsimple.mpr (ModelSchema.settled_eq_self_iff.mpr fun href =>
          hrepeats.stored _ _ href hthere)⟩
    by_cases hord : IsOrdinary name
    · rw [h'.saved name hord hother]
      cases hv : s'.value? { p with field := name } with
      | none => rfl
      | some v => exact congrArg some (ModelSchema.settled_eq_self_iff.mpr fun href =>
          hrepeats.stored _ _ href hv)
    · refine h'.kept name ?_
      by_contra hno
      refine hord ⟨fun hid => hno (.inl hid), fun hc => hno (.inr hc), ?_⟩
      rintro rfl
      exact hq rfl

/-- **What a request that adds to a reference leaves.** The items that the reference has as an array
stay, what is given comes after them, and all are saved. So the reference becomes the union of the
identifiers that it stands for and those that are given exactly if the request `Unites` them. The
same request again changes nothing but the time of the last change exactly if the record `Repeats`
it, and never does if it fails. -/
theorem Server.unites_iff {server : Server} (h : server.Assembled) {s s' : Store}
    (hs : server.Reaches s) {call : Call} (hf : call.factory ∈ server.registry.made)
    (hooks : call.factory.HookFree) {p : Place}
    (hb : call.factory.actions? = some (.memory p.number p.collection))
    (hop : call.operation = .patch) (href : call.request.reference = some p.field)
    (hid : call.request.id = some p.id) {field : Field}
    (hfield : call.factory.field? p.field = some field) (hplural : field.isPlural = true)
    {outcome : Outcome} (hok : server.registry.perform call s = .ok outcome s') :
    (IsOrdinary p.field → s'.value? p =
      some (call.factory.schema.settled p.field (call.appended (s.value? p)))) ∧
    (s'.value? p = some (call.united (s.value? p)) ↔ call.Unites p (s.value? p)) ∧
    (IsOrdinary p.field →
      (call.Repeats p s' → ∀ q, q ≠ { p with field := updatedAtField } →
        (server.registry.after s' call).value? q = s'.value? q) ∧
      ∀ outcome' s'', server.registry.perform call s' = .ok outcome' s'' →
        (∀ q, q ≠ { p with field := updatedAtField } → s''.value? q = s'.value? q) →
          call.Repeats p s') := by
  have hafter : server.registry.after s call = s' := by
    rw [Registry.after, hok]
    rfl
  have hreach : server.Reaches s' := hafter ▸ hs.after hf
  have happends : ∀ {s : Store}, server.Reaches s → IsOrdinary p.field →
      (∃ e, server.registry.perform call s = .error e s) ∨
        call.Appends p s (server.registry.after s call) := fun hs hname =>
    Registry.appends_of_patch hooks hb (((hs.deployed h).memory _ hf).lt hb) (hs.sound h).2 hop href
      hid hfield hplural hname
  have hfirst : IsOrdinary p.field → call.Appends p s s' := by
    intro hname
    rcases happends hs hname with ⟨e, he⟩ | hfirst
    · rw [hok] at he
      cases he
    · rwa [hafter] at hfirst
  refine ⟨fun hname => (hfirst hname).reference, ?_, fun hname => ⟨fun hrepeats => ?_, ?_⟩⟩
  · by_cases hname : IsOrdinary p.field
    · rw [(hfirst hname).reference, Option.some.injEq, Call.settled_appended_eq_iff hname]
    · -- what the store writes itself is a text
      refine iff_of_false (fun hv => ?_) fun hunites => hname hunites.ordinary
      obtain ⟨text, htext⟩ := hreach.exists_text h hname hv
      cases htext
  · rcases happends hreach hname with ⟨e, he⟩ | hsecond
    · intro q _
      rw [Registry.after, he]
      rfl
    · exact ((hfirst hname).repeats_iff hsecond hname fun q v => hreach.exists_text h).mpr hrepeats
  · intro outcome' s'' hok' hall
    rcases happends hreach hname with ⟨e, he⟩ | hsecond
    · rw [hok'] at he
      cases he
    · rw [Registry.after, hok'] at hsecond
      exact ((hfirst hname).repeats_iff hsecond hname fun q v => hreach.exists_text h).mp hall

namespace Anthology

/-- A book has a title and several authors. -/
def classes : List ClassDecl :=
  [(ClassDecl.model "Author").addMember (Lending.property "name" "string" []),
    { ClassDecl.model "Book" with
      members :=
        [Lending.property "title" "string" [], Lending.property "authors" "Author[]" []] }]

/-- The server with its models set up. -/
def server : Server := stateLeft (Server.assemble (.storing "anthology" classes))

theorem assembled : server.Assembled := Server.assembled_storing (by decide +kernel)

theorem hookFree : server.HookFree := Server.hookFree_of_isNone (by decide +kernel)

/-- The factory of books. -/
def books : Factory := server.factory "Book"

theorem books_mem : books ∈ server.registry.made := Server.factory_mem (by decide +kernel)

theorem books_actions : books.actions? = some (.memory 0 "Book") :=
  Lending.eq_of_collection? (by decide +kernel)

theorem exists_authors_field :
    ∃ field, books.field? "authors" = some field ∧ field.isPlural = true := by
  have h : (books.field? "authors").any Field.isPlural = true := by decide +kernel
  cases hfield : books.field? "authors" with
  | none =>
    rw [hfield] at h
    cases h
  | some field =>
    rw [hfield] at h
    exact ⟨field, rfl, h⟩

/-- The store with two books by the first author, of which the second has its author alone. -/
def store : Store := server.storeAfter
  [("Book", .create, { body := .object [("_id", .string "b1"), ("authors",
      .array [.string "a1"])] }),
    ("Book", .create, { body := .object [("_id", .string "b2"), ("authors", .string "a1")] })]

theorem reaches_store : server.Reaches store := Server.reaches_storeAfter (by decide +kernel)

/-- A request to add the second author to a book. -/
def added (id : String) : Call where
  operation := .patch
  factory := books
  request := { id := some id, reference := some "authors", body := .array [.string "a2"] }

/-- Where the authors of a book are kept. -/
def authors (id : String) : Place :=
  { number := 0, collection := "Book", id := id, field := "authors" }

theorem added_unites : (added "b1").Unites (authors "b1") (store.value? (authors "b1")) := by
  have hold : store.value? (authors "b1") = some (.array [.string "a1"]) := by decide +kernel
  rw [hold]
  refine ⟨⟨by decide, by decide, by decide⟩, fun v hv hsingle => ?_, nofun, fun _ w hw => ?_⟩
  · cases hv
    cases hsingle.2
  · have hitems : Reference.append (Reference.kept (some (.array [.string "a1"])))
        (added "b1").additions = [.string "a1", .string "a2"] := by decide
    rw [hitems] at hw
    rintro ⟨id, hid, -⟩
    rcases List.mem_pair.mp hw with rfl | rfl <;> cases hid

/-- The second author comes after the first. -/
theorem author_added : ∃ outcome s', server.registry.perform (added "b1") store = .ok outcome s' ∧
    s'.value? (authors "b1") = some (.array [.string "a1", .string "a2"]) := by
  have hsucceeds : succeeded (server.registry.perform (added "b1") store) = true := by
    decide +kernel
  obtain ⟨outcome, s', hok⟩ := succeeded_iff.mp hsucceeds
  obtain ⟨field, hfield, hplural⟩ := exists_authors_field
  have hb : (added "b1").factory.actions? =
      some (.memory (authors "b1").number (authors "b1").collection) := books_actions
  obtain ⟨-, hunites, -⟩ := Server.unites_iff assembled reaches_store books_mem
    (hookFree _ books_mem) hb rfl rfl rfl hfield hplural hok
  refine ⟨outcome, s', hok, ?_⟩
  rw [hunites.mpr added_unites]
  decide +kernel

/-- The author that stood alone is gone. -/
theorem author_dropped : server.Assembled ∧ server.Reaches store ∧ server.HookFree ∧
    books ∈ server.registry.made ∧ (books.field? "authors").any Field.isPlural = true ∧
    succeeded (server.registry.perform (added "b2") store) = true ∧
    store.value? (authors "b2") = some (.string "a1") ∧
    (server.registry.after store (added "b2")).value? (authors "b2") =
      some (.array [.string "a2"]) ∧
    (added "b2").united (store.value? (authors "b2")) =
      .array [.string "a1", .string "a2"] :=
  ⟨assembled, reaches_store, hookFree, books_mem, by decide +kernel, by decide +kernel,
    by decide +kernel, by decide +kernel, by decide +kernel⟩

end Anthology

end ModelRest
