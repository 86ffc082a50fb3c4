import ModelRest.Proofs.Assembly
import ModelRest.Proofs.Serialization

/-!
# What answers disclose

A field that its schema hides is not among the visible values of an instance, so no answer has it in
an object that shows a record of the model asked for. But a record in the place of a reference is put
there as it is stored, and a reference that is asked for by itself is read whether it is hidden or
not. `Registry.Discloses` says of an answer that it has a hidden field in it, and `Registry.Opens` of
an instance that the request lets one out through it.

The main statement is `Server.discloses_iff`: an answer discloses something exactly if one of the
instances that it is about opens it, and never in an object that shows such an instance itself.
-/

namespace ModelRest

theorem Json.object?_eq_some_iff {v : Json} {members : Object} :
    v.object? = some members ↔ v = .object members := by
  cases v <;> simp [object?]

/-! ### Records in the place of references -/

namespace Reference

/-- The values of a record, or its identifier and one property if that is wanted. -/
def selectedValues (values : Object) : Option String → Object
  | none => values
  | some select => KeyMap.ofPairs ([idField, select].filterMap fun name =>
      (KeyMap.get? values name).map (name, ·))

theorem selected_object (values : Object) (select : Option String) :
    selected (.object values) select = .object (selectedValues values select) := by
  cases select with
  | none => rfl
  | some select =>
    simp only [selected, project, selectedValues, Json.ofMembers, Json.member?, Json.object?,
      Option.bind_some, List.filterMap_cons, List.filterMap_nil]
    cases KeyMap.get? values idField <;> cases KeyMap.get? values select <;> rfl

/-- All properties are wanted, or this one, or it is the identifier. -/
def Wants (select : Option String) (name : String) : Prop :=
  select = none ∨ select = some name ∨ name = idField

theorem get?_selectedValues {values : Object} {select : Option String} {name : String} {v : Json} :
    KeyMap.get? (selectedValues values select) name = some v ↔
      KeyMap.get? values name = some v ∧ Wants select name := by
  cases select with
  | none => exact (and_iff_left (.inl rfl)).symm
  | some select =>
    have hwants : Wants (some select) name ↔ name ∈ [idField, select] := by
      simp [Wants, or_comm, eq_comm]
    rw [hwants, and_comm]
    exact KeyMap.get?_ofPairs_filterMap

/-- Of one property that is selected, the value is there beside the identifier. -/
theorem get?_selectedValues_some {values : Object} {property name : String} :
    KeyMap.get? (selectedValues values (some property)) name =
      if name = idField ∨ name = property then KeyMap.get? values name else none := by
  apply Option.ext
  intro v
  have hwants : Wants (some property) name ↔ name = idField ∨ name = property := by
    simp [Wants, or_comm, eq_comm]
  rw [get?_selectedValues, hwants]
  split
  · rename_i hname
    exact and_iff_left hname
  · rename_i hname
    simp [hname]

/-- The values of a record: those of an object with an identifier. -/
def record? : Json → Option Object
  | .object values => if (idOf? values).isSome then some values else none
  | _ => none

/-- The records in the place of a reference. -/
def records (v : Json) : List Object := (items v).filterMap record?

/-- The identifiers in a reference. -/
def ids (v : Json) : List String := (items v).filterMap id?

/-- The reference leads to no record. -/
def Dangles (c : Collection) (v : Json) : Prop :=
  v = .null ∨ ∃ id, id? v = some id ∧ KeyMap.get? c id = none

theorem record?_eq_some_iff {v : Json} {values : Object} :
    record? v = some values ↔ v = .object values ∧ ∃ id, idOf? values = some id := by
  cases v with
  | object members =>
    rw [← Option.isSome_iff_exists, record?, Option.ite_none_right_eq_some, Option.some.injEq,
      Json.object.injEq]
    constructor
    · rintro ⟨h, rfl⟩
      exact ⟨rfl, h⟩
    · rintro ⟨rfl, h⟩
      exact ⟨h, rfl⟩
  | null | bool | number | string | array => simp [record?]

section Filling

variable {c : Collection} {select : Option String} {v : Json} {id : String} {record : StoredRecord}

theorem filledOne_of_no_id (h : id? v = none) : filledOne c select v = v := by
  unfold filledOne
  rw [h]

theorem filledOne_of_not_stored (h : id? v = some id) (hget : KeyMap.get? c id = none) :
    filledOne c select v = .null := by
  unfold filledOne
  rw [h]
  dsimp only
  rw [hget]

theorem filledOne_of_stored (h : id? v = some id) (hget : KeyMap.get? c id = some record) :
    filledOne c select v = .object (selectedValues record.values select) := by
  unfold filledOne
  rw [h]
  dsimp only
  rw [hget, ← selected_object]

/-- A reference is filled in item by item. -/
theorem items_filled (c : Collection) (select : Option String) (v : Json) :
    items (filled c select v) = (items v).map (filledOne c select) := by
  have hone : ∀ w, filled c select w = filledOne c select w → items w = [w] →
      items (filled c select w) = (items w).map (filledOne c select) := by
    intro w hw hitems
    rw [hw, hitems, List.map_singleton]
    cases hid : id? w with
    | none => rw [filledOne_of_no_id hid, hitems]
    | some id =>
      cases hget : KeyMap.get? c id with
      | none => rw [filledOne_of_not_stored hid hget]; rfl
      | some record => rw [filledOne_of_stored hid hget]; rfl
  cases v with
  | array items => rfl
  | null | bool | number | string | object => exact hone _ rfl rfl

theorem filledOne_eq_null_iff (c : Collection) (select : Option String) (v : Json) :
    filledOne c select v = .null ↔ Dangles c v := by
  unfold Dangles
  cases hid : id? v with
  | none => simp [filledOne_of_no_id hid]
  | some id =>
    have hne : v ≠ .null := by
      rintro rfl
      cases hid
    cases hget : KeyMap.get? c id with
    | none => simp [filledOne_of_not_stored hid hget, hget]
    | some record => simp [filledOne_of_stored hid hget, hget, hne]

/-- Nothing is left of a reference that leads to no record, and of no other. -/
theorem filled_eq_null_iff (c : Collection) (select : Option String) (v : Json) :
    filled c select v = .null ↔ Dangles c v := by
  have hone : ∀ w, filled c select w = filledOne c select w →
      (filled c select w = .null ↔ Dangles c w) := by
    intro w hw
    rw [hw]
    exact filledOne_eq_null_iff c select w
  cases v with
  | array items => simp [filled, Dangles, id?, Json.member?, Json.object?]
  | null | bool | number | string | object => exact hone _ rfl

end Filling

/-- What an item is filled in with is a record exactly if the item leads to one. -/
theorem record?_filledOne {s : Store} (hs : s.Sound) {number : Nat} {collection : String}
    {select : Option String} {v : Json} {values : Object} :
    record? (filledOne (s.records number collection) select v) = some values ↔
      ∃ id record, id? v = some id ∧ KeyMap.get? (s.records number collection) id = some record ∧
        selectedValues record.values select = values := by
  cases hid : id? v with
  | none =>
    rw [filledOne_of_no_id hid, record?_eq_some_iff]
    simp only [reduceCtorEq, false_and, exists_false, iff_false]
    rintro ⟨rfl, id, hvalues⟩
    cases hid.symm.trans hvalues
  | some id =>
    cases hget : KeyMap.get? (s.records number collection) id with
    | none =>
      rw [filledOne_of_not_stored hid hget, record?_eq_some_iff]
      simp [hget]
    | some record =>
      have hkey : idOf? (selectedValues record.values select) = some id := by
        unfold idOf?
        rw [get?_selectedValues.mpr ⟨(hs _ _ _ _ hget).keyed, .inr (.inr rfl)⟩]
        rfl
      rw [filledOne_of_stored hid hget, record?_eq_some_iff, Json.object.injEq]
      constructor
      · rintro ⟨rfl, -⟩
        exact ⟨id, record, rfl, hget, rfl⟩
      · rintro ⟨_, record', hid', hget', rfl⟩
        cases hid'
        cases hget.symm.trans hget'
        exact ⟨rfl, id, hkey⟩

/-- The records in the place of a reference are those that its identifiers lead to, as far as they
are wanted. -/
theorem mem_records_filled {s : Store} (hs : s.Sound) {number : Nat} {collection : String}
    {select : Option String} {v : Json} {values : Object} :
    values ∈ records (filled (s.records number collection) select v) ↔
      ∃ id record, id ∈ ids v ∧ KeyMap.get? (s.records number collection) id = some record ∧
        selectedValues record.values select = values := by
  unfold records ids
  rw [items_filled]
  simp only [List.mem_filterMap, List.mem_map, exists_exists_and_eq_and, record?_filledOne hs]
  constructor
  · rintro ⟨item, hitem, id, record, hid, hget, rfl⟩
    exact ⟨id, record, ⟨item, hitem, hid⟩, hget, rfl⟩
  · rintro ⟨id, record, ⟨item, hitem, hid⟩, hget, rfl⟩
    exact ⟨item, hitem, id, record, hid, hget, rfl⟩

end Reference

/-! ### Disclosing -/

/-- The object has a value in a field that the schema hides. -/
def ModelSchema.Uncovers (schema : ModelSchema) (values : Object) : Prop :=
  ∃ name, schema.hides name = true ∧ KeyMap.contains values name = true

/-- A record in the place of a reference has a value in a field that the schema hides. -/
def ModelSchema.UncoveredIn (schema : ModelSchema) (v : Json) : Prop :=
  ∃ values ∈ Reference.records v, schema.Uncovers values

/-- What a reference is filled in with uncovers a hidden field exactly if it leads to a record that
has a value in it, and the value is wanted. -/
theorem ModelSchema.uncoveredIn_filled_iff {s : Store} (hs : s.Sound) {schema : ModelSchema}
    {number : Nat} {collection : String} {select : Option String} {v : Json} :
    schema.UncoveredIn (Reference.filled (s.records number collection) select v) ↔
      ∃ id record name, id ∈ Reference.ids v ∧
        KeyMap.get? (s.records number collection) id = some record ∧ schema.hides name = true ∧
          KeyMap.contains record.values name = true ∧ Reference.Wants select name := by
  have hcontains : ∀ (values : Object) name,
      KeyMap.contains (Reference.selectedValues values select) name = true ↔
        KeyMap.contains values name = true ∧ Reference.Wants select name := by
    intro values name
    unfold KeyMap.contains
    simp only [Option.isSome_iff_exists, Reference.get?_selectedValues, exists_and_right]
  unfold UncoveredIn Uncovers
  simp only [Reference.mem_records_filled hs]
  constructor
  · rintro ⟨_, ⟨id, record, hid, hget, rfl⟩, name, hh, hc⟩
    obtain ⟨hc, hw⟩ := (hcontains _ _).mp hc
    exact ⟨id, record, name, hid, hget, hh, hc, hw⟩
  · rintro ⟨id, record, name, hid, hget, hh, hc, hw⟩
    exact ⟨_, ⟨id, record, hid, hget, rfl⟩, name, hh, (hcontains _ _).mpr ⟨hc, hw⟩⟩

/-- A field that leads to a model is one of those that refer to models. -/
theorem Factory.Fitted.mem_referenceNames {f target : Factory} {everywhere : KeyMap Validator}
    (hf : f.Fitted everywhere) {r : Registry} {key : String} (ht : r.target f key = .ok target) :
    key ∈ f.referenceNames := by
  cases hname : f.target? key with
  | none =>
    unfold Registry.target at ht
    rw [hname] at ht
    cases ht
  | some name =>
    obtain ⟨entry, hentry, -⟩ := Option.bind_eq_some_iff.mp hname
    obtain ⟨field, hfield, rfl⟩ := hf.exists_field hentry
    exact List.mem_map.mpr
      ⟨field, List.mem_filter.mpr ⟨hfield, hf.isReference_of_target? hfield hname⟩, rfl⟩

theorem Factory.Fitted.nodup_referenceNames {f : Factory} {everywhere : KeyMap Validator}
    (hf : f.Fitted everywhere) : f.referenceNames.Nodup :=
  hf.names_nodup.sublist (List.filter_sublist.map Field.name)

namespace Registry

/-- A hidden field of a model is in the answer to a request: in an object that shows a record of
the model asked for, in a record in the place of a reference, or as the reference asked for. -/
inductive Discloses (r : Registry) (call : Call) (params : Parameters) (body : Json) : Prop where
  /-- An object that shows a record of the model has a value in the field. -/
  | own {item : Object} (hr : call.reference? = none)
      (hi : Json.object item ∈ Reference.items body) (hu : call.factory.schema.Uncovers item)
  /-- A record in the place of a reference has one. -/
  | populated {item : Object} {key : String} {wanted : Include} {target : Factory} {v : Json}
      (hr : call.reference? = none) (hi : Json.object item ∈ Reference.items body)
      (hw : params.include? key = some wanted) (ht : r.target call.factory key = .ok target)
      (hv : KeyMap.get? item key = some v) (hu : target.schema.UncoveredIn v)
  /-- A record in the place of the reference asked for has one. -/
  | referred {reference : String} {target : Factory} (hr : call.reference? = some reference)
      (ht : r.target call.factory reference = .ok target) (hu : target.schema.UncoveredIn body)
  /-- The field is the reference asked for, and it has a value. -/
  | asked {reference : String} (hr : call.reference? = some reference)
      (hh : call.factory.schema.hides reference = true) (hne : body ≠ .null)

/-- A field refers to a record with a value in a hidden field, and the value is wanted. -/
inductive Reveals (r : Registry) (f : Factory) (s : Store) (key : String) (select : Option String)
    (v : Json) : Prop where
  | mk {target : Factory} {number : Nat} {collection id name : String} {record : StoredRecord}
      (ht : r.target f key = .ok target)
      (hb : target.actions? = some (.memory number collection)) (hid : id ∈ Reference.ids v)
      (hget : KeyMap.get? (s.records number collection) id = some record)
      (hh : target.schema.hides name = true) (hc : KeyMap.contains record.values name = true)
      (hw : Reference.Wants select name) : Reveals r f s key select v

theorem Reveals.exists_target {r : Registry} {f : Factory} {s : Store} {key : String}
    {select : Option String} {v : Json} (h : r.Reveals f s key select v) :
    ∃ target, r.target f key = .ok target := by
  obtain ⟨ht, -, -, -, -, -, -⟩ := h
  exact ⟨_, ht⟩

/-- The request lets a hidden field out through an instance. -/
inductive Opens (r : Registry) (call : Call) (params : Parameters) (s : Store) (i : Instance) :
    Prop where
  /-- A reference that is shown is to be populated with a record that has such a field. -/
  | included {key : String} {wanted : Include} {v : Json} (hr : call.reference? = none)
      (hshown : call.factory.IsShown i.values key) (hw : params.include? key = some wanted)
      (hv : i.get? key = some v) (hreveals : r.Reveals call.factory s key wanted.select v)
  /-- The reference asked for refers to a record that has one. -/
  | referred {reference : String} {v : Json} (hr : call.reference? = some reference)
      (hv : i.get? reference = some v) (hreveals : r.Reveals call.factory s reference none v)
  /-- The reference asked for is hidden, and leads somewhere. -/
  | asked {reference : String} {v : Json} {target : Factory} {number : Nat} {collection : String}
      (hr : call.reference? = some reference)
      (hh : call.factory.schema.hides reference = true) (hv : i.get? reference = some v)
      (ht : r.target call.factory reference = .ok target)
      (hb : target.actions? = some (.memory number collection))
      (hd : ¬Reference.Dangles (s.records number collection) v)

variable {r : Registry} {f : Factory} {everywhere : KeyMap Validator} {call : Call}
  {params : Parameters} {s : Store}

theorem Reveals.ne_null {key : String} {select : Option String} {v : Json}
    (h : r.Reveals f s key select v) : v ≠ .null := by
  obtain ⟨-, -, hid, -, -, -, -⟩ := h
  rintro rfl
  cases hid

/-- An object that shows an instance has no value in a hidden field. -/
theorem Shows.not_uncovers (hf : f.Fitted everywhere) {names : List String} {values m : Object}
    (h : r.Shows f params s names (f.visibleValues values) m) : ¬f.schema.Uncovers m := by
  rintro ⟨name, hh, hc⟩
  have hvalue : KeyMap.get? (f.visibleValues values) name = none := by
    rw [Option.eq_none_iff_forall_ne_some]
    intro v hv
    obtain ⟨⟨field, hfield, rfl, hshown⟩, -⟩ := Factory.get?_visibleValues_eq_some_iff.mp hv
    rw [hf.isVisible_eq_false hfield hh] at hshown
    cases hshown
  rw [KeyMap.contains, h.absent name hvalue] at hc
  cases hc

/-- What a reference that is asked for becomes uncovers a hidden field exactly if the reference
reveals one. -/
theorem Populated.uncoveredIn_iff (hs : s.Sound) {key : String} {v w : Json}
    (hp : r.Populated f params s key v w) {wanted : Include} (hi : params.include? key = some wanted)
    {target : Factory} (ht : r.target f key = .ok target) :
    target.schema.UncoveredIn w ↔ r.Reveals f s key wanted.select v := by
  cases hp with
  | skipped hno =>
    rw [hi] at hno
    cases hno
  | null =>
    constructor
    · rintro ⟨values, hvalues, -⟩
      cases hvalues
    · rintro ⟨-, -, hid, -, -, -, -⟩
      cases hid
  | @filled _ wanted' target' number collection hi' ht' hb =>
    cases hi.symm.trans hi'
    cases ht.symm.trans ht'
    rw [ModelSchema.uncoveredIn_filled_iff hs]
    constructor
    · rintro ⟨id, record, name, hid, hget, hh, hc, hw⟩
      exact ⟨ht, hb, hid, hget, hh, hc, hw⟩
    · rintro ⟨ht', hb', hid, hget, hh, hc, hw⟩
      cases ht.symm.trans ht'
      cases hb.symm.trans hb'
      exact ⟨_, _, _, hid, hget, hh, hc, hw⟩

/-- An object that shows an instance has a record in it that uncovers a hidden field exactly if the
instance opens one. -/
theorem Shows.uncoveredIn_iff (hs : s.Sound) (hf : call.factory.Fitted everywhere)
    (hr : call.reference? = none) {i : Instance} {m : Object}
    (h : r.Shows call.factory params s call.factory.referenceNames
      (call.factory.visibleValues i.values) m) :
    (∃ key wanted target v, params.include? key = some wanted ∧
        r.target call.factory key = .ok target ∧ KeyMap.get? m key = some v ∧
        target.schema.UncoveredIn v) ↔ r.Opens call params s i := by
  constructor
  · rintro ⟨key, wanted, target, w, hw, ht, hget, hu⟩
    cases hv : KeyMap.get? (call.factory.visibleValues i.values) key with
    | none =>
      rw [h.absent key hv] at hget
      cases hget
    | some v =>
      obtain ⟨hshown, hvalue⟩ := Factory.get?_visibleValues_eq_some_iff.mp hv
      obtain ⟨w', hw', hp⟩ := h.populated key (hf.mem_referenceNames ht) v hv
      cases hget.symm.trans hw'
      exact .included hr hshown hw hvalue ((hp.uncoveredIn_iff hs hw ht).mp hu)
  · intro hopens
    cases hopens with
    | @included key wanted v _ hshown hw hvalue hreveals =>
      obtain ⟨target, ht⟩ := hreveals.exists_target
      have hv := Factory.get?_visibleValues_eq_some_iff.mpr ⟨hshown, hvalue⟩
      obtain ⟨w, hget, hp⟩ := h.populated key (hf.mem_referenceNames ht) v hv
      exact ⟨key, wanted, target, w, hw, ht, hget, (hp.uncoveredIn_iff hs hw ht).mpr hreveals⟩
    | referred hr' | asked hr' =>
      rw [hr] at hr'
      cases hr'

/-- Something is left of a reference that is asked for exactly if it leads somewhere. -/
theorem Populated.ne_null_iff {key : String} {v w : Json} (hp : r.Populated f params s key v w)
    {wanted : Include} (hi : params.include? key = some wanted) :
    w ≠ .null ↔ ∃ target number collection, r.target f key = .ok target ∧
      target.actions? = some (.memory number collection) ∧
        ¬Reference.Dangles (s.records number collection) v := by
  cases hp with
  | skipped hno =>
    rw [hi] at hno
    cases hno
  | null =>
    constructor
    · intro hne
      exact absurd rfl hne
    · rintro ⟨_, _, _, -, -, hd⟩
      exact absurd (.inl rfl) hd
  | @filled _ wanted' target number collection _ ht hb =>
    rw [Ne, Reference.filled_eq_null_iff]
    constructor
    · intro hd
      exact ⟨target, number, collection, ht, hb, hd⟩
    · rintro ⟨target', number', collection', ht', hb', hd⟩
      cases ht.symm.trans ht'
      cases hb.symm.trans hb'
      exact hd

/-- The reference asked for discloses a hidden field exactly if the instance opens one. -/
theorem Populated.discloses_iff_opens (hs : s.Sound) {reference : String}
    (hr : call.reference? = some reference) {target : Factory}
    (ht : r.target call.factory reference = .ok target) {i : Instance} {body : Json}
    (hp : r.Populated call.factory (referenceAlone reference) s reference
      ((i.get? reference).getD .null) body) :
    r.Discloses call params body ↔ r.Opens call params s i := by
  have hu := hp.uncoveredIn_iff hs (include?_referenceAlone reference) ht
  have hleads := hp.ne_null_iff (include?_referenceAlone reference)
  -- what is not null is a value of the instance
  have hvalue : (i.get? reference).getD .null ≠ .null →
      i.get? reference = some ((i.get? reference).getD .null) := by
    intro hne
    cases hget : i.get? reference with
    | none =>
      rw [hget] at hne
      exact absurd rfl hne
    | some v => rfl
  constructor
  · intro hd
    cases hd with
    | own hr' | populated hr' =>
      rw [hr] at hr'
      cases hr'
    | referred hr' ht' huncovered =>
      cases hr.symm.trans hr'
      cases ht.symm.trans ht'
      have hreveals := hu.mp huncovered
      exact .referred hr (hvalue hreveals.ne_null) hreveals
    | asked hr' hh hne =>
      cases hr.symm.trans hr'
      obtain ⟨target', number, collection, ht', hb, hd⟩ := hleads.mp hne
      exact .asked hr hh (hvalue fun hnull => hd (.inl hnull)) ht' hb hd
  · intro hopens
    cases hopens with
    | included hr' =>
      rw [hr] at hr'
      cases hr'
    | referred hr' hv hreveals =>
      cases hr.symm.trans hr'
      rw [hv] at hu
      exact .referred hr ht (hu.mpr hreveals)
    | @asked _ v target' number collection hr' hh hv ht' hb hd =>
      cases hr.symm.trans hr'
      rw [hv] at hleads
      exact .asked hr hh (hleads.mpr ⟨target', number, collection, ht', hb, hd⟩)

/-- An answer discloses a hidden field exactly if one of its instances opens one, and never in the
objects that show the instances. -/
theorem Answers.discloses_iff_opens (hs : s.Sound) (hf : call.factory.Fitted everywhere)
    {is : List Instance} {body : Json} (h : r.Answers call params s is body) :
    (r.Discloses call params body ↔ ∃ i ∈ is, r.Opens call params s i) ∧
      (call.reference? = none → ∀ item, Json.object item ∈ Reference.items body →
        ¬call.factory.schema.Uncovers item) := by
  cases h with
  | @referred i reference target _ hr ht hp =>
    have hone : (∃ j ∈ [i], r.Opens call params s j) ↔ r.Opens call params s i := by simp
    refine ⟨(hp.discloses_iff_opens hs hr ht).trans hone.symm, fun hno => ?_⟩
    rw [hr] at hno
    cases hno
  | shown hr hshows =>
    have hown : ∀ item, Json.object item ∈ Reference.items body →
        ¬call.factory.schema.Uncovers item := by
      intro item hitem
      obtain ⟨i, -, m, hm, h⟩ := exists_left_of_forall₂ hshows hitem
      cases hm
      exact h.not_uncovers hf
    refine ⟨⟨fun hd => ?_, fun ⟨i, hi, hopens⟩ => ?_⟩, fun _ => hown⟩
    · cases hd with
      | own _ hitem hu => exact absurd hu (hown _ hitem)
      | @populated item key wanted target v _ hitem hw ht hv hu =>
        obtain ⟨i, hi, m, hm, h⟩ := exists_left_of_forall₂ hshows hitem
        cases hm
        exact ⟨i, hi, (h.uncoveredIn_iff hs hf hr).mp ⟨key, wanted, target, v, hw, ht, hv, hu⟩⟩
      | referred hr' | asked hr' =>
        rw [hr] at hr'
        cases hr'
    · obtain ⟨item, hitem, m, rfl, h⟩ := exists_right_of_forall₂ hshows hi
      obtain ⟨key, wanted, target, v, hw, ht, hv, hu⟩ :=
        (h.uncoveredIn_iff hs hf hr).mpr hopens
      exact .populated hr hitem hw ht hv hu

end Registry

/-- **What the answers of an assembled server disclose**: a hidden field exactly if one of the
instances that the answer is about opens it, and never in an object that shows such an instance. -/
theorem Server.discloses_iff {server : Server} (h : server.Assembled) {s s' : Store}
    (hs : server.Reaches s) {call : Call} (hf : call.factory ∈ server.registry.made)
    (hop : call.operation ≠ .delete) {outcome : Outcome}
    (hok : server.registry.perform call s = .ok outcome s') :
    ∃ is params, server.registry.gather call s = .ok (is, params) s' ∧
      (server.registry.Discloses call params outcome.body ↔
        ∃ i ∈ is, server.registry.Opens call params s' i) ∧
      (call.reference? = none → ∀ item, Json.object item ∈ Reference.items outcome.body →
        ¬call.factory.schema.Uncovers item) := by
  have hreach : server.Reaches s' := by
    have hafter := hs.after hf
    rw [Registry.after, hok] at hafter
    exact hafter
  have hfitted := h.fitted call.factory hf
  have hmemory : server.registry.TargetsInMemory call.factory s' := fun key target ht =>
    (hreach.deployed h).memory target (Registry.mem_made_of_target ht)
  obtain ⟨is, params, hgather, hanswers⟩ :=
    Registry.gather_of_perform hop hok hmemory hfitted.nodup_referenceNames
  exact ⟨is, params, hgather, hanswers.discloses_iff_opens (hreach.sound h).2 hfitted⟩

namespace Publishing

/-- Nobody sees the email of an author, nor who reviews a book. -/
def classes : List ClassDecl :=
  [{ ClassDecl.model "Author" with
      members := [Lending.property "name" "string" [],
        Lending.property "email" "string" ["invisible"]] },
    { ClassDecl.model "Book" with
      members := [Lending.property "title" "string" [], Lending.property "author" "Author" [],
        Lending.property "reviewer" "Author" ["invisible"]] }]

/-- The server with its models set up. -/
def server : Server := stateLeft (Server.assemble (.storing "publishing" classes))

theorem assembled : server.Assembled := Server.assembled_storing (by decide +kernel)

/-- An author with her email. -/
def jane : Request :=
  { body := .object [("_id", .string "a1"), ("email", .string "jane@example.com")] }

/-- A book that she has written, and reviewed as well. -/
def emma : Request :=
  { body := .object [("_id", .string "b1"), ("author", .string "a1"), ("reviewer", .string "a1")] }

/-- The store with the author and the book. -/
def store : Store := server.storeAfter [("Author", .create, jane), ("Book", .create, emma)]

/-- A request for the book with its author. -/
def read : Call where
  operation := .read
  factory := server.factory "Book"
  request := { id := some "b1", query := [("includes", "author")] }

/-- A request for the reviewer of the book. -/
def readReviewer : Call :=
  { read with request := { id := some "b1", reference := some "reviewer" } }

theorem reaches_store : server.Reaches store := Server.reaches_storeAfter (by decide +kernel)

theorem books_mem : server.factory "Book" ∈ server.registry.made :=
  Server.factory_mem (by decide +kernel)

/-- A successful request for the book opens what it discloses. -/
theorem read_discloses : ∃ outcome s', server.registry.perform read store = .ok outcome s' ∧
    ∃ is params, server.registry.gather read store = .ok (is, params) s' ∧
      (server.registry.Discloses read params outcome.body ↔
        ∃ i ∈ is, server.registry.Opens read params s' i) ∧
      (read.reference? = none → ∀ item, Json.object item ∈ Reference.items outcome.body →
        ¬read.factory.schema.Uncovers item) := by
  obtain ⟨outcome, s', h⟩ := succeeded_iff.mp
    (by decide +kernel : succeeded (server.registry.perform read store) = true)
  exact ⟨outcome, s', h, Server.discloses_iff assembled reaches_store books_mem (by decide) h⟩

theorem authors_hide_email : ∃ target, server.registry.target read.factory "author" = .ok target ∧
    target.schema.hides "email" = true := by
  have h : (server.registry.target read.factory "author").toOption.map
      (fun target => target.schema.hides "email") = some true := by decide +kernel
  cases ht : server.registry.target read.factory "author" with
  | error e =>
    rw [ht] at h
    cases h
  | ok target =>
    rw [ht] at h
    exact ⟨target, rfl, Option.some.inj h⟩

/-- The email is in the author of the book, and the reviewer is read. -/
theorem email_disclosed : server.Assembled ∧ server.Reaches store ∧
    (∃ params outcome s', read.request.parameters = .ok params ∧
      server.registry.perform read store = .ok outcome s' ∧
      server.registry.Discloses read params outcome.body) ∧
    ∃ params outcome s', readReviewer.request.parameters = .ok params ∧
      server.registry.perform readReviewer store = .ok outcome s' ∧
      server.registry.Discloses readReviewer params outcome.body := by
  have hparams : read.request.parameters = .ok { includes := [{ path := "author" }] } := by rfl
  have hread : ((answer? (server.registry.perform read store)).bind (·.body.object?)).bind
      (fun item => ((KeyMap.get? item "author").bind Reference.record?).map
        (KeyMap.contains · "email")) = some true := by decide +kernel
  have hreviewer : (answer? (server.registry.perform readReviewer store)).map
      (fun outcome => decide (outcome.body = .null)) = some false := by decide +kernel
  refine ⟨assembled, reaches_store, ?_, ?_⟩
  · obtain ⟨target, ht, hh⟩ := authors_hide_email
    obtain ⟨item, hitem, hauthor⟩ := Option.bind_eq_some_iff.mp hread
    obtain ⟨outcome, houtcome, hbody⟩ := Option.bind_eq_some_iff.mp hitem
    obtain ⟨author, hget, hc⟩ := Option.map_eq_some_iff.mp hauthor
    obtain ⟨v, hv, hrecord⟩ := Option.bind_eq_some_iff.mp hget
    have hitems : Json.object item ∈ Reference.items outcome.body := by
      rw [Json.object?_eq_some_iff.mp hbody]
      exact List.mem_singleton_self _
    have hrecords : author ∈ Reference.records v := by
      rw [(Reference.record?_eq_some_iff.mp hrecord).1]
      exact List.mem_filterMap.mpr ⟨_, List.mem_singleton_self _,
        Reference.record?_eq_some_iff.mpr ⟨rfl, (Reference.record?_eq_some_iff.mp hrecord).2⟩⟩
    exact ⟨_, outcome, _, hparams, answer?_eq_some_iff.mp houtcome,
      .populated rfl hitems rfl ht hv ⟨author, hrecords, "email", hh, hc⟩⟩
  · obtain ⟨outcome, houtcome, hne⟩ := Option.map_eq_some_iff.mp hreviewer
    refine ⟨_, outcome, _, rfl, answer?_eq_some_iff.mp houtcome, .asked rfl ?_ ?_⟩
    · decide +kernel
    · exact of_decide_eq_false hne

end Publishing

end ModelRest
