import ModelRest.Proofs.Population
import ModelRest.Proofs.Updates
import ModelRest.Proofs.Validation

/-!
# What an instance shows

An instance is shown by an object, and `serialize_shows` says which: it has the values that the
instance has in the fields of the schema that are not hidden from it (`Factory.Hides`), and a value
changes only if it is a reference that is asked for (`Registry.ShowsAs`). Then each item that has an
identifier gives way to the record that is kept under it, or to a part of the record, or to null
(`Reference.Replaces`). That holds of every factory that was initialized: if a schema names a
reference twice, the value is populated twice, which makes no difference as long as records are kept
under the identifiers that they carry (`Registry.settles_of_keyed`).
-/

namespace ModelRest

/-! ### What takes the place of an item -/

namespace Reference

/-- The value is an identifier, or an object that has one. -/
inductive Carries : Json → String → Prop where
  | text (id : String) : Carries (.string id) id
  | object {members : Object} {id : String}
    (h : KeyMap.get? members idField = some (.string id)) : Carries (.object members) id

/-- The values of a record; or, if one property is selected, only its identifier and this. -/
inductive PartOf (record : Object) : Option String → Object → Prop where
  | whole : PartOf record none record
  | selected {property : String} {values : Object} (hsorted : KeyMap.Sorted values)
    (h : ∀ name, KeyMap.get? values name =
      if name = idField ∨ name = property then KeyMap.get? record name else none) :
    PartOf record (some property) values

/-- What takes the place of one item of a reference. -/
inductive Replaces (c : Collection) (select : Option String) : Json → Json → Prop where
  /-- The record that is kept under the identifier. -/
  | stored {v : Json} {id : String} {record : StoredRecord} {values : Object}
    (hid : Carries v id) (hget : KeyMap.get? c id = some record)
    (hpart : PartOf record.values select values) : Replaces c select v (.object values)
  /-- Nothing is kept under the identifier. -/
  | gone {v : Json} {id : String} (hid : Carries v id) (hget : KeyMap.get? c id = none) :
    Replaces c select v .null
  /-- An item without an identifier stays. -/
  | other {v : Json} (h : ∀ id, ¬Carries v id) : Replaces c select v v

/-- What takes the place of a reference: of every item of an array, in their order, or of the value
alone. -/
inductive ReplacesAll (c : Collection) (select : Option String) : Json → Json → Prop where
  | many {vs ws : List Json} (h : List.Forall₂ (Replaces c select) vs ws) :
    ReplacesAll c select (.array vs) (.array ws)
  | one {v w : Json} (hone : ∀ items, v ≠ .array items) (h : Replaces c select v w) :
    ReplacesAll c select v w

variable {c : Collection} {select : Option String} {v : Json}

theorem id?_eq_some_iff {id : String} : id? v = some id ↔ Carries v id := by
  constructor
  · intro h
    cases v with
    | string text =>
      cases h
      exact .text id
    | object members =>
      obtain ⟨w, hw, h⟩ := Option.bind_eq_some_iff.mp h
      cases w with
      | string text =>
        cases h
        exact .object hw
      | null | bool | number | array | object => cases h
    | null | bool | number | array => cases h
  · intro h
    cases h with
    | text => rfl
    | object h =>
      show (KeyMap.get? _ idField).bind Json.string? = _
      rw [h]
      rfl

theorem partOf_selectedValues (values : Object) (select : Option String) :
    PartOf values select (selectedValues values select) := by
  cases select with
  | none => exact .whole
  | some property =>
    exact .selected (KeyMap.sorted_ofPairs _) fun name => get?_selectedValues_some

/-- What an item is filled in with takes its place. -/
theorem replaces_filledOne (c : Collection) (select : Option String) (v : Json) :
    Replaces c select v (filledOne c select v) := by
  cases hid : id? v with
  | none =>
    rw [filledOne_of_no_id hid]
    refine .other fun id hcarries => ?_
    rw [id?_eq_some_iff.mpr hcarries] at hid
    cases hid
  | some id =>
    cases hget : KeyMap.get? c id with
    | none =>
      rw [filledOne_of_not_stored hid hget]
      exact .gone (id?_eq_some_iff.mp hid) hget
    | some record =>
      rw [filledOne_of_stored hid hget]
      exact .stored (id?_eq_some_iff.mp hid) hget (partOf_selectedValues _ _)

theorem replacesAll_filled (c : Collection) (select : Option String) (v : Json) :
    ReplacesAll c select v (filled c select v) := by
  cases v with
  | array items =>
    refine .many ?_
    rw [List.forall₂_map_right_iff]
    exact List.forall₂_same.mpr fun v _ => replaces_filledOne c select v
  | null | bool | number | string | object => exact .one nofun (replaces_filledOne c select _)

/-! ### Twice -/

section Twice

variable (hc : ∀ id record, KeyMap.get? c id = some record →
  KeyMap.get? record.values idField = some (.string id))

include hc

theorem filledOne_filledOne (v : Json) :
    filledOne c select (filledOne c select v) = filledOne c select v := by
  cases hid : id? v with
  | none => rw [filledOne_of_no_id hid, filledOne_of_no_id hid]
  | some id =>
    cases hget : KeyMap.get? c id with
    | none =>
      rw [filledOne_of_not_stored hid hget]
      exact filledOne_of_no_id rfl
    | some record =>
      rw [filledOne_of_stored hid hget]
      -- what is left of the record still has its identifier
      have hkeyed : KeyMap.get? (selectedValues record.values select) idField =
          some (.string id) := get?_selectedValues.mpr ⟨hc id record hget, .inr (.inr rfl)⟩
      exact filledOne_of_stored (id?_eq_some_iff.mpr (.object hkeyed)) hget

/-- Filling in once more changes nothing. -/
theorem filled_filled (v : Json) : filled c select (filled c select v) = filled c select v := by
  have hone : ∀ w, (∀ items, w ≠ .array items) → filled c select w = filledOne c select w := by
    intro w hw
    cases w with
    | array items => exact absurd rfl (hw items)
    | null | bool | number | string | object => rfl
  by_cases hv : ∀ items, v ≠ .array items
  · rw [hone v hv]
    refine (hone _ fun items he => ?_).trans (filledOne_filledOne hc v)
    have hreplaces := replaces_filledOne c select v
    rw [he] at hreplaces
    cases hreplaces
    exact hv items rfl
  · obtain ⟨items, hitems⟩ := not_forall.mp hv
    rw [not_not] at hitems
    subst hitems
    simp only [filled, List.map_map, Function.comp_def, filledOne_filledOne hc]

end Twice

end Reference

namespace Registry

variable {r : Registry} {f : Factory} {params : Parameters} {s : Store}

/-- Where records are kept under the identifiers that they carry, populating once more changes
nothing. -/
theorem settles_of_keyed (hs : s.Keyed) : r.Settles f params s := by
  intro key v w w' h h'
  cases h with
  | skipped hno =>
    cases h' with
    | skipped | null => rfl
    | filled hw' =>
      rw [hno] at hw'
      cases hw'
  | null => cases h' <;> rfl
  | filled hw ht hb =>
    generalize hw₁ : Reference.filled _ _ v = w₁ at h'
    cases h' with
    | skipped | null => rfl
    | filled hw' ht' hb' =>
      cases hw.symm.trans hw'
      cases ht.symm.trans ht'
      cases hb.symm.trans hb'
      rw [← hw₁]
      exact Reference.filled_filled (hs _ _) v

end Registry

/-! ### Fields of a schema -/

/-- The name is a field of the schema: it is listed and there is an entry for it. -/
def ModelSchema.HasField (s : ModelSchema) (name : String) : Prop :=
  name ∈ s.fieldNames ∧ KeyMap.contains s.prototype name = true

namespace Factory

/-- The schema hides the field: from everyone, or by a predicate of the class that holds of the
values of the instance. -/
inductive Hides (f : Factory) (values : Object) (name : String) : Prop where
  | flag (h : (f.schema.spec? name).bind FieldSpec.invisible = some (.flag true))
  | predicate {p : String} {hides : Object → Bool}
    (h : (f.schema.spec? name).bind FieldSpec.invisible = some (.predicate p))
    (hp : KeyMap.get? f.cls.predicates p = some hides) (hholds : hides values = true)

/-- The schema refers to a model in the field. -/
def RefersBy (f : Factory) (name : String) : Prop :=
  KeyMap.contains f.schema.references name = true ∨ (f.target? name).isSome = true

variable {f g : Factory} {everywhere : KeyMap Validator} {binding : Option Actions}

/-- A field is shown to those that its schema does not hide it from. -/
theorem isVisible_iff (h : g.init everywhere binding = .ok f) {field : Field}
    (hfield : field ∈ f.fields) (values : Object) :
    field.isVisible values = true ↔ ¬f.Hides values field.name := by
  obtain ⟨entry, hentry, hr⟩ := resolve_of_mem (resolveFields_of_init h) hfield
  have hspec : (f.schema.spec? field.name).bind FieldSpec.invisible =
      entry.spec?.bind FieldSpec.invisible := by
    unfold ModelSchema.spec?
    rw [hentry, Option.bind_some]
  have hflag : (entry.spec?.getD {}).invisible = entry.spec?.bind FieldSpec.invisible := by
    cases entry.spec? <;> rfl
  unfold Field.resolve at hr
  split at hr
  · rename_i p hp
    split at hr
    · rename_i hides hhides
      have hvisible : field.isVisible values = !hides values := by
        rw [← Except.ok.inj hr]
        rfl
      rw [hvisible, Bool.not_eq_true', ← Bool.not_eq_true, not_iff_not]
      constructor
      · exact fun hholds => .predicate (hspec.trans hp) hhides hholds
      · intro hh
        cases hh with
        | flag hf => cases hf.symm.trans (hspec.trans hp)
        | predicate h' hp' hholds =>
          cases h'.symm.trans (hspec.trans hp)
          cases hp'.symm.trans hhides
          exact hholds
    · cases hr
  · rename_i hno
    have hvisibility : field.visibility =
        Field.flagVisibility (entry.spec?.bind FieldSpec.invisible) := by
      rw [← Except.ok.inj hr, ← hflag]
      rfl
    have hhides : f.Hides values field.name ↔
        entry.spec?.bind FieldSpec.invisible = some (.flag true) := by
      rw [← hspec] at hno ⊢
      constructor
      · intro hh
        cases hh with
        | flag h => exact h
        | predicate h' => exact absurd h' (hno _)
      · exact .flag
    unfold Field.isVisible
    rw [hvisibility, hhides]
    cases entry.spec?.bind FieldSpec.invisible with
    | none => simp [Field.flagVisibility]
    | some invisible =>
      cases invisible with
      | flag hidden => cases hidden <;> simp [Field.flagVisibility]
      | predicate p => simp [Field.flagVisibility]

theorem isShown_iff (h : g.init everywhere binding = .ok f) {values : Object} {name : String} :
    f.IsShown values name ↔ f.schema.HasField name ∧ ¬f.Hides values name := by
  constructor
  · rintro ⟨field, hfield, rfl, hvisible⟩
    exact ⟨mem_fieldNames_of_mem h hfield, (isVisible_iff h hfield values).mp hvisible⟩
  · rintro ⟨⟨hlisted, hentry⟩, hhides⟩
    obtain ⟨field, hfield, rfl⟩ := exists_resolveFields (resolveFields_of_init h) hlisted hentry
    exact ⟨field, hfield, rfl, (isVisible_iff h hfield values).mpr hhides⟩

theorem mem_referenceNames_iff (h : g.init everywhere binding = .ok f) {name : String} :
    name ∈ f.referenceNames ↔ f.schema.HasField name ∧ f.RefersBy name := by
  have hreference : ∀ field ∈ f.fields, field.isReference = true ↔ f.RefersBy field.name := by
    intro field hfield
    obtain ⟨entry, visibility, hentry, hf⟩ := mem_resolveFields (resolveFields_of_init h) hfield
    have hspec : (entry.spec?.getD {}).target = entry.target? := by
      unfold SchemaEntry.target?
      cases entry.spec? <;> rfl
    have htarget : field.reference =
        ((KeyMap.get? f.schema.references field.name).map ReferenceInfo.target).or
          entry.target? := by
      rw [← hspec]
      exact congrArg Field.reference hf
    unfold Field.isReference RefersBy target?
    rw [htarget, hentry, Option.isSome_or, Option.isSome_map, Bool.or_eq_true]
    rfl
  constructor
  · intro hname
    obtain ⟨field, hfield, rfl⟩ := List.mem_map.mp hname
    obtain ⟨hfield, href⟩ := List.mem_filter.mp hfield
    exact ⟨mem_fieldNames_of_mem h hfield, (hreference field hfield).mp href⟩
  · rintro ⟨⟨hlisted, hentry⟩, href⟩
    obtain ⟨field, hfield, rfl⟩ := exists_resolveFields (resolveFields_of_init h) hlisted hentry
    exact List.mem_map.mpr
      ⟨field, List.mem_filter.mpr ⟨hfield, (hreference field hfield).mpr href⟩, rfl⟩

end Factory

/-! ### What is shown -/

namespace Registry

variable {r : Registry} {f g : Factory} {everywhere : KeyMap Validator} {binding : Option Actions}
  {params : Parameters} {s s' : Store}

/-- What a value of an instance is shown as. -/
inductive ShowsAs (r : Registry) (f : Factory) (params : Parameters) (s : Store) (key : String) :
    Json → Json → Prop where
  /-- It stays, unless it is a reference that is asked for and not null. -/
  | same {v : Json} (h : ¬(f.RefersBy key ∧ (params.include? key).isSome = true ∧ v ≠ .null)) :
    ShowsAs r f params s key v v
  /-- Such a reference gives way to records of the model that it refers to, as the first include of
  its name says. -/
  | replaced {v w : Json} {wanted : Include} {target : Factory} {number : Nat}
    {collection : String} (href : f.RefersBy key) (hne : v ≠ .null)
    (hwanted : params.include? key = some wanted) (ht : r.target f key = .ok target)
    (hb : target.actions? = some (.memory number collection))
    (hw : Reference.ReplacesAll (s.records number collection) wanted.select v w) :
    ShowsAs r f params s key v w

/-- A reference that is populated is shown as it is populated. -/
theorem Populated.showsAs {key : String} {v w : Json} (href : f.RefersBy key)
    (h : r.Populated f params s key v w) : r.ShowsAs f params s key v w := by
  cases h with
  | skipped hno => exact .same (by simp [hno])
  | null => exact .same fun h => h.2.2 rfl
  | filled hwanted ht hb =>
    by_cases hne : v = .null
    · subst hne
      exact .same fun h => h.2.2 rfl
    · exact .replaced href hne hwanted ht hb (Reference.replacesAll_filled _ _ v)

/-- Populating adds no names and takes none away. -/
theorem Shows.contains_eq {names : List String} {m m' : Object} (h : r.Shows f params s names m m')
    (key : String) : KeyMap.contains m' key = KeyMap.contains m key := by
  unfold KeyMap.contains
  cases hv : KeyMap.get? m key with
  | none => rw [h.absent key hv]
  | some v =>
    by_cases hkey : key ∈ names
    · obtain ⟨w, hw, -⟩ := h.populated key hkey v hv
      rw [hw]
      rfl
    · rw [h.others key hkey, hv]

/-- **What an instance shows.** If a factory that was initialized shows an instance over databases
in memory, then the store stays as it is, and the answer is an object. Its names are the fields of
the schema in which the instance has a value and which are not hidden from it. Its values are those
of the instance, but for the references that are asked for: these give way, item by item, to what is
stored under their identifiers. The references of the factory have different names, as they have
when it was compiled, or else the records are kept under their identifiers, as they are whenever
actions have stored them. -/
theorem serialize_shows (h : g.init everywhere binding = .ok f) (hm : r.TargetsInMemory f s)
    (hs : f.referenceNames.Nodup ∨ s.Keyed) {i : Instance} {out : Json}
    (hok : r.serialize f i params s = .ok out s') :
    s' = s ∧ ∃ m, out = .object m ∧ KeyMap.Sorted m ∧
      (∀ key, key ∈ KeyMap.keys m ↔
        f.schema.HasField key ∧ i.contains key = true ∧ ¬f.Hides i.values key) ∧
      ∀ key w, KeyMap.get? m key = some w →
        ∃ v, i.get? key = some v ∧ r.ShowsAs f params s key v w := by
  obtain ⟨hsame, m, hout, hshows, hsorted⟩ :=
    serialize_eq_ok hm (hs.imp_right settles_of_keyed) hok
  refine ⟨hsame, m, hout, hsorted, fun key => ?_, fun key w hw => ?_⟩
  · have hvisible : KeyMap.contains (f.visibleValues i.values) key = true ↔
        f.IsShown i.values key ∧ i.contains key = true := by
      unfold KeyMap.contains Instance.contains KeyMap.contains
      simp only [Option.isSome_iff_exists, Factory.get?_visibleValues_eq_some_iff,
        exists_and_left]
    rw [KeyMap.mem_keys_iff, hshows.contains_eq, hvisible, Factory.isShown_iff h, and_right_comm,
      and_assoc]
  · by_cases hkey : key ∈ f.referenceNames
    · have href := ((Factory.mem_referenceNames_iff h).mp hkey).2
      cases hv : KeyMap.get? (f.visibleValues i.values) key with
      | none =>
        rw [hshows.absent key hv] at hw
        cases hw
      | some v =>
        obtain ⟨w', hw', hp⟩ := hshows.populated key hkey v hv
        cases hw.symm.trans hw'
        exact ⟨v, (Factory.get?_visibleValues_eq_some_iff.mp hv).2, hp.showsAs href⟩
    · rw [hshows.others key hkey] at hw
      obtain ⟨hshown, hv⟩ := Factory.get?_visibleValues_eq_some_iff.mp hw
      refine ⟨w, hv, .same fun href => hkey ?_⟩
      exact (Factory.mem_referenceNames_iff h).mpr ⟨((Factory.isShown_iff h).mp hshown).1, href.1⟩

end Registry

namespace Anthologizing

/-- An anthology whose editor is known only by name, and with an author that is not stored. -/
def draft : Instance :=
  { model := "Anthology"
    values := [("authors", .array [.string "a2", .string "a9", .null]),
      ("editor", .ofMembers [("name", .string "Jane")]), ("publisher", .string "p1")] }

/-- A request for the names of the authors, and for the editor. -/
def wanted : Parameters :=
  { includes := [{ path := "authors", select := some "name" }, { path := "authors" },
      { path := "editor" }] }

theorem anthologies_mem : anthologies ∈ server.registry.made :=
  Server.factory_mem (by decide +kernel)

/-- What is shown of it: the first author is there by name and the other two are null, one as
nothing is stored and one as it was; the editor has no identifier and stays; and the publisher is no
field. -/
def shown : Object :=
  [("authors", .array [.object [("_id", .string "a2"), ("name", .string "Mary")], .null, .null]),
    ("editor", .ofMembers [("name", .string "Jane")])]

theorem draft_shown :
    server.registry.serialize anthologies draft wanted store = .ok (.object shown) store ∧
      (∀ key, key ∈ KeyMap.keys shown ↔ anthologies.schema.HasField key ∧
        draft.contains key = true ∧ ¬anthologies.Hides draft.values key) ∧
      ∀ key w, KeyMap.get? shown key = some w → ∃ v, draft.get? key = some v ∧
        server.registry.ShowsAs anthologies wanted store key v w := by
  obtain ⟨g, binding, hinit⟩ := assembled.exists_init anthologies anthologies_mem
  have hreach : server.Reaches store := Server.reaches_storeAfter (by decide +kernel)
  have hmemory : server.registry.TargetsInMemory anthologies store := fun key target ht =>
    (hreach.deployed assembled).memory target (Registry.mem_made_of_target ht)
  have hanswer : answer? (server.registry.serialize anthologies draft wanted store) =
      some (.object shown) := by decide +kernel
  have hok := answer?_eq_some_iff.mp hanswer
  obtain ⟨hsame, m, hout, -, hkeys, hvalues⟩ :=
    Registry.serialize_shows hinit hmemory (.inr store_arises.keyed) hok
  cases hout
  rw [hsame] at hok
  exact ⟨hok, hkeys, hvalues⟩

end Anthologizing

end ModelRest
