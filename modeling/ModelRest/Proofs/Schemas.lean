import ModelRest.Factory
import ModelRest.Schema.Member
import ModelRest.Proofs.Effects
import ModelRest.Proofs.KeyMap

/-!
# What holds of every compiled schema

A compiled schema has a field for the identifier, an entry with a target for every reference, and no
target that does not stand for a registered collection (`ModelSchema.WellFormed`). This holds before
the first member of a class is looked at, and every member preserves it, so it holds of the schema of
every class (`wellFormed_ofClass`).

From it follows what a factory knows about its fields: `mem_resolveFields` says where a field comes
from, and `exists_target` that the model which a field refers to is known.
-/

namespace ModelRest

/-- The schema has a field for the identifier, its references have targets, and its targets are
known. -/
structure ModelSchema.WellFormed (known : List String) (s : ModelSchema) : Prop where
  /-- There is a field for the identifier. -/
  listed : idField ∈ s.properties ∨ KeyMap.contains s.references idField = true
  /-- There is an entry for the identifier. -/
  identified : KeyMap.contains s.prototype idField = true
  /-- A reference has an entry with a target. -/
  referenced : ∀ name info, KeyMap.get? s.references name = some info →
    ∃ entry target, KeyMap.get? s.prototype name = some entry ∧ entry.target? = some target
  /-- A target is known. -/
  targets : ∀ name entry target, KeyMap.get? s.prototype name = some entry →
    entry.target? = some target → target ∈ known

/-! ### Decorators say nothing about targets -/

theorem PropertyMetadata.target_applyCall {m m' : PropertyMetadata} {call : DecoratorCall}
    (h : applyCall m call = .ok m') (hm : m.spec.target = none) : m'.spec.target = none := by
  unfold applyCall at h
  obtain ⟨d, -, h⟩ := andThen_eq_ok_iff.mp h
  split at h
  case h_9 =>
    obtain ⟨path, -, h⟩ := andThen_eq_ok_iff.mp h
    cases h
    exact hm
  all_goals
    try split at h
    all_goals
      cases h
      try exact hm

theorem propertyMetadata_target {calls : List DecoratorCall} {m : PropertyMetadata}
    (h : propertyMetadata calls = .ok m) : m.spec.target = none :=
  foldlM_preserves (fun m => m.spec.target = none)
    (fun _ _ _ hb hx => PropertyMetadata.target_applyCall hx hb) rfl h

theorem PropertyMetadata.target_of_spec? {m : PropertyMetadata} (hm : m.spec.target = none)
    {spec : FieldSpec} (h : m.spec? = some spec) : spec.target = none := by
  unfold spec? at h
  split at h
  · cases h
  · cases h
    exact hm

/-! ### The targets of entries -/

namespace SchemaEntry

theorem target?_toPlural (e : SchemaEntry) : e.toPlural.target? = e.target? := by
  cases e <;> rfl

theorem target?_of_unwrap {e : SchemaEntry} {spec : FieldSpec} (h : e.unwrap = .field spec) :
    e.target? = spec.target := by
  cases e with
  | bare type => cases h
  | field s =>
    cases h
    rfl
  | plural inner =>
    have hi : inner = .field spec := h
    subst hi
    rfl

variable {before : Option SchemaEntry} {said : Option FieldSpec}

/-- The metadata that a declaration finds has a target only if the entry before it has. -/
theorem target_declaredSpec? (hsaid : ∀ spec, said = some spec → spec.target = none)
    {spec : FieldSpec} {t : String} (h : declaredSpec? before said = some spec)
    (ht : spec.target = some t) : ∃ entry, before = some entry ∧ entry.target? = some t := by
  unfold declaredSpec? at h
  split at h
  · rename_i s said' hb
    cases h
    obtain ⟨entry, hentry, hu⟩ := Option.map_eq_some_iff.mp hb
    refine ⟨entry, hentry, ?_⟩
    have hm : said'.target.or s.target = some t := ht
    rw [hsaid said' rfl, Option.none_or] at hm
    rw [target?_of_unwrap hu, hm]
  · rename_i s hb
    cases h
    obtain ⟨entry, hentry, hu⟩ := Option.map_eq_some_iff.mp hb
    exact ⟨entry, hentry, by rw [target?_of_unwrap hu, ht]⟩
  · rw [hsaid spec h] at ht
    cases ht

/-- A declared target is the target of the entry. -/
theorem target?_declared_some (before : Option SchemaEntry) (said : Option FieldSpec) (t : String)
    (element : String) (plural : Bool) :
    (declared before said (some t) element plural).target? = some t := by
  have hentry : (declaredElement before said (some t) element).target? = some t := by
    unfold declaredElement
    cases declaredSpec? before said <;> rfl
  unfold declared
  cases plural with
  | true => exact (target?_toPlural _).trans hentry
  | false => exact hentry

/-- The target of an entry after a declaration is the declared one, or was there before. -/
theorem target?_declared (hsaid : ∀ spec, said = some spec → spec.target = none)
    {target : Option String} {element : String} {plural : Bool} {t : String}
    (h : (declared before said target element plural).target? = some t) :
    target = some t ∨ ∃ entry, before = some entry ∧ entry.target? = some t := by
  cases target with
  | some t' =>
    rw [target?_declared_some] at h
    exact .inl h
  | none =>
    have hentry : (declaredElement before said none element).target? = some t := by
      unfold declared at h
      cases plural with
      | true => exact (target?_toPlural _).symm.trans h
      | false => exact h
    unfold declaredElement at hentry
    cases hs : declaredSpec? before said with
    | none =>
      rw [hs] at hentry
      cases hentry
    | some spec =>
      rw [hs] at hentry
      exact .inr (target_declaredSpec? hsaid hs hentry)

end SchemaEntry

/-! ### Every member preserves the invariant -/

namespace ModelSchema

variable {known : List String} {s s' : ModelSchema}

theorem WellFormed.declare (h : s.WellFormed known) {name type : String} {said : PropertyMetadata}
    {target : Option String} (hsaid : said.spec.target = none)
    (htarget : ∀ t, target = some t → t ∈ known) :
    (s.declare name type said target).WellFormed known := by
  have hspec : ∀ spec, said.spec? = some spec → spec.target = none :=
    fun spec hs => PropertyMetadata.target_of_spec? hsaid hs
  have hproto : (s.declare name type said target).prototype = KeyMap.insert s.prototype name
      (SchemaEntry.declared (KeyMap.get? s.prototype name) said.spec? target
        (TypeName.splitPlural type).1 (TypeName.splitPlural type).2) := rfl
  have hrefs : (s.declare name type said target).references = KeyMap.set s.references name
      (target.map fun t => { target := t, reverse := said.reverse }) := rfl
  have hprops : (s.declare name type said target).properties =
      if target.isSome then without s.properties name else pushNew s.properties name := rfl
  constructor
  · rw [hprops, hrefs, KeyMap.contains, KeyMap.get?_set]
    by_cases hn : name = idField
    · subst hn
      cases target with
      | some t => exact .inr (by simp)
      | none =>
        left
        simp only [Option.isSome_none, Bool.false_eq_true, if_false, pushNew]
        split
        · rename_i hc
          exact List.contains_iff_mem.mp hc
        · simp
    · rcases h.listed with hp | hr
      · left
        split
        · exact List.mem_filter.mpr ⟨hp, by simpa using Ne.symm hn⟩
        · unfold pushNew
          split
          · exact hp
          · exact List.mem_append_left _ hp
      · right
        rw [if_neg hn]
        exact hr
  · rw [hproto, KeyMap.contains_insert]
    simp [h.identified]
  · intro field info hget
    rw [hrefs, KeyMap.get?_set] at hget
    rw [hproto, KeyMap.get?_insert]
    split at hget
    · rename_i hn
      rw [if_pos hn]
      obtain ⟨t, rfl, -⟩ := Option.map_eq_some_iff.mp hget
      exact ⟨_, t, rfl, SchemaEntry.target?_declared_some ..⟩
    · rename_i hn
      rw [if_neg hn]
      exact h.referenced field info hget
  · intro field entry t hget ht
    rw [hproto, KeyMap.get?_insert] at hget
    split at hget
    · cases hget
      rcases SchemaEntry.target?_declared hspec ht with ht | ⟨entry, hentry, ht⟩
      · exact htarget t ht
      · exact h.targets name entry t hentry ht
    · exact h.targets field entry t hget ht

theorem WellFormed.addProperty {ctx : TypeContext} (h : s.WellFormed known)
    (hctx : ∀ type t, ctx.collection? type = some t → t ∈ known) {c : ClassDecl}
    {p : PropertyDecl} (hp : s.addProperty ctx c p = .ok s') : s'.WellFormed known := by
  unfold ModelSchema.addProperty at hp
  split at hp
  · obtain ⟨target, htarget, hp⟩ := andThen_eq_ok_iff.mp hp
    obtain ⟨said, hsaid, hp⟩ := andThen_eq_ok_iff.mp hp
    cases hp
    refine h.declare (propertyMetadata_target hsaid) fun t ht => ?_
    subst ht
    unfold PropertyDecl.target? at htarget
    dsimp only at htarget
    split at htarget
    · cases htarget
    · split at htarget
      · rename_i hc
        cases htarget
        exact hctx _ t hc
      · cases htarget
  · cases hp
    exact h

theorem WellFormed.addMethod (h : s.WellFormed known) {cls : ModelClass} {m : MethodDecl}
    (hm : s.addMethod cls m = .ok s') : s'.WellFormed known := by
  unfold ModelSchema.addMethod at hm
  obtain ⟨role, -, hm⟩ := andThen_eq_ok_iff.mp hm
  have hsame : s'.prototype = s.prototype ∧ s'.properties = s.properties ∧
      s'.references = s.references := by
    cases role with
    | hook name =>
      dsimp only at hm
      split at hm <;> cases hm <;> exact ⟨rfl, rfl, rfl⟩
    | route verb path =>
      dsimp only at hm
      split at hm <;> cases hm <;> exact ⟨rfl, rfl, rfl⟩
    | plain =>
      dsimp only at hm
      split at hm
      · cases hm
        exact ⟨rfl, rfl, rfl⟩
      · split at hm <;> cases hm <;> exact ⟨rfl, rfl, rfl⟩
  obtain ⟨hproto, hprops, hrefs⟩ := hsame
  exact ⟨by rw [hprops, hrefs]; exact h.listed, by rw [hproto]; exact h.identified,
    by rw [hproto, hrefs]; exact h.referenced, by rw [hproto]; exact h.targets⟩

theorem wellFormed_initial (known : List String) : initial.WellFormed known where
  listed := .inl (by decide)
  identified := by decide
  referenced name info h := by cases h
  targets name entry target hget ht := by
    have hall : ∀ p ∈ initial.prototype, p.2.target? = none := by decide
    have hmem := KeyMap.mem_of_get? hget
    rw [hall _ hmem] at ht
    cases ht

/-- **The schema of every class is well-formed**, if names of types stand for known collections. -/
theorem wellFormed_ofClass {classes : KeyMap ClassDecl} {ctx : TypeContext}
    (hctx : ∀ type t, ctx.collection? type = some t → t ∈ known) {cls : ModelClass} {c : ClassDecl}
    (h : ofClass classes ctx cls c = .ok s) : s.WellFormed known := by
  unfold ofClass at h
  obtain ⟨lineage, -, h⟩ := andThen_eq_ok_iff.mp h
  refine foldlM_preserves (WellFormed known) (fun s c s' hs hadd => ?_) (wellFormed_initial known) h
  refine foldlM_preserves (WellFormed known) (fun s m s' hs hadd => ?_) hs hadd
  cases m with
  | property p => exact hs.addProperty hctx hadd
  | method m => exact hs.addMethod hadd

end ModelSchema

/-! ### Fields -/

/-- A field has its name, and all but its visibility is said by its entry. -/
theorem Field.resolve_eq_ok {model name : String} {entry : SchemaEntry}
    {reference : Option ReferenceInfo} {predicates : KeyMap (Object → Bool)} {field : Field}
    (h : resolve model name entry reference predicates = .ok field) :
    field.name = name ∧ ∃ visibility,
      field = { ofEntry name entry reference with visibility := visibility } := by
  unfold resolve at h
  split at h
  · split at h
    · cases h
      exact ⟨rfl, _, rfl⟩
    · cases h
  · cases h
    exact ⟨rfl, _, rfl⟩

namespace Factory

variable {f : Factory} {schema : ModelSchema} {fields : List Field}

theorem resolveFields_eq_ok_iff : f.resolveFields schema = .ok fields ↔
    ∃ os, List.Forall₂ (fun name o => f.resolveField? schema name = .ok o) schema.fieldNames os ∧
      os.filterMap id = fields := by
  unfold resolveFields
  rw [← exists_congr fun os => and_congr_left' (mapM_eq_ok_iff (f.resolveField? schema) _ os)]
  exact map_eq_ok_iff

theorem resolveField?_eq_some_iff {name : String} {field : Field} :
    f.resolveField? schema name = .ok (some field) ↔
      ∃ entry, KeyMap.get? schema.prototype name = some entry ∧
        Field.resolve f.name name entry (KeyMap.get? schema.references name) f.cls.predicates =
          .ok field := by
  unfold resolveField?
  cases KeyMap.get? schema.prototype name with
  | none => simp
  | some entry =>
    simp only [Option.some.injEq, exists_eq_left']
    refine map_eq_ok_iff.trans ?_
    simp

/-- A field is that of an entry of the schema. -/
theorem resolve_of_mem (h : f.resolveFields schema = .ok fields) {field : Field}
    (hf : field ∈ fields) : ∃ entry, KeyMap.get? schema.prototype field.name = some entry ∧
      Field.resolve f.name field.name entry (KeyMap.get? schema.references field.name)
        f.cls.predicates = .ok field := by
  obtain ⟨os, hos, rfl⟩ := resolveFields_eq_ok_iff.mp h
  obtain ⟨o, ho, hid⟩ := List.mem_filterMap.mp hf
  have hid : o = some field := hid
  subst hid
  obtain ⟨name, -, hr⟩ := exists_left_of_forall₂ hos ho
  obtain ⟨entry, hentry, hr⟩ := resolveField?_eq_some_iff.mp hr
  have hname := (Field.resolve_eq_ok hr).1
  subst hname
  exact ⟨entry, hentry, hr⟩

/-- A field comes from an entry of the schema, and all but its visibility is said there. -/
theorem mem_resolveFields (h : f.resolveFields schema = .ok fields) {field : Field}
    (hf : field ∈ fields) : ∃ entry visibility,
      KeyMap.get? schema.prototype field.name = some entry ∧
      field = { Field.ofEntry field.name entry (KeyMap.get? schema.references field.name) with
        visibility := visibility } := by
  obtain ⟨entry, hentry, hr⟩ := resolve_of_mem h hf
  obtain ⟨-, visibility, hfield⟩ := Field.resolve_eq_ok hr
  exact ⟨entry, visibility, hentry, hfield⟩

/-- The names of the fields are those of the schema that have entries, in order. -/
theorem names_sublist (h : f.resolveFields schema = .ok fields) :
    (fields.map Field.name).Sublist schema.fieldNames := by
  obtain ⟨os, hos, rfl⟩ := resolveFields_eq_ok_iff.mp h
  have hsub := filterMap_map_sublist (f := fun name : String => name) (g := Field.name)
    (hos.imp fun name o hr field ho => by
      subst ho
      obtain ⟨entry, -, hr⟩ := resolveField?_eq_some_iff.mp hr
      exact (Field.resolve_eq_ok hr).1)
  rwa [List.map_id'] at hsub

/-- A name that is listed and has an entry has a field. -/
theorem exists_resolveFields (h : f.resolveFields schema = .ok fields) {name : String}
    (hn : name ∈ schema.fieldNames) (he : KeyMap.contains schema.prototype name = true) :
    ∃ field ∈ fields, field.name = name := by
  obtain ⟨os, hos, rfl⟩ := resolveFields_eq_ok_iff.mp h
  obtain ⟨o, ho, hr⟩ := exists_right_of_forall₂ hos hn
  obtain ⟨entry, hentry⟩ := Option.isSome_iff_exists.mp he
  unfold resolveField? at hr
  rw [hentry] at hr
  obtain ⟨field, hfield, he⟩ := map_eq_ok_iff.mp hr
  exact ⟨field, List.mem_filterMap.mpr ⟨some field, he ▸ ho, rfl⟩, (Field.resolve_eq_ok hfield).1⟩

end Factory

namespace ModelSchema.WellFormed

variable {known : List String} {s : ModelSchema}

theorem idField_mem (h : s.WellFormed known) : idField ∈ s.fieldNames := by
  rcases h.listed with hp | hr
  · exact List.mem_append_left _ hp
  · obtain ⟨info, hget⟩ := Option.isSome_iff_exists.mp hr
    exact List.mem_append_right _ (List.mem_map_of_mem (KeyMap.mem_of_get? hget))

/-- What a field refers to is known. -/
theorem exists_target (h : s.WellFormed known) {name : String} {entry : SchemaEntry}
    {visibility : FieldVisibility} (hget : KeyMap.get? s.prototype name = some entry)
    (hr : { Field.ofEntry name entry (KeyMap.get? s.references name) with
      visibility := visibility }.isReference = true) :
    ∃ target ∈ known, entry.target? = some target := by
  have hsome : (((KeyMap.get? s.references name).map ReferenceInfo.target).or
      (entry.spec?.getD {}).target).isSome = true := hr
  have htarget : ∃ target, entry.target? = some target := by
    cases hi : KeyMap.get? s.references name with
    | some info =>
      obtain ⟨entry', target, hget', ht⟩ := h.referenced name info hi
      rw [hget] at hget'
      cases hget'
      exact ⟨target, ht⟩
    | none =>
      rw [hi] at hsome
      unfold SchemaEntry.target?
      cases hs : entry.spec? with
      | none =>
        rw [hs] at hsome
        cases hsome
      | some spec =>
        rw [hs] at hsome
        exact Option.isSome_iff_exists.mp hsome
  obtain ⟨target, ht⟩ := htarget
  exact ⟨target, h.targets name entry target hget ht, ht⟩

end ModelSchema.WellFormed

end ModelRest
