import ModelRest.Proofs.Acceptance
import ModelRest.Proofs.Consistency
import ModelRest.Proofs.CustomDecorators

/-!
# What a model inherits

A field may be declared several times on the way down to a model, and the fields that every model has
are there before all declarations. Each declaration takes the entry that it finds out of its array,
merges what its decorators say into the metadata, then the type, and puts the entry into an array
again. What this comes to does not mention the steps: `ModelSchema.Merges` says it of all declarations
of a name at once, and `merges_of_compile` that it holds of every compiled model that is not linked.

The step is `SchemaEntry.Gathers.declare`. It rests on `untyped_metadata_declared`: but for type and
target, the metadata of an entry after a declaration is the metadata before merged with what the
declaration says, whatever forms the entries have.
-/

namespace ModelRest

/-! ### Declarations -/

/-- The property that a member declares, if it is data. -/
def MemberDecl.data? : MemberDecl → Option PropertyDecl
  | .property p => if p.isData then some p else none
  | .method _ => none

/-- The properties that several classes declare, in order. -/
def ClassDecl.dataOf (lineage : List ClassDecl) : List PropertyDecl :=
  (membersOf lineage).filterMap fun p => p.2.data?

/-- The declaration of data is that of the property. -/
structure PropertyDecl.Declares (p : PropertyDecl) (d : Declared) : Prop where
  /-- The name is the property's. -/
  name : d.name = p.name
  /-- The type is the property's. -/
  type : d.type = p.type
  /-- The metadata is what the property's decorators say. -/
  said : propertyMetadata p.decorators = .ok d.said
  /-- It refers to a model exactly if the type of one value is not native. -/
  refers : d.target.isSome = !TypeName.isNative d.element

/-- What the metadata says of tags and of unknown decorators is what the decorators of the property
say. -/
theorem PropertyDecl.Declares.says {p : PropertyDecl} {d : Declared} (h : p.Declares d) :
    PropertyMetadata.Says p.decorators d.said :=
  PropertyMetadata.says_of_propertyMetadata h.said

namespace Declared

/-- The fields that every model has, as if they were declared. -/
def implicit : List Declared :=
  [{ name := idField, type := "string", said := { spec := { readOnly := true } }, target := none },
    { name := createdAtField, type := "Date", said := { spec := { readOnly := true } },
      target := none },
    { name := updatedAtField, type := "Date", said := {}, target := none }]

/-- The fields that every model has, and then the declarations. -/
def visited (ds : List Declared) : List Declared := implicit ++ ds

/-- The declarations of a name. -/
def of (ds : List Declared) (name : String) : List Declared :=
  (visited ds).filter fun d => d.name = name

/-- The type of one value as an entry has it: a reference is kept as a text. -/
def token (d : Declared) : String := if d.target.isSome then "string" else d.element

/-- The declaration says no more than a native type. -/
def IsPlain (d : Declared) : Prop := d.said.spec? = none ∧ d.target = none

theorem of_append_singleton (ds : List Declared) (d : Declared) (name : String) :
    of (ds ++ [d]) name = if d.name = name then of ds name ++ [d] else of ds name := by
  unfold of visited
  rw [← List.append_assoc, List.filter_append]
  by_cases h : d.name = name <;> simp [h]

theorem name_of_mem {ds : List Declared} {d : Declared} {name : String} (h : d ∈ of ds name) :
    d.name = name := by
  simpa using (List.mem_filter.mp h).2

theorem of_eq_nil_iff {ds : List Declared} {name : String} :
    of ds name = [] ↔ name ∉ (visited ds).map Declared.name := by
  simp [of, List.filter_eq_nil_iff]

end Declared

/-- What a member contributes is the declaration of the property that it declares. -/
theorem MemberDecl.declares_of_contribution {ctx : TypeContext} {cls : ModelClass} {c : ClassDecl}
    {m : MemberDecl} {x : Contribution} (h : m.contribution ctx cls c = .ok x) :
    Option.Rel PropertyDecl.Declares m.data? x.data? := by
  cases m with
  | property p =>
    unfold contribution PropertyDecl.contribution at h
    unfold data?
    dsimp only at h ⊢
    split at h
    · rename_i hdata
      obtain ⟨target, htarget, h⟩ := andThen_eq_ok_iff.mp h
      obtain ⟨said, hsaid, h⟩ := andThen_eq_ok_iff.mp h
      cases h
      rw [if_pos hdata]
      refine .some ⟨rfl, rfl, hsaid, ?_⟩
      unfold PropertyDecl.target? at htarget
      dsimp only at htarget
      show target.isSome = !TypeName.isNative (TypeName.splitPlural p.type).1
      split at htarget
      · rename_i hnative
        cases htarget
        rw [hnative]
        rfl
      · rename_i hnative
        rw [Bool.eq_false_iff.mpr hnative]
        split at htarget
        · cases htarget
          rfl
        · cases htarget
    · rename_i hdata
      cases h
      rw [if_neg hdata]
      exact .none
  | method m =>
    obtain ⟨role, -, rfl⟩ := map_eq_ok_iff.mp h
    have hnone : (m.contributionAs cls role).data? = none := by
      unfold MethodDecl.contributionAs
      cases role with
      | hook hook =>
        dsimp only
        split <;> rfl
      | route verb path =>
        dsimp only
        split <;> rfl
      | plain =>
        dsimp only
        split
        · rfl
        · split <;> rfl
    rw [hnone]
    exact .none

/-- The declarations of a schema are those of the classes met on the way up, from the root down. -/
theorem ModelSchema.IsOf.exists_ascends {classes : KeyMap ClassDecl} {ctx : TypeContext}
    {cls : ModelClass} {c : ClassDecl} {ds : List Declared} {s : ModelSchema}
    (h : s.IsOf classes ctx cls c ds) : ∃ way, c.Ascends classes way none ∧
      List.Forall₂ PropertyDecl.Declares (ClassDecl.dataOf (c :: way).reverse) ds := by
  obtain ⟨cs, hcs, rfl⟩ := map_eq_ok_iff.mp h.declared
  obtain ⟨lineage, hlineage, hcs⟩ := andThen_eq_ok_iff.mp hcs
  obtain ⟨way, ha, rfl, -⟩ := ClassDecl.exists_ascends_of_lineageAmong hlineage
  have hrel : ∀ (p : ClassDecl × MemberDecl) (x : Contribution),
      p.2.contribution ctx cls p.1 = .ok x → Option.Rel PropertyDecl.Declares p.2.data? x.data? :=
    fun _ _ => MemberDecl.declares_of_contribution
  exact ⟨way, ha, forall₂_filterMap hrel ((mapM_eq_ok_iff _ _ _).mp hcs)⟩

/-! ### Metadata put together -/

namespace FieldSpec

/-- The flags. -/
def switches : List (FieldSpec → Bool) :=
  [FieldSpec.required, FieldSpec.unique, FieldSpec.index, FieldSpec.immutable, FieldSpec.readOnly,
    FieldSpec.insertOnly, FieldSpec.embedded]

/-- The metadata without type and target. -/
def untyped (s : FieldSpec) : FieldSpec := { s with type := none, target := none }

/-- The metadata is what the declarations say altogether, type and target aside. -/
structure Collects (s : FieldSpec) (ds : List Declared) : Prop where
  /-- A flag is set if one of the declarations sets it. -/
  flags : ∀ flag ∈ switches, flag s = ds.any fun d => flag d.said.spec
  /-- The last declaration that says who may see the field counts. -/
  invisible : s.invisible = ds.reverse.findSome? fun d => d.said.spec.invisible
  /-- The last declaration that lists values counts. -/
  allowed : s.allowed = ds.reverse.findSome? fun d => d.said.spec.allowed
  /-- What an unknown decorator says is what it says at the last declaration that has it. -/
  extra : ∀ key, KeyMap.get? s.extra key =
    ds.reverse.findSome? fun d => KeyMap.get? d.said.spec.extra key

section Merge

variable (s later : FieldSpec)

theorem isEmpty_iff : s.isEmpty = true ↔ s = {} := by
  constructor
  · intro h
    cases s
    simp only [isEmpty, Bool.and_eq_true, Bool.not_eq_true', Option.isNone_iff_eq_none,
      List.isEmpty_iff] at h
    simp [h]
  · rintro rfl
    rfl

@[simp] theorem merge_empty : s.merge {} = s := by
  cases s
  simp [merge, KeyMap.union]

@[simp] theorem empty_merge : merge {} s = s := by
  have hextra : KeyMap.union [] s.extra = s.extra :=
    (KeyMap.sorted_nil.union _).eq_of_get? s.extra_sorted fun key => by
      rw [KeyMap.get?_union _ s.extra_sorted]
      exact Option.or_none
  cases s
  simp only [merge] at hextra ⊢
  simp [hextra]

theorem untyped_merge : (s.merge later).untyped = s.untyped.merge later.untyped := rfl

theorem untyped_merge_typed (type : String) : (s.merge (typed type)).untyped = s.untyped := by
  rw [untyped_merge]
  exact merge_empty _

theorem untyped_merge_reference (target : String) :
    (s.merge (reference target)).untyped = s.untyped := by
  rw [untyped_merge]
  exact merge_empty _

end Merge

/-- The flag is not set at first, stays set once it is, and has nothing to do with the type. -/
structure IsSwitch (flag : FieldSpec → Bool) : Prop where
  /-- Empty metadata does not set it. -/
  empty : flag {} = false
  /-- Without type and target it is the same. -/
  untyped : ∀ s : FieldSpec, flag s.untyped = flag s
  /-- Merged metadata sets it if one of both does. -/
  merge : ∀ s later : FieldSpec, flag (s.merge later) = (flag s || flag later)

theorem isSwitch_of_mem {flag : FieldSpec → Bool} (h : flag ∈ switches) : IsSwitch flag := by
  simp only [switches, List.mem_cons, List.not_mem_nil, or_false] at h
  rcases h with rfl | rfl | rfl | rfl | rfl | rfl | rfl <;>
    exact ⟨rfl, fun _ => rfl, fun _ _ => rfl⟩

theorem collects_nil : Collects {} [] where
  flags _ h := (isSwitch_of_mem h).empty
  invisible := rfl
  allowed := rfl
  extra _ := rfl

/-- Of what is picked from the end, that of the last one goes first. -/
theorem findSome?_reverse_concat {α β : Type} (f : α → Option β) (xs : List α) (x : α) :
    (xs ++ [x]).reverse.findSome? f = (f x).or (xs.reverse.findSome? f) := by
  rw [List.reverse_append, List.reverse_singleton, List.singleton_append, List.findSome?_cons]
  cases f x <;> rfl

/-- One more declaration is merged. -/
theorem Collects.append {s s' : FieldSpec} {ds : List Declared} (h : s.Collects ds) {d : Declared}
    (hs : s'.untyped = (s.merge d.said.spec).untyped) : s'.Collects (ds ++ [d]) where
  flags flag hmem := by
    have hflag := isSwitch_of_mem hmem
    rw [← hflag.untyped s', hs, hflag.untyped, hflag.merge, h.flags flag hmem, List.any_append,
      List.any_cons, List.any_nil, Bool.or_false]
  invisible := by
    have hpart : s'.invisible = d.said.spec.invisible.or s.invisible :=
      congrArg FieldSpec.invisible hs
    rw [hpart, h.invisible, findSome?_reverse_concat]
  allowed := by
    have hpart : s'.allowed = d.said.spec.allowed.or s.allowed := congrArg FieldSpec.allowed hs
    rw [hpart, h.allowed, findSome?_reverse_concat]
  extra key := by
    have hpart : s'.extra = KeyMap.union s.extra d.said.spec.extra := congrArg FieldSpec.extra hs
    rw [hpart, KeyMap.get?_union _ d.said.spec.extra_sorted, h.extra, findSome?_reverse_concat]

end FieldSpec

/-! ### Entries put together -/

namespace SchemaEntry

/-- The metadata of one value, which says nothing if there is none. -/
def metadata (e : SchemaEntry) : FieldSpec := e.spec?.getD {}

/-- One value has a type and no metadata. -/
def IsBare (e : SchemaEntry) : Prop := ∃ type, e.element = .bare type

/-- The entry is what the declarations of its name say altogether. -/
structure Gathers (e : SchemaEntry) (ds : List Declared) : Prop where
  /-- The metadata is collected from all of them. -/
  metadata : e.metadata.Collects ds
  /-- The type of one value, and whether there are several, is said by the last one. -/
  last : ∃ d, ds.getLast? = some d ∧ e.type? = some d.token ∧ e.isPlural = d.isPlural
  /-- There is no array of arrays. -/
  flat : e.IsFlat

/-- What is said about one value does not change in an array. -/
theorem element_toPlural (e : SchemaEntry) : e.toPlural.element = e.element := by
  cases e <;> rfl

/-- What an entry says about one value is what it says without the outermost array. -/
theorem IsFlat.element_eq {e : SchemaEntry} (h : e.IsFlat) : e.element = e.unwrap := by
  cases e with
  | bare type => rfl
  | field spec => rfl
  | plural inner =>
    cases inner with
    | plural _ => cases h
    | bare type => rfl
    | field spec => rfl

section Declare

variable {before : Option SchemaEntry} (said : PropertyMetadata) (target : Option String)
  (element : String) (plural : Bool)

theorem element_declared : (declared before said.spec? target element plural).element =
    declaredElement before said.spec? target element := by
  have hflat : (declaredElement before said.spec? target element).element =
      declaredElement before said.spec? target element := by
    unfold declaredElement
    cases declaredSpec? before said.spec? <;> cases target <;> rfl
  unfold declared
  cases plural with
  | false => exact hflat
  | true => exact (element_toPlural _).trans hflat

/-- A declaration finds the metadata before and merges what it says itself. -/
theorem getD_declaredSpec? (hflat : ∀ e, before = some e → e.IsFlat) :
    (declaredSpec? before said.spec?).getD {} =
      (before.elim {} SchemaEntry.metadata).merge said.spec := by
  have hsaid : said.spec?.getD {} = said.spec := by
    unfold PropertyMetadata.spec?
    split
    · rename_i h
      rw [(FieldSpec.isEmpty_iff _).mp h]
      rfl
    · rfl
  cases before with
  | none =>
    rw [Option.elim_none, FieldSpec.empty_merge]
    exact hsaid
  | some e =>
    rw [Option.elim_some]
    unfold declaredSpec? metadata spec?
    rw [(hflat e rfl).element_eq, Option.map_some]
    cases e.unwrap with
    | field spec =>
      rw [Option.getD_some, ← hsaid]
      cases said.spec? with
      | none => exact (FieldSpec.merge_empty spec).symm
      | some spec' => rfl
    | bare type =>
      rw [Option.getD_none, FieldSpec.empty_merge]
      exact hsaid
    | plural inner =>
      rw [Option.getD_none, FieldSpec.empty_merge]
      exact hsaid

/-- Type and target aside, a declaration merges what its decorators say. -/
theorem untyped_metadata_declared (hflat : ∀ e, before = some e → e.IsFlat) :
    (declared before said.spec? target element plural).metadata.untyped =
      ((before.elim {} SchemaEntry.metadata).merge said.spec).untyped := by
  rw [← getD_declaredSpec? said hflat]
  unfold metadata spec?
  rw [element_declared]
  unfold declaredElement
  cases declaredSpec? before said.spec? with
  | none => cases target <;> rfl
  | some spec =>
    cases target with
    | none => exact FieldSpec.untyped_merge_typed spec element
    | some target => exact FieldSpec.untyped_merge_reference spec target

/-- The type of one value is the declared one, and that of an identifier for a reference. -/
theorem type?_declared : (declared before said.spec? target element plural).type? =
    some (if target.isSome then "string" else element) := by
  unfold type?
  rw [element_declared]
  unfold declaredElement
  cases declaredSpec? before said.spec? <;> cases target <;> rfl

/-- An entry is bare if it was, and the declaration says no more than a type. -/
theorem isBare_declared_iff (hflat : ∀ e, before = some e → e.IsFlat) :
    (declared before said.spec? target element plural).IsBare ↔
      (∀ e, before = some e → e.IsBare) ∧ said.spec? = none ∧ target = none := by
  unfold IsBare
  rw [element_declared]
  have hspec : declaredSpec? before said.spec? = none ↔
      (∀ e, before = some e → ∃ type, e.element = .bare type) ∧ said.spec? = none := by
    unfold declaredSpec?
    cases before with
    | none => simp
    | some e =>
      have hflat := hflat e rfl
      rw [Option.map_some]
      simp only [Option.some.injEq, forall_eq', hflat.element_eq]
      unfold IsFlat at hflat
      cases he : e.unwrap with
      | field spec => cases said.spec? <;> simp
      | bare type => simp
      | plural inner =>
        rw [he] at hflat
        cases hflat
  rw [← and_assoc, ← hspec]
  unfold declaredElement
  cases declaredSpec? before said.spec? <;> cases target <;> simp

end Declare

/-- **One more declaration**: what it finds is put together with what it says. -/
theorem Gathers.declare {before : Option SchemaEntry} {ds : List Declared}
    (hflat : ∀ e, before = some e → e.IsFlat)
    (h : (before.elim {} SchemaEntry.metadata).Collects ds) (d : Declared) :
    (declared before d.said.spec? d.target d.element d.isPlural).Gathers (ds ++ [d]) where
  metadata := h.append (untyped_metadata_declared _ _ _ _ hflat)
  last := ⟨d, List.getLast?_concat, type?_declared .., isPlural_declared ..⟩
  flat := isFlat_declared ..

end SchemaEntry

/-! ### Schemas put together -/

namespace ModelSchema

/-- The entries of the schema are what the fields of every model and the declarations come to. -/
structure Merges (s : ModelSchema) (ds : List Declared) : Prop where
  /-- The names with an entry are those that are declared. -/
  names : ∀ name, name ∈ KeyMap.keys s.prototype ↔ name ∈ (Declared.visited ds).map Declared.name
  /-- An entry is what the declarations of its name say altogether. -/
  entries : ∀ name e, KeyMap.get? s.prototype name = some e → e.Gathers (Declared.of ds name)
  /-- An entry is bare exactly if every declaration of its name is plain, and not every model has
  the field. -/
  bare : ∀ name e, KeyMap.get? s.prototype name = some e →
    (e.IsBare ↔ name ∉ Declared.implicit.map Declared.name ∧ ∀ d ∈ Declared.of ds name, d.IsPlain)

section Declarations

open Declared (of implicit visited)

variable (ds : List Declared) (name : String)

/-- An initial entry is what a declaration of the field makes of empty metadata. -/
theorem gathers_initial : match KeyMap.get? initial.prototype name with
    | none => of [] name = []
    | some e => e.Gathers (of [] name) := by
  have hmade : ∀ d ∈ implicit, of [] d.name = [d] ∧ KeyMap.get? initial.prototype d.name =
      some (.declared (some (.field {})) d.said.spec? d.target d.element d.isPlural) := by decide
  cases hget : KeyMap.get? initial.prototype name with
  | none =>
    refine Declared.of_eq_nil_iff.mpr fun hmem => ?_
    obtain ⟨d, hd, rfl⟩ := List.mem_map.mp hmem
    rw [(hmade d (by simpa [visited] using hd)).2] at hget
    cases hget
  | some e =>
    have hmem : ∀ p ∈ initial.prototype, p.1 ∈ implicit.map Declared.name := by decide
    obtain ⟨d, hd, rfl⟩ := List.mem_map.mp (hmem _ (KeyMap.mem_of_get? hget))
    obtain ⟨hof, hentry⟩ := hmade d hd
    rw [hentry] at hget
    cases hget
    rw [hof]
    have hflat : ∀ e, some (SchemaEntry.field {}) = some e → e.IsFlat := fun e he => by
      cases he
      rfl
    exact .declare hflat FieldSpec.collects_nil d

/-- The entry of a name is what all its declarations say; a name that is not declared has none. -/
theorem gathers_ofDeclared : match KeyMap.get? (ofDeclared ds).prototype name with
    | none => of ds name = []
    | some e => e.Gathers (of ds name) := by
  induction ds using List.reverseRecOn with
  | nil => exact gathers_initial name
  | append_singleton ds d ih =>
    rw [get?_prototype_append, Declared.of_append_singleton]
    by_cases hn : d.name = name
    · rw [if_pos hn, if_pos hn]
      refine SchemaEntry.Gathers.declare (fun e => isFlat_of_get?) ?_ d
      cases hget : KeyMap.get? (ofDeclared ds).prototype name with
      | none =>
        rw [hget] at ih
        rw [ih]
        exact FieldSpec.collects_nil
      | some e =>
        rw [hget] at ih
        exact ih.metadata
    · rw [if_neg hn, if_neg hn]
      exact ih

variable {ds name}

/-- No entry is bare but those of fields that are declared with a type only. -/
theorem isBare_of_get?_iff {e : SchemaEntry}
    (h : KeyMap.get? (ofDeclared ds).prototype name = some e) : e.IsBare ↔
      name ∉ implicit.map Declared.name ∧ ∀ d ∈ of ds name, d.IsPlain := by
  induction ds using List.reverseRecOn generalizing e with
  | nil =>
    have hinitial : ∀ p ∈ initial.prototype,
        p.1 ∈ implicit.map Declared.name ∧ p.2.element = .field p.2.metadata := by decide
    obtain ⟨himplicit, hfield⟩ := hinitial _ (KeyMap.mem_of_get? h)
    refine iff_of_false ?_ fun hnot => hnot.1 himplicit
    rintro ⟨type, ht⟩
    cases ht.symm.trans hfield
  | append_singleton ds d ih =>
    rw [get?_prototype_append] at h
    rw [Declared.of_append_singleton]
    split at h
    · rename_i hn
      cases h
      rw [if_pos hn, SchemaEntry.isBare_declared_iff _ _ _ _ fun e => isFlat_of_get?,
        List.forall_mem_append, List.forall_mem_singleton]
      refine Iff.trans (and_congr_left' ?_) and_assoc
      cases hget : KeyMap.get? (ofDeclared ds).prototype name with
      | none =>
        -- the name was not declared before, and is no field of every model
        have hof := gathers_ofDeclared ds name
        rw [hget] at hof
        have himplicit : name ∉ implicit.map Declared.name := fun hmem =>
          Declared.of_eq_nil_iff.mp hof (List.map_append ▸ List.mem_append_left _ hmem)
        simp [hof, himplicit]
      | some e => simpa using ih hget
    · rename_i hn
      rw [if_neg hn]
      exact ih h

/-- **What declarations come to.** -/
theorem merges_ofDeclared (ds : List Declared) : (ofDeclared ds).Merges ds where
  names name := by
    have hof := gathers_ofDeclared ds name
    rw [KeyMap.mem_keys_iff, KeyMap.contains]
    cases hget : KeyMap.get? (ofDeclared ds).prototype name with
    | none =>
      rw [hget] at hof
      simpa using Declared.of_eq_nil_iff.mp hof
    | some e =>
      rw [hget] at hof
      obtain ⟨d, hd, -⟩ := hof.last
      have hmem : d ∈ of ds name := List.mem_of_getLast? hd
      refine iff_of_true rfl ?_
      rw [← Declared.name_of_mem hmem]
      exact List.mem_map_of_mem (List.mem_filter.mp hmem).1
  entries name e he := by
    have hof := gathers_ofDeclared ds name
    rw [he] at hof
    exact hof
  bare name e := isBare_of_get?_iff

end Declarations

/-- The entries of the schema of a class are what its declarations come to. -/
theorem IsOf.merges {classes : KeyMap ClassDecl} {ctx : TypeContext} {cls : ModelClass}
    {c : ClassDecl} {ds : List Declared} {s : ModelSchema} (h : s.IsOf classes ctx cls c ds) :
    s.Merges ds := by
  have hm := merges_ofDeclared ds
  rw [← h.fieldPart_eq] at hm
  exact ⟨hm.names, hm.entries, hm.bare⟩

end ModelSchema

/-! ### Compiled models -/

/-- A marked model has a draft if all models have. -/
theorem Draft.exists_isOf {connectors : Connectors} {defaultDatasource : String}
    {loaded : LoadedSources} {ds : List Draft}
    (h : ofModels connectors defaultDatasource loaded.models = .ok ds) {k : MarkedModel}
    (hk : k ∈ loaded.marked) : ∃ d ∈ ds, d.IsOf connectors defaultDatasource k := by
  obtain ⟨os, hos, rfl⟩ := map_eq_ok_iff.mp h
  obtain ⟨m, hm, hmarked⟩ := List.mem_filterMap.mp hk
  obtain ⟨o, ho, hdraft⟩ := exists_right_of_forall₂ ((mapM_eq_ok_iff _ _ _).mp hos) hm
  unfold LoadedModel.marked? at hmarked
  split at hmarked
  · rename_i said hsaid
    cases hmarked
    unfold ofModel? at hdraft
    rw [hsaid] at hdraft
    obtain ⟨f, hf, rfl⟩ := map_eq_ok_iff.mp hdraft
    exact ⟨_, List.mem_filterMap.mpr ⟨_, ho, rfl⟩, hf, rfl⟩
  · cases hmarked

/-- **What a model inherits.** Compiling gives every marked model that is not linked a factory with a
schema, whose entries are what the fields of every model and the declarations of the classes on the
way up, from the root down, come to. -/
theorem merges_of_compile {connectors : Connectors} {defaultDatasource : String}
    {loaded : LoadedSources} {r r' : Registry} {numbers : List Nat}
    (h : compile connectors defaultDatasource loaded r = .ok numbers r') {k : MarkedModel}
    (hk : k ∈ loaded.marked) (hl : k.said.linked = none) :
    ∃ number ∈ numbers, ∃ f s way ds, r'.made[number]? = some f ∧ f.name = k.said.collection ∧
      f.schema? = some s ∧ k.model.decl.Ascends loaded.classes way none ∧
      List.Forall₂ PropertyDecl.Declares (ClassDecl.dataOf (k.model.decl :: way).reverse) ds ∧
      s.Merges ds := by
  obtain ⟨drafts, hdrafts, -, fs, hfs, rfl, rfl⟩ := compile_eq_ok_iff.mp h
  obtain ⟨d, hd, hdraft⟩ := Draft.exists_isOf hdrafts hk
  obtain ⟨i, hi, rfl⟩ := List.getElem_of_mem hd
  have hif : i < fs.length := by rwa [← hfs.length_eq]
  have hfin := hfs.get hi hif
  rw [List.get_eq_getElem, List.get_eq_getElem] at hfin
  have hmade : (r.extend fs).made[r.made.length + i]? = some fs[i] :=
    (r.getElem?_made_extend fs i).trans (List.getElem?_eq_getElem hif)
  have hname : fs[i].name = k.said.collection := by
    rw [hfin.agrees]
    exact (Enrolled.factoryOf_agrees hdraft.factory).1
  have hlinked : fs[i].isLinked = false := by
    rw [hfin.agrees]
    exact hdraft.isLinked_eq_false_iff.mpr hl
  obtain ⟨s, hs⟩ := hfin.exists_schema?
  have hof := hfin.ofClass hs hlinked
  rw [hdraft.decl] at hof
  obtain ⟨ds, hds⟩ := ModelSchema.exists_isOf hof
  obtain ⟨way, ha, hdata⟩ := hds.exists_ascends
  exact ⟨r.made.length + i, List.mem_range'.mpr ⟨i, hi, by omega⟩, fs[i], s, way, ds, hmade, hname,
    hs, ha, hdata, hds.merges⟩

namespace Stock

/-- An item has a code, which is not written and hidden from some, a unique identifier, and a label. -/
def item : ClassDecl :=
  { ClassDecl.model "Item" with
    members := [.property { name := "code", type := "number", decorators :=
        [{ name := "readonly" }, { name := "invisible", args := [.string "secret"] }] },
      .property { name := "_id", type := "string", decorators := [{ name := "unique" }] },
      .property { name := "label", type := "string" }] }

/-- A product is an item with several required codes and a maker. -/
def product : ClassDecl :=
  { ClassDecl.model "Product" with
    superclass := some "Item"
    members := [.property { name := "code", type := "string[]", decorators :=
        [{ name := "required" }, { name := "printed", args := [.string "front"] }] },
      .property { name := "maker", type := "Maker" }] }

/-- A maker has a name. -/
def maker : ClassDecl :=
  { ClassDecl.model "Maker" with members := [.property { name := "name", type := "string" }] }

/-- The loaded models. -/
def loaded : LoadedSources where
  classes := [("Item", item), ("Maker", maker), ("Product", product)]
  models := [product, item, maker].map fun c =>
    { decl := c, cls := .plain c.name, source := "stock" }

/-- Where the models are stored. -/
def connectors : Connectors := [(memoryDatasource, .memory memoryDatasource 0)]

/-- The registry with the compiled models. -/
def registry : Registry := stateLeft (compile connectors memoryDatasource loaded {})

/-- Products, with what their mark says. -/
def products : MarkedModel where
  model := { decl := product, cls := .plain "Product", source := "stock" }
  said := { collection := "Product" }

theorem compiled : compile connectors memoryDatasource loaded {} = .ok [0, 1, 2] registry :=
  answer?_eq_some_iff.mp (by decide +kernel)

theorem products_marked : products ∈ loaded.marked := by
  have hsaid : classMetadata? product = .ok (some products.said) := by decide +kernel
  refine List.mem_filterMap.mpr ⟨products.model, List.mem_cons_self .., ?_⟩
  unfold LoadedModel.marked?
  rw [show products.model.decl = product from rfl, hsaid]

/-- The entries of products are what every model has, and what items and products declare. -/
theorem product_merges : ∃ number ∈ [0, 1, 2], ∃ f s way ds, registry.made[number]? = some f ∧
    f.name = "Product" ∧ f.schema? = some s ∧ product.Ascends loaded.classes way none ∧
    List.Forall₂ PropertyDecl.Declares (ClassDecl.dataOf (product :: way).reverse) ds ∧
    s.Merges ds :=
  merges_of_compile compiled products_marked rfl

-- the codes are hidden and not written as those of items are, and required and printed besides; the
-- identifier is unique and still not written; the label is bare
example : (registry.made[0]?.bind Factory.schema?).map (fun s => s.prototype) = some
    [("_createdAt", .field { type := some "Date", readOnly := true }),
      ("_id", .field { type := some "string", readOnly := true, unique := true }),
      ("_updatedAt", .field { type := some "Date" }),
      ("code", .plural (.field
        { type := some "string", readOnly := true, required := true,
          invisible := some (.predicate "secret"),
          extra := [("printed", .object [("arg0", .string "front")])],
          extra_sorted := List.pairwise_singleton .. })),
      ("label", .bare "string"),
      ("maker", .field { type := some "string", target := some "Maker" })] := by decide +kernel

end Stock

end ModelRest
