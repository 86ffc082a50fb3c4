import ModelRest.Proofs.Compilation
import ModelRest.Proofs.Declarations

/-!
# Schemas whose parts agree

A schema says several things about the same name: it has an entry, it is listed as a property or kept
as a reference, and it may be listed for several values. In a compiled schema these agree,
`ModelSchema.Consistent`, with one exception. The entry of a reference keeps its target when the name
is declared again with a native type, which takes the name out of the references; so entry and
references agree about the target of a name exactly if the name was not given up as a reference,
`refersTo_iff_of_ofClass`. `schemas_of_compile` says so for every schema that compiling gives to a
factory, be it linked or not.
-/

namespace ModelRest

/-- The name was declared as a reference, but last with a native type. -/
def Declared.GivenUp (ds : List Declared) (name : String) : Prop :=
  (∃ d, last? ds name = some d ∧ d.target = none) ∧
    ∃ d ∈ ds, d.name = name ∧ d.target.isSome = true

namespace ModelSchema

/-! ### Agreement -/

/-- The parts of the schema agree. -/
structure Consistent (s : ModelSchema) : Prop where
  /-- The entries are in order, one for each name. -/
  prototype_sorted : KeyMap.Sorted s.prototype
  /-- The references are in order, one for each name. -/
  references_sorted : KeyMap.Sorted s.references
  /-- No property is listed twice. -/
  properties_nodup : s.properties.Nodup
  /-- The names with an entry are the properties and the references. -/
  mem_keys_iff : ∀ name, name ∈ KeyMap.keys s.prototype ↔
    name ∈ s.properties ∨ name ∈ KeyMap.keys s.references
  /-- No property is a reference. -/
  disjoint : s.properties.Disjoint (KeyMap.keys s.references)
  /-- No name is listed twice for several values. -/
  plurals_nodup : s.plurals.Nodup
  /-- The names listed for several values are those whose entry is for several values. -/
  mem_plurals_iff : ∀ name, name ∈ s.plurals ↔
    ∃ e, KeyMap.get? s.prototype name = some e ∧ e.isPlural = true
  /-- No entry is an array of arrays. -/
  flat : ∀ name e, KeyMap.get? s.prototype name = some e → e.IsFlat

/-- The names of the fields are different. -/
theorem Consistent.fieldNames_nodup {s : ModelSchema} (h : s.Consistent) : s.fieldNames.Nodup :=
  List.nodup_append'.mpr ⟨h.properties_nodup, h.references_sorted.nodup_keys, h.disjoint⟩

/-- The entry of the name has a target exactly if the name is kept as a reference to it. -/
def RefersRight (s : ModelSchema) (name : String) : Prop := ∀ target,
  (∃ e, KeyMap.get? s.prototype name = some e ∧ e.target? = some target) ↔
    ∃ info, KeyMap.get? s.references name = some info ∧ info.target = target

section Declarations

open Declared (last? lastTarget? GivenUp)

variable {ds : List Declared} {name : String}

theorem mem_keys_references : name ∈ KeyMap.keys (ofDeclared ds).references ↔
    ∃ d, last? ds name = some d ∧ d.target.isSome = true := by
  rw [KeyMap.mem_keys_iff, KeyMap.contains, get?_references]
  cases last? ds name with
  | none => simp
  | some d => cases ht : d.target <;> simp [Declared.reference?, ht]

/-- What declarations say agrees. -/
theorem consistent_ofDeclared (ds : List Declared) : (ofDeclared ds).Consistent where
  prototype_sorted := sorted_prototype ds
  references_sorted := sorted_references ds
  properties_nodup := nodup_properties ds
  mem_keys_iff name := by
    rw [KeyMap.mem_keys_iff, contains_prototype, mem_properties_iff, mem_keys_references]
    cases last? ds name with
    | none =>
      have hinitial : KeyMap.contains initial.prototype name = true ↔ name ∈ initial.properties :=
        KeyMap.mem_keys_iff.symm.trans KeyMap.mem_keys_ofPairs
      simp [hinitial]
    | some d => cases ht : d.target <;> simp [ht]
  disjoint name hprop href := by
    obtain ⟨d, hlast, ht⟩ := mem_keys_references.mp href
    have hnone := (mem_properties_iff ds name).mp hprop
    rw [hlast] at hnone
    rw [hnone] at ht
    cases ht
  plurals_nodup := nodup_plurals ds
  mem_plurals_iff name := by
    rw [mem_plurals_iff]
    constructor
    · rintro ⟨d, hlast, hp⟩
      have hc := contains_prototype ds name
      rw [hlast, Option.isSome_some, Bool.true_or] at hc
      obtain ⟨e, he⟩ := Option.isSome_iff_exists.mp hc
      exact ⟨e, he, (isPlural_of_get? he).mpr ⟨d, hlast, hp⟩⟩
    · rintro ⟨e, he, hp⟩
      exact (isPlural_of_get? he).mp hp
  flat name e := isFlat_of_get?

/-- Entry and references agree about the target of a name exactly if the name was not given up. -/
theorem refersRight_ofDeclared_iff (hsaid : ∀ d ∈ ds, d.said.spec.target = none) (name : String) :
    (ofDeclared ds).RefersRight name ↔ ¬GivenUp ds name := by
  have hentry : ∀ target, (∃ e, KeyMap.get? (ofDeclared ds).prototype name = some e ∧
      e.target? = some target) ↔ lastTarget? ds name = some target := by
    intro target
    constructor
    · rintro ⟨e, he, ht⟩
      rw [← ht, target?_of_get? hsaid he]
    · intro ht
      have hlast : (last? ds name).isSome = true := by
        by_contra hnone
        rw [Declared.lastTarget?_eq_none (by simpa using hnone)] at ht
        cases ht
      have hc := contains_prototype ds name
      rw [hlast, Bool.true_or] at hc
      obtain ⟨e, he⟩ := Option.isSome_iff_exists.mp hc
      exact ⟨e, he, (target?_of_get? hsaid he).trans ht⟩
  have hreference : ∀ target, (∃ info, KeyMap.get? (ofDeclared ds).references name = some info ∧
      info.target = target) ↔ (last? ds name).bind Declared.target = some target := by
    intro target
    rw [get?_references]
    cases last? ds name with
    | none => simp
    | some d => cases ht : d.target <;> simp [Declared.reference?, ht]
  unfold RefersRight GivenUp
  simp only [hentry, hreference, ← Declared.isSome_lastTarget?]
  cases hlast : last? ds name with
  | none => simp [Declared.lastTarget?_eq_none hlast]
  | some d =>
    rcases Declared.lastTarget?_of_last? hlast with hsame | hnone
    · simp only [hsame, Option.bind_some, implies_true, true_iff, Option.some.injEq]
      rintro ⟨⟨_, rfl, hnone⟩, hsome⟩
      rw [hnone] at hsome
      cases hsome
    · simp only [hnone, Option.bind_some, Option.some.injEq, reduceCtorEq, iff_false]
      constructor
      · rintro hno ⟨-, hsome⟩
        obtain ⟨t, ht⟩ := Option.isSome_iff_exists.mp hsome
        exact hno t ht
      · intro hno t ht
        exact hno ⟨⟨d, rfl, hnone⟩, by rw [ht]; rfl⟩

end Declarations

/-! ### Schemas of classes -/

/-- The schema is that of a class whose lineage makes these declarations of data. -/
structure IsOf (s : ModelSchema) (classes : KeyMap ClassDecl) (ctx : TypeContext)
    (cls : ModelClass) (c : ClassDecl) (ds : List Declared) : Prop where
  /-- The class is compiled to the schema. -/
  compiled : ofClass classes ctx cls c = .ok s
  /-- The declarations are those among what the members of the lineage contribute. -/
  declared : (c.contributions classes ctx cls).map (·.filterMap Contribution.data?) = .ok ds

variable {classes : KeyMap ClassDecl} {ctx : TypeContext} {cls : ModelClass} {c : ClassDecl}
  {ds : List Declared} {s : ModelSchema}

theorem exists_isOf (h : ofClass classes ctx cls c = .ok s) : ∃ ds, s.IsOf classes ctx cls c ds := by
  have hof := h
  rw [ofClass_eq] at h
  obtain ⟨cs, hcs, -⟩ := map_eq_ok_iff.mp h
  exact ⟨_, hof, by rw [hcs]; rfl⟩

/-- The fields of the schema of a class are what its declarations say. -/
theorem IsOf.fieldPart_eq (h : s.IsOf classes ctx cls c ds) : s.fieldPart = ofDeclared ds := by
  obtain ⟨hs, hds⟩ := h
  rw [ofClass_eq] at hs
  obtain ⟨cs, hcs, rfl⟩ := map_eq_ok_iff.mp hs
  rw [hcs] at hds
  cases hds
  exact fieldPart_foldl_contribute cs initial

/-- What the decorators of the declarations say has no target. -/
theorem IsOf.said_target (h : s.IsOf classes ctx cls c ds) :
    ∀ d ∈ ds, d.said.spec.target = none := by
  obtain ⟨cs, hcs, rfl⟩ := map_eq_ok_iff.mp h.declared
  intro d hd
  obtain ⟨contribution, hmem, hdata⟩ := List.mem_filterMap.mp hd
  obtain ⟨lineage, -, hcs⟩ := andThen_eq_ok_iff.mp hcs
  obtain ⟨⟨c', m⟩, -, hm⟩ := exists_left_of_forall₂ ((mapM_eq_ok_iff _ _ _).mp hcs) hmem
  cases contribution with
  | data d' =>
    cases hdata
    exact m.said_target_of_contribution hm
  | hook | route | static | method | nothing => cases hdata

/-- **The parts of the schema of a class agree.** -/
theorem IsOf.consistent (h : s.IsOf classes ctx cls c ds) : s.Consistent := by
  have hc := consistent_ofDeclared ds
  rw [← h.fieldPart_eq] at hc
  exact ⟨hc.prototype_sorted, hc.references_sorted, hc.properties_nodup, hc.mem_keys_iff,
    hc.disjoint, hc.plurals_nodup, hc.mem_plurals_iff, hc.flat⟩

theorem IsOf.refersRight_iff (h : s.IsOf classes ctx cls c ds) (name : String) :
    s.RefersRight name ↔ ¬Declared.GivenUp ds name := by
  have hr := refersRight_ofDeclared_iff h.said_target name
  rw [← h.fieldPart_eq] at hr
  exact hr

end ModelSchema

/-! ### Schemas that compiling gives -/

namespace Finished

variable {classes : KeyMap ClassDecl} {ctx : TypeContext} {r : Registry} {d : Draft} {f : Factory}

/-- A finished factory has a schema. -/
theorem exists_schema? (h : Finished classes ctx r d f) : ∃ s, f.schema? = some s := by
  cases h with
  | own => exact ⟨_, rfl⟩
  | linked => exact ⟨_, rfl⟩

/-- If it is not linked, that is the schema of its class. -/
theorem ofClass (h : Finished classes ctx r d f) {s : ModelSchema} (hs : f.schema? = some s)
    (hl : f.isLinked = false) : ModelSchema.ofClass classes ctx f.cls d.decl = .ok s := by
  cases h with
  | own _ hof =>
    cases hs
    exact hof
  | linked hlinked => exact Bool.noConfusion (hlinked.symm.trans hl)

end Finished

namespace Registry

/-- Every schema of a factory is that of a class. -/
def OfClasses (r : Registry) : Prop := ∀ f ∈ r.made, ∀ s, f.schema? = some s →
  ∃ classes ctx cls c, ModelSchema.ofClass classes ctx cls c = .ok s

/-- The factories of the registry got their schemas by compiling. -/
inductive Built : Registry → Prop where
  /-- No factory was made. -/
  | empty {r : Registry} (h : r.made = []) : Built r
  /-- Models were compiled, with or without success. -/
  | compiled {r : Registry} (h : Built r) (connectors : Connectors) (defaultDatasource : String)
      (loaded : LoadedSources) : Built (stateLeft (compile connectors defaultDatasource loaded r))
  /-- Something else was changed, such as which factories are registered or initialized. -/
  | kept {r r' : Registry} (h : Built r)
      (hs : r'.made.map Factory.schema? = r.made.map Factory.schema?) : Built r'

/-- A factory that was changed has a schema of a class if what it was changed to has. -/
theorem OfClasses.update {r : Registry} (hr : r.OfClasses) {number : Nat} {f : Factory}
    (hf : ∀ s, f.schema? = some s → ∃ classes ctx cls c,
      ModelSchema.ofClass classes ctx cls c = .ok s) : (r.update number f).OfClasses := by
  intro g hg
  rcases List.mem_or_eq_of_mem_set hg with hg | rfl
  · exact hr g hg
  · exact hf

theorem OfClasses.extend {r : Registry} (hr : r.OfClasses) {f : Factory} (hf : f.schema? = none) :
    (r.extend [f]).OfClasses := by
  intro g hg s hs
  rcases List.mem_append.mp hg with hg | hg
  · exact hr g hg s hs
  · rw [List.mem_singleton.mp hg, hf] at hs
    cases hs

end Registry

namespace Enrolled

theorem preserves_enroll (connectors : Connectors) (defaultDatasource : String) (m : LoadedModel) :
    Preserves Registry.OfClasses (enroll connectors defaultDatasource m) := by
  intro r hr
  rw [enroll_eq]
  split
  · exact hr
  · exact hr
  · rename_i d hd
    split
    · exact hr
    · obtain ⟨said, -, hf, -⟩ := Draft.ofModel?_eq_ok_iff.mp hd
      exact hr.extend (factoryOf_eq_ok hf).1

/-- A change of a factory preserves that schemas are those of classes if the change does. -/
theorem change_ofClasses {r : Registry} (hr : r.OfClasses) {number : Nat}
    {g : Factory → Except ConfigError Factory}
    (hg : ∀ f f', g f = .ok f' → ∀ s, f'.schema? = some s → ∃ classes ctx cls c,
      ModelSchema.ofClass classes ctx cls c = .ok s) :
    (stateLeft (change number g r)).OfClasses := by
  unfold change
  cases r.made[number]? with
  | none => exact hr
  | some f =>
    dsimp only
    cases hf : g f with
    | error e => exact hr
    | ok f' => exact hr.update (hg f f' hf)

theorem schema?_of_installSchema {f f' : Factory} {s : ModelSchema}
    (h : f.installSchema s = .ok f') : f'.schema? = some s := by
  unfold Factory.installSchema at h
  split at h <;> cases h
  rfl

theorem preserves_compileSchema (classes : KeyMap ClassDecl) (ctx : TypeContext) (m : Enrolled) :
    Preserves Registry.OfClasses (compileSchema classes ctx m) := by
  intro r hr
  refine change_ofClasses hr fun f f' h s hs => ?_
  obtain ⟨s', hs', h⟩ := andThen_eq_ok_iff.mp h
  rw [schema?_of_installSchema h] at hs
  cases hs
  exact ⟨classes, ctx, _, _, hs'⟩

theorem preserves_compileLink (ctx : TypeContext) (m : Enrolled) :
    Preserves Registry.OfClasses (compileLink ctx m) := by
  intro r hr
  unfold compileLink
  cases ht : linkTarget ctx r m with
  | error e => exact hr
  | ok target =>
    obtain ⟨hfind, -, hcompiled⟩ := linkTarget_eq_ok_iff.mp ht
    obtain ⟨s', hs'⟩ := Option.isSome_iff_exists.mp hcompiled
    refine change_ofClasses hr fun f f' h s hs => ?_
    obtain ⟨linked, -, h⟩ := andThen_eq_ok_iff.mp h
    have hsame : target.schema = s' := by
      unfold Factory.schema
      rw [hs']
      rfl
    rw [schema?_of_installSchema h, hsame] at hs
    cases hs
    exact hr target (Registry.mem_made_of_find? hfind) s' hs'

end Enrolled

open Enrolled in
/-- Compiling preserves that schemas are those of classes, whether it succeeds or not. -/
theorem preserves_compile (connectors : Connectors) (defaultDatasource : String)
    (loaded : LoadedSources) :
    Preserves Registry.OfClasses (compile connectors defaultDatasource loaded) :=
  (Preserves.mapM (preserves_enroll connectors defaultDatasource) _).bind fun _ =>
    preserves_get.bind fun _ =>
      (Preserves.forM (preserves_compileSchema loaded.classes _) _).bind fun _ =>
        (Preserves.forM (preserves_compileLink _) _).bind fun _ => preserves_pure _

theorem Registry.Built.ofClasses {r : Registry} (h : r.Built) : r.OfClasses := by
  induction h with
  | empty h =>
    intro f hf
    rw [h] at hf
    cases hf
  | compiled _ connectors defaultDatasource loaded ih => exact preserves_compile _ _ _ _ ih
  | @kept r r' _ hs ih =>
    intro f hf s hfs
    have hmem : some s ∈ r'.made.map Factory.schema? := List.mem_map.mpr ⟨f, hf, hfs⟩
    rw [hs] at hmem
    obtain ⟨g, hg, hgs⟩ := List.mem_map.mp hmem
    exact ih g hg s hgs

/-- **The schemas that compiling gives to factories are consistent**, and their references are right
for every name that was not given up as a reference. The schema of a factory that is not linked is
that of its own class. -/
theorem schemas_of_compile {connectors : Connectors} {defaultDatasource : String}
    {loaded : LoadedSources} {r r' : Registry} {numbers : List Nat} (hr : r.Built)
    (h : compile connectors defaultDatasource loaded r = .ok numbers r') {number : Nat}
    (hn : number ∈ numbers) :
    ∃ f s, r'.made[number]? = some f ∧ f.schema? = some s ∧ s.Consistent ∧
      ∃ classes ctx cls c ds, s.IsOf classes ctx cls c ds ∧
        (f.isLinked = false → classes = loaded.classes ∧ cls = f.cls ∧
          ∃ m ∈ loaded.models, m.decl = c) ∧
        ∀ name, s.RefersRight name ↔ ¬Declared.GivenUp ds name := by
  have hbuilt : r'.Built := by
    have hc := hr.compiled connectors defaultDatasource loaded
    rwa [h] at hc
  obtain ⟨ds, hds, -, fs, hfs, rfl, rfl⟩ := compile_eq_ok_iff.mp h
  -- the number is that of a draft that was finished
  obtain ⟨k, hk, rfl⟩ := List.mem_range'.mp hn
  rw [Nat.one_mul]
  have hkf : k < fs.length := by rwa [← hfs.length_eq]
  have hmade : (r.extend fs).made[r.made.length + k]? = some fs[k] := by
    show (r.made ++ fs)[r.made.length + k]? = _
    rw [List.getElem?_append_right (Nat.le_add_right ..), Nat.add_sub_cancel_left,
      List.getElem?_eq_getElem hkf]
  have hfin := hfs.get hk hkf
  rw [List.get_eq_getElem, List.get_eq_getElem] at hfin
  obtain ⟨s, hs⟩ := hfin.exists_schema?
  cases hl : fs[k].isLinked with
  | true =>
    obtain ⟨classes, ctx, cls, c, hof⟩ := hbuilt.ofClasses _ (List.mem_of_getElem? hmade) s hs
    obtain ⟨declared, hdeclared⟩ := ModelSchema.exists_isOf hof
    exact ⟨fs[k], s, hmade, hs, hdeclared.consistent, classes, ctx, cls, c, declared, hdeclared,
      fun h => Bool.noConfusion (hl.symm.trans h), hdeclared.refersRight_iff⟩
  | false =>
    obtain ⟨declared, hdeclared⟩ := ModelSchema.exists_isOf (hfin.ofClass hs hl)
    obtain ⟨m, hm, hmodel⟩ := Draft.mem_ofModels hds (List.getElem_mem hk)
    obtain ⟨-, -, -, hdecl⟩ := Draft.ofModel?_eq_ok_iff.mp hmodel
    exact ⟨fs[k], s, hmade, hs, hdeclared.consistent, loaded.classes, _, _, _, declared, hdeclared,
      fun _ => ⟨rfl, rfl, m, hm, hdecl.symm⟩, hdeclared.refersRight_iff⟩

namespace Writings

/-- A work has an author, who is a model; the author of a book is a text. -/
def classes : List ClassDecl :=
  [{ ClassDecl.model "Author" with members := [.property { name := "name", type := "string" }] },
    { ClassDecl.model "Work" with members := [.property { name := "author", type := "Author" }] },
    { ClassDecl.model "Book" with
      superclass := some "Work"
      members := [.property { name := "author", type := "string" }] }]

/-- The loaded models. -/
def loaded : LoadedSources where
  classes := KeyMap.ofPairs (classes.map fun c => (c.name, c))
  models := classes.map fun c => { decl := c, cls := .plain c.name, source := "writings" }

/-- Where the models are stored. -/
def connectors : Connectors := [(memoryDatasource, .memory memoryDatasource 0)]

/-- The registry with the compiled models. -/
def registry : Registry := stateLeft (compile connectors memoryDatasource loaded {})

/-- The schema of the factory of a number. -/
def schemaOf? (number : Nat) : Option ModelSchema := registry.made[number]?.bind Factory.schema?

theorem compiled : compile connectors memoryDatasource loaded {} = .ok [0, 1, 2] registry :=
  answer?_eq_some_iff.mp (by decide +kernel)

/-- The schema of books: its parts agree, and its author was given up as a reference. -/
theorem book_consistent : ∃ f s, registry.made[2]? = some f ∧ f.schema? = some s ∧
    s.Consistent ∧ ∃ classes ctx cls c ds, s.IsOf classes ctx cls c ds ∧
      (f.isLinked = false → classes = loaded.classes ∧ cls = f.cls ∧
        ∃ m ∈ loaded.models, m.decl = c) ∧
      ∀ name, s.RefersRight name ↔ ¬Declared.GivenUp ds name :=
  schemas_of_compile (.empty rfl) compiled (by decide)

/-- The author of a book is a property and no reference, but its entry refers to authors. -/
theorem book_author_refers : compile connectors memoryDatasource loaded {} = .ok [0, 1, 2] registry ∧
    ∃ s e, schemaOf? 2 = some s ∧ KeyMap.get? s.prototype "author" = some e ∧
      e.target? = some "Author" ∧ KeyMap.contains s.references "author" = false ∧
      "author" ∈ s.properties ∧ ¬s.RefersRight "author" := by
  have hschema : (schemaOf? 2).isSome = true := by decide +kernel
  obtain ⟨s, hs⟩ := Option.isSome_iff_exists.mp hschema
  have hauthor : (schemaOf? 2).map (fun s => ((KeyMap.get? s.prototype "author").bind
      SchemaEntry.target?, KeyMap.get? s.references "author", s.properties.contains "author")) =
      some (some "Author", none, true) := by decide +kernel
  rw [hs, Option.map_some, Option.some.injEq, Prod.mk.injEq, Prod.mk.injEq] at hauthor
  obtain ⟨hentry, hreference, hproperty⟩ := hauthor
  obtain ⟨e, he, ht⟩ := Option.bind_eq_some_iff.mp hentry
  refine ⟨compiled, s, e, hs, he, ht, ?_, List.contains_iff_mem.mp hproperty, fun hright => ?_⟩
  · rw [KeyMap.contains, hreference]
    rfl
  · obtain ⟨info, hinfo, -⟩ := (hright "Author").mp ⟨e, he, ht⟩
    rw [hreference] at hinfo
    cases hinfo

end Writings

end ModelRest
