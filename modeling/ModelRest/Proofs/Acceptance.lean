import ModelRest.Proofs.Compilation
import ModelRest.Proofs.Declarations
import ModelRest.Proofs.Lineage
import ModelRest.Proofs.Loading

/-!
# Which models can be compiled

Compiling checks its models in several passes: names and connectors when a factory is registered,
then the classes on the way up from each model, and last what linked models stand for. Here is what
these checks come to: loaded sources are compiled into a registry in which nothing is registered
exactly if they are `Acceptable`, which says so of the models and the declared classes alone. If the
way up from the first model that cannot be compiled comes back to a class name, that is the error.
Both are in `compile_accepts_iff`.
-/

namespace ModelRest

/-! ### Models with their marks -/

/-- A loaded model with what its mark says. -/
structure MarkedModel where
  /-- The model. -/
  model : LoadedModel
  /-- What its mark says. -/
  said : ClassMetadata

/-- A loaded model with what its mark says, if it has a mark that can be read. -/
def LoadedModel.marked? (m : LoadedModel) : Option MarkedModel :=
  match classMetadata? m.decl with
  | .ok (some said) => some { model := m, said := said }
  | _ => none

namespace LoadedSources

/-- The loaded models that are marked, in order. -/
def marked (l : LoadedSources) : List MarkedModel := l.models.filterMap LoadedModel.marked?

/-- The collection that a link names: that of the class of this name, of several the last, or else
the one of this name. -/
def linkedCollection (l : LoadedSources) (name : String) : String :=
  ((l.marked.reverse.find? fun k => k.model.decl.name == name).map (·.said.collection)).getD name

/-- A property can have values of this type: it is native, or it names a class of a model or a
collection. -/
def Knows (l : LoadedSources) (type : String) : Prop :=
  TypeName.isNative type = true ∨ type ∈ l.marked.map (·.model.decl.name) ∨
    type ∈ l.marked.map (·.said.collection)

/-- The member of a class can be compiled. -/
def Accepts (l : LoadedSources) : MemberDecl → Prop
  | .property p => p.isData = true →
    l.Knows (TypeName.splitPlural p.type).1 ∧ ∃ said, propertyMetadata p.decorators = .ok said
  | .method m => ∃ role, methodRole m.decorators = .ok role

/-- Of the type of a property the element counts, however the type is written. -/
theorem accepts_property_iff {l : LoadedSources} {p : PropertyDecl} : l.Accepts (.property p) ↔
    (p.isData = true →
      (∃ element plural, TypeName.Names p.type.toList element.toList plural ∧ l.Knows element) ∧
        ∃ said, propertyMetadata p.decorators = .ok said) := by
  have helement : l.Knows (TypeName.splitPlural p.type).1 ↔
      ∃ element plural, TypeName.Names p.type.toList element.toList plural ∧ l.Knows element := by
    simp only [← TypeName.splitPlural_eq_iff]
    constructor
    · exact fun h => ⟨_, _, rfl, h⟩
    · rintro ⟨element, plural, hsplit, h⟩
      rwa [hsplit]
  rw [Accepts, helement]

/-- The way up from a class ends without a class name that comes twice, and the members of all
classes on it can be compiled. -/
def Resolves (l : LoadedSources) (c : ClassDecl) : Prop :=
  ∃ way, c.Ascends l.classes way none ∧ ((c :: way).map ClassDecl.name).Nodup ∧
    ∀ d ∈ c :: way, ∀ m ∈ d.members, l.Accepts m

/-- The way up from a class comes back to a class name. -/
def Returns (l : LoadedSources) (c : ClassDecl) (name : String) : Prop :=
  ∃ way p, c.Ascends l.classes way (some p) ∧ ((c :: way).map ClassDecl.name).Nodup ∧
    p.name = name ∧ name ∈ (c :: way).map ClassDecl.name

/-- All models can be registered. -/
structure Registrable (l : LoadedSources) (connectors : Connectors) (defaultDatasource : String) :
    Prop where
  /-- The names of the collections are different. -/
  names_nodup : (l.marked.map (·.said.collection)).Nodup
  /-- A model that is stored has a connector. -/
  connected : ∀ k ∈ l.marked, k.said.persistent = true →
    KeyMap.contains connectors (k.said.datasource.getD defaultDatasource) = true

/-- All models can be compiled. -/
structure Acceptable (l : LoadedSources) (connectors : Connectors) (defaultDatasource : String) :
    Prop extends l.Registrable connectors defaultDatasource where
  /-- The class of a model that is not linked can be compiled. -/
  resolves : ∀ k ∈ l.marked, k.said.linked = none → l.Resolves k.model.decl
  /-- A linked model stands for one that is not linked. -/
  links : ∀ k ∈ l.marked, ∀ name, k.said.linked = some name →
    ∃ t ∈ l.marked, t.said.linked = none ∧ t.said.collection = l.linkedCollection name

/-- Every model is marked, and every class is kept under its name. -/
structure Wellformed (l : LoadedSources) : Prop where
  /-- Every model has a mark that can be read. -/
  marks : ∀ m ∈ l.models, ∃ said, classMetadata? m.decl = .ok (some said)
  /-- Every class is kept under its name. -/
  keyed : ClassDecl.Keyed l.classes

/-- What loading answers is well-formed. -/
theorem wellformed_of_load {sources : List SourceFile} {table : ClassTable} {l : LoadedSources}
    (h : load sources table = .ok l) : l.Wellformed := by
  obtain ⟨ms, hms, rfl⟩ := (load_eq_ok_iff sources table l).mp h
  constructor
  · intro m hm
    obtain ⟨o, ho, hid⟩ := List.mem_filterMap.mp hm
    have hid : o = some m := hid
    subst hid
    obtain ⟨p, -, hp⟩ := exists_left_of_forall₂ ((mapM_eq_ok_iff _ _ _).mp hms) ho
    unfold model? at hp
    split at hp
    · obtain ⟨said?, hsaid, hm⟩ := map_eq_ok_iff.mp hp
      obtain ⟨said, rfl, hm⟩ := Option.bind_eq_some_iff.mp hm
      obtain ⟨cls, -, rfl⟩ := Option.map_eq_some_iff.mp hm
      exact ⟨said, hsaid⟩
    · cases hp
  · intro name c hc
    have hmem := KeyMap.mem_of_mem_ofPairs (KeyMap.mem_of_get? hc)
    obtain ⟨p, -, hp⟩ := List.mem_map.mp hmem
    cases hp
    rfl

end LoadedSources

/-! ### Drafts of marked models -/

namespace Enrolled

variable {connectors : Connectors} {defaultDatasource : String} {m : LoadedModel}
  {said : ClassMetadata} {f : Factory}

/-- A factory can be made if the model is not stored, or has a connector. -/
theorem exists_factoryOf_iff : (∃ f, factoryOf connectors defaultDatasource m said = .ok f) ↔
    (said.persistent = true →
      KeyMap.contains connectors (said.datasource.getD defaultDatasource) = true) := by
  unfold factoryOf KeyMap.contains
  dsimp only
  cases said.persistent <;>
    cases KeyMap.get? connectors (said.datasource.getD defaultDatasource) <;> simp

/-- Name, behaviour and link of a factory are those of the model. -/
theorem factoryOf_agrees (h : factoryOf connectors defaultDatasource m said = .ok f) :
    f.name = said.collection ∧ f.cls = m.cls ∧ f.options.linked = said.linked := by
  unfold factoryOf at h
  dsimp only at h
  split at h
  · cases h
  · cases h
    exact ⟨rfl, rfl, rfl⟩

end Enrolled

/-- The draft of a marked model. -/
structure Draft.IsOf (connectors : Connectors) (defaultDatasource : String) (k : MarkedModel)
    (d : Draft) : Prop where
  /-- The factory is made as the mark says. -/
  factory : Enrolled.factoryOf connectors defaultDatasource k.model k.said = .ok d.factory
  /-- The declaration is that of the model. -/
  decl : d.decl = k.model.decl

/-- A draft is linked exactly if its model is. -/
theorem Draft.IsOf.isLinked_eq_false_iff {connectors : Connectors} {defaultDatasource : String}
    {k : MarkedModel} {d : Draft} (h : d.IsOf connectors defaultDatasource k) :
    d.factory.isLinked = false ↔ k.said.linked = none := by
  unfold Factory.isLinked
  rw [(Enrolled.factoryOf_agrees h.factory).2.2, Option.isSome_eq_false_iff,
    Option.isNone_iff_eq_none]

namespace LoadedSources

variable {l : LoadedSources} {connectors : Connectors} {defaultDatasource : String}
  {ds : List Draft}

/-- The drafts of loaded models are those of the marked ones. -/
theorem ofModels_eq_ok_iff {models : List LoadedModel}
    (h : ∀ m ∈ models, ∃ said, classMetadata? m.decl = .ok (some said)) {ds : List Draft} :
    Draft.ofModels connectors defaultDatasource models = .ok ds ↔
      List.Forall₂ (Draft.IsOf connectors defaultDatasource)
        (models.filterMap LoadedModel.marked?) ds := by
  induction models generalizing ds with
  | nil =>
    rw [List.filterMap_nil, List.forall₂_nil_left_iff]
    exact ⟨fun h => (Except.ok.inj h).symm, fun h => h ▸ rfl⟩
  | cons m rest ih =>
    obtain ⟨said, hsaid⟩ := h m (List.mem_cons_self ..)
    have ih := @ih fun m hm => h m (List.mem_cons_of_mem _ hm)
    have hmarked : m.marked? = some { model := m, said := said } := by
      unfold LoadedModel.marked?
      rw [hsaid]
    rw [Draft.ofModels_cons_eq_ok_iff, List.filterMap_cons_some hmarked]
    constructor
    · rintro ⟨o, ds', ho, hds', rfl⟩
      unfold Draft.ofModel? at ho
      rw [hsaid] at ho
      obtain ⟨f, hf, rfl⟩ := map_eq_ok_iff.mp ho
      exact .cons ⟨hf, rfl⟩ (ih.mp hds')
    · rintro (_ | ⟨hd, hrest⟩)
      exact ⟨some _, _, Draft.ofModel?_eq_ok_iff.mpr ⟨said, hsaid, hd.factory, hd.decl⟩,
        ih.mpr hrest, rfl⟩

section Context

variable {r : Registry} (hr : r.registered = [])
  (hds : List.Forall₂ (Draft.IsOf connectors defaultDatasource) l.marked ds)

include hds in
theorem names_drafts : Draft.names ds = l.marked.map (·.said.collection) :=
  forall₂_map_eq hds fun _ _ h => (Enrolled.factoryOf_agrees h.factory).1

include hds in
theorem collections_context : (Draft.context r ds).collections =
    KeyMap.ofPairs (l.marked.map fun k => (k.model.decl.name, k.said.collection)) := by
  refine congrArg KeyMap.ofPairs (forall₂_map_eq hds fun k d h => ?_)
  rw [h.decl, (Enrolled.factoryOf_agrees h.factory).1]

include hr hds in
/-- A type names a collection exactly if it names the class of a model, or the collection itself. -/
theorem isSome_collection?_context (type : String) :
    ((Draft.context r ds).collection? type).isSome = true ↔
      type ∈ l.marked.map (·.model.decl.name) ∨ type ∈ l.marked.map (·.said.collection) := by
  have hnames : (Draft.context r ds).registered = l.marked.map (·.said.collection) := by
    show r.names ++ Draft.names ds = _
    rw [names_drafts hds, Registry.names, hr]
    rfl
  have hclasses : (KeyMap.get? (Draft.context r ds).collections type).isSome = true ↔
      type ∈ l.marked.map (·.model.decl.name) := by
    rw [collections_context hds]
    refine KeyMap.mem_keys_iff.symm.trans ?_
    rw [KeyMap.mem_keys_ofPairs, List.map_map]
    rfl
  unfold TypeContext.collection?
  rw [Option.isSome_or, Bool.or_eq_true, hclasses, hnames]
  refine or_congr_right ?_
  rw [← List.contains_iff_mem]
  split <;> simp_all

include hds in
/-- A linked draft stands for the collection that its link names. -/
theorem linkName_context (f : Factory) {name : String} (hf : f.options.linked = some name) :
    (Draft.context r ds).linkName f = l.linkedCollection name := by
  unfold TypeContext.linkName linkedCollection
  rw [hf, collections_context hds, KeyMap.get?_ofPairs, ← List.map_reverse, List.find?_map,
    Option.map_map]
  rfl

include hds in
/-- A linked draft stands for one that is not linked exactly if its model does. -/
theorem exists_linkTarget_iff {k : MarkedModel} {d : Draft}
    (hd : d.IsOf connectors defaultDatasource k) {name : String}
    (hname : k.said.linked = some name) :
    (∃ t ∈ ds, t.factory.isLinked = false ∧
        t.factory.name = (Draft.context r ds).linkName d.factory) ↔
      ∃ kt ∈ l.marked, kt.said.linked = none ∧ kt.said.collection = l.linkedCollection name := by
  rw [linkName_context hds d.factory ((Enrolled.factoryOf_agrees hd.factory).2.2.trans hname)]
  constructor
  · rintro ⟨t, ht, hl, hcollection⟩
    obtain ⟨kt, hkt, h⟩ := exists_left_of_forall₂ hds ht
    exact ⟨kt, hkt, h.isLinked_eq_false_iff.mp hl,
      (Enrolled.factoryOf_agrees h.factory).1.symm.trans hcollection⟩
  · rintro ⟨kt, hkt, hl, hcollection⟩
    obtain ⟨t, ht, h⟩ := exists_right_of_forall₂ hds hkt
    exact ⟨t, ht, h.isLinked_eq_false_iff.mpr hl,
      (Enrolled.factoryOf_agrees h.factory).1.trans hcollection⟩

/-! ### Classes that can be compiled -/

include hr hds in
theorem exists_contribution_iff (cls : ModelClass) (c : ClassDecl) (m : MemberDecl) :
    (∃ x, m.contribution (Draft.context r ds) cls c = .ok x) ↔ l.Accepts m := by
  cases m with
  | method m =>
    constructor
    · rintro ⟨x, hx⟩
      obtain ⟨role, hrole, -⟩ := map_eq_ok_iff.mp hx
      exact ⟨role, hrole⟩
    · rintro ⟨role, hrole⟩
      exact ⟨_, map_eq_ok_iff.mpr ⟨role, hrole, rfl⟩⟩
  | property p =>
    have htarget : (∃ t, p.target? (Draft.context r ds) c = .ok t) ↔
        l.Knows (TypeName.splitPlural p.type).1 := by
      have hcollection := isSome_collection?_context hr hds (TypeName.splitPlural p.type).1
      unfold PropertyDecl.target? Knows
      dsimp only
      rw [← hcollection]
      split
      · rename_i hnative
        simp [hnative]
      · rename_i hnative
        split <;> simp_all
    show (∃ x, p.contribution (Draft.context r ds) c = .ok x) ↔ (p.isData = true → _)
    unfold PropertyDecl.contribution
    by_cases hdata : p.isData = true
    · rw [if_pos hdata, ← htarget]
      simp only [andThen_eq_ok_iff]
      constructor
      · rintro ⟨x, t, ht, said, hsaid, -⟩ -
        exact ⟨⟨t, ht⟩, said, hsaid⟩
      · intro h
        obtain ⟨⟨t, ht⟩, said, hsaid⟩ := h hdata
        exact ⟨_, t, ht, said, hsaid, rfl⟩
    · rw [if_neg hdata]
      exact ⟨fun _ h => (hdata h).elim, fun _ => ⟨_, rfl⟩⟩

include hr hds in
/-- A class has a schema exactly if all classes on the way up can be compiled. -/
theorem exists_ofClass_iff (hk : ClassDecl.Keyed l.classes) (cls : ModelClass) (c : ClassDecl) :
    (∃ s, ModelSchema.ofClass l.classes (Draft.context r ds) cls c = .ok s) ↔ l.Resolves c := by
  have hmembers : ∀ way : List ClassDecl,
      (∃ cs, (ClassDecl.membersOf way.reverse).mapM
        (fun p => p.2.contribution (Draft.context r ds) cls p.1) = .ok cs) ↔
          ∀ d ∈ way, ∀ m ∈ d.members, l.Accepts m := by
    intro way
    rw [exists_mapM_eq_ok_iff]
    simp only [exists_contribution_iff hr hds, ClassDecl.membersOf, List.mem_flatMap, List.mem_map,
      List.mem_reverse]
    constructor
    · intro h d hd m hm
      exact h (d, m) ⟨d, hd, m, hm, rfl⟩
    · rintro h _ ⟨d, hd, m, hm, rfl⟩
      exact h d hd m hm
  rw [ModelSchema.ofClass_eq]
  simp only [map_eq_ok_iff, ClassDecl.contributions, andThen_eq_ok_iff,
    ClassDecl.lineage_eq_ok_iff hk]
  constructor
  · rintro ⟨s, cs, ⟨_, ⟨way, ha, hn, rfl⟩, hcs⟩, -⟩
    exact ⟨way, ha, hn, (hmembers _).mp ⟨cs, hcs⟩⟩
  · rintro ⟨way, ha, hn, hall⟩
    obtain ⟨cs, hcs⟩ := (hmembers _).mpr hall
    exact ⟨_, cs, ⟨_, ⟨way, ha, hn, rfl⟩, hcs⟩, rfl⟩

end Context

/-! ### Models that can be registered -/

/-- Where nothing is registered, names need only be different. -/
theorem unused_iff {r : Registry} (hr : r.registered = []) (names : List String) :
    r.Unused names ↔ names.Nodup := by
  unfold Registry.Unused Registry.contains Registry.number?
  simp [hr]

/-- Models that can be registered have drafts. -/
theorem Registrable.exists_drafts (h : l.Registrable connectors defaultDatasource) :
    ∃ ds, List.Forall₂ (Draft.IsOf connectors defaultDatasource) l.marked ds := by
  refine exists_forall₂ fun k hk => ?_
  obtain ⟨f, hf⟩ := Enrolled.exists_factoryOf_iff.mpr (h.connected k hk)
  exact ⟨{ factory := f, decl := k.model.decl }, hf, rfl⟩

/-! ### The drafts of acceptable models can be finished -/

/-- A draft with the schema of its class. -/
def ownFactory (l : LoadedSources) (ctx : TypeContext) (d : Draft) : Factory :=
  { d.factory with schema? := (ModelSchema.ofClass l.classes ctx d.factory.cls d.decl).toOption }

/-- A factory that a draft becomes wherever those that are not linked are found with their own
schemas. -/
structure Ready (l : LoadedSources) (ctx : TypeContext) (ds : List Draft) (d : Draft) (f : Factory) :
    Prop where
  /-- The factory has the name of the draft. -/
  name : f.name = d.factory.name
  /-- If the draft is not linked, it has the schema of its class. -/
  own : d.factory.isLinked = false → f = l.ownFactory ctx d
  /-- The draft becomes the factory. -/
  finished : ∀ r : Registry, (∀ t ∈ ds, t.factory.isLinked = false →
    r.find? t.factory.name = some (l.ownFactory ctx t)) → Finished l.classes ctx r d f

variable {r : Registry}

/-- The class of a draft that is not linked has a schema. -/
theorem Acceptable.exists_ofClass (h : l.Acceptable connectors defaultDatasource)
    (hk : ClassDecl.Keyed l.classes) (hr : r.registered = [])
    (hds : List.Forall₂ (Draft.IsOf connectors defaultDatasource) l.marked ds) {d : Draft}
    (hd : d ∈ ds) (hl : d.factory.isLinked = false) :
    ∃ s, ModelSchema.ofClass l.classes (Draft.context r ds) d.factory.cls d.decl = .ok s := by
  obtain ⟨k, hkm, hkd⟩ := exists_left_of_forall₂ hds hd
  rw [hkd.decl]
  exact (exists_ofClass_iff hr hds hk _ _).mpr
    (h.resolves k hkm (hkd.isLinked_eq_false_iff.mp hl))

/-- Every draft of acceptable models can be finished. -/
theorem Acceptable.exists_ready (h : l.Acceptable connectors defaultDatasource)
    (hk : ClassDecl.Keyed l.classes) (hr : r.registered = [])
    (hds : List.Forall₂ (Draft.IsOf connectors defaultDatasource) l.marked ds) :
    ∀ d ∈ ds, ∃ f, l.Ready (Draft.context r ds) ds d f := by
  intro d hd
  cases hl : d.factory.isLinked with
  | false =>
    obtain ⟨s, hs⟩ := h.exists_ofClass hk hr hds hd hl
    refine ⟨l.ownFactory _ d, rfl, fun _ => rfl, fun r' _ => ?_⟩
    unfold ownFactory
    rw [hs]
    exact .own hl hs
  | true =>
    obtain ⟨k, hkm, hkd⟩ := exists_left_of_forall₂ hds hd
    obtain ⟨name, hname⟩ := Option.ne_none_iff_exists'.mp
      (mt hkd.isLinked_eq_false_iff.mpr (ne_false_of_eq_true hl))
    -- what the model stands for has a draft, too
    obtain ⟨t, ht, htl, hlink⟩ :=
      (exists_linkTarget_iff (r := r) hds hkd hname).mpr (h.links k hkm name hname)
    obtain ⟨s, hs⟩ := h.exists_ofClass hk hr hds ht htl
    refine ⟨{ d.factory with
      link? := some t.factory.name
      schema? := some (l.ownFactory (Draft.context r ds) t).schema }, rfl,
      fun h => Bool.noConfusion (hl.symm.trans h), fun r' hfind => ?_⟩
    refine Finished.linked hl (hlink ▸ hfind t ht htl) htl ?_
    unfold Factory.isCompiled ownFactory
    rw [hs]
    rfl

/-- What a registry finds that had nothing registered: the new factories. -/
theorem find?_extend_iff (hr : r.registered = []) {fs : List Factory}
    (hn : (fs.map Factory.name).Nodup) {name : String} {f : Factory} :
    (r.extend fs).find? name = some f ↔ f ∈ fs ∧ f.name = name := by
  have hwell : r.WellNumbered := by
    intro p hp
    rw [hr] at hp
    cases hp
  have hnone : r.find? name = none := by
    unfold Registry.find? Registry.number?
    rw [hr]
    rfl
  rw [Registry.find?_extend_eq_some_iff hwell ((unused_iff hr _).mpr hn), hnone]
  simp

/-- Acceptable models are compiled. -/
theorem Acceptable.compile (h : l.Acceptable connectors defaultDatasource) (hw : l.Wellformed)
    (hr : r.registered = []) :
    ∃ numbers r', ModelRest.compile connectors defaultDatasource l r = .ok numbers r' := by
  obtain ⟨ds, hds⟩ := h.exists_drafts
  obtain ⟨fs, hfs⟩ := exists_forall₂ (h.exists_ready hw.keyed hr hds)
  have hnames : fs.map Factory.name = Draft.names ds := forall₂_map_eq hfs fun _ _ hf => hf.name
  have hnodup : (Draft.names ds).Nodup := by
    rw [names_drafts hds]
    exact h.names_nodup
  have hfind : ∀ t ∈ ds, t.factory.isLinked = false → (r.extend fs).find? t.factory.name =
      some (l.ownFactory (Draft.context r ds) t) := by
    intro t ht hl
    obtain ⟨f, hf, hready⟩ := exists_right_of_forall₂ hfs ht
    rw [← hready.own hl]
    exact (find?_extend_iff hr (by rwa [hnames])).mpr ⟨hf, hready.name⟩
  exact ⟨_, r.extend fs, compile_eq_ok_iff.mpr ⟨ds, (ofModels_eq_ok_iff hw.marks).mpr hds,
    (unused_iff hr _).mpr hnodup, fs, hfs.imp fun d f hf => hf.finished _ hfind, rfl, rfl⟩⟩

/-- Models that are compiled are acceptable. -/
theorem acceptable_of_compile (hw : l.Wellformed) (hr : r.registered = []) {numbers : List Nat}
    {r' : Registry} (h : ModelRest.compile connectors defaultDatasource l r = .ok numbers r') :
    l.Acceptable connectors defaultDatasource := by
  obtain ⟨ds, hofm, hu, fs, hfs, rfl, -⟩ := compile_eq_ok_iff.mp h
  have hds : List.Forall₂ (Draft.IsOf connectors defaultDatasource) l.marked ds :=
    (ofModels_eq_ok_iff hw.marks).mp hofm
  have hnodup := (unused_iff hr _).mp hu
  refine ⟨⟨?_, ?_⟩, ?_, ?_⟩
  · rwa [← names_drafts hds]
  · intro k hk
    obtain ⟨d, -, hd⟩ := exists_right_of_forall₂ hds hk
    exact Enrolled.exists_factoryOf_iff.mp ⟨_, hd.factory⟩
  · intro k hk hl
    obtain ⟨d, hd, hkd⟩ := exists_right_of_forall₂ hds hk
    obtain ⟨f, -, hfin⟩ := exists_right_of_forall₂ hfs hd
    cases hfin with
    | own _ hs =>
      rw [← hkd.decl]
      exact (exists_ofClass_iff hr hds hw.keyed _ _).mp ⟨_, hs⟩
    | linked hlinked =>
      rw [hkd.isLinked_eq_false_iff.mpr hl] at hlinked
      cases hlinked
  · intro k hk name hname
    obtain ⟨d, hd, hkd⟩ := exists_right_of_forall₂ hds hk
    obtain ⟨f, -, hfin⟩ := exists_right_of_forall₂ hfs hd
    refine (exists_linkTarget_iff (r := r) hds hkd hname).mp ?_
    cases hfin with
    | own hl _ =>
      rw [hkd.isLinked_eq_false_iff.mp hl] at hname
      cases hname
    | @linked target _ hfind hun _ =>
      have hnames := Finished.names hfs
      obtain ⟨htarget, hcollection⟩ := (find?_extend_iff hr (by rwa [hnames])).mp hfind
      obtain ⟨t, ht, hfin'⟩ := exists_left_of_forall₂ hfs htarget
      rw [hfin'.agrees] at hun hcollection
      exact ⟨t, ht, hun, hcollection⟩

/-- Where the way up from the first model that cannot be compiled comes back to a class name, that
is the error. -/
theorem Registrable.compile_error (h : l.Registrable connectors defaultDatasource)
    (hw : l.Wellformed) (hr : r.registered = []) {before after : List MarkedModel} {k : MarkedModel}
    (hsplit : l.marked = before ++ k :: after)
    (hbefore : ∀ k' ∈ before, k'.said.linked = none → l.Resolves k'.model.decl)
    (hl : k.said.linked = none) {name : String} (hreturns : l.Returns k.model.decl name) :
    ∃ r', ModelRest.compile connectors defaultDatasource l r =
      .error (.inheritanceCycle name) r' := by
  obtain ⟨ds, hds⟩ := h.exists_drafts
  have hnodup : (Draft.names ds).Nodup := by
    rw [names_drafts hds]
    exact h.names_nodup
  refine compile_eq_error ((ofModels_eq_ok_iff hw.marks).mpr hds) ((unused_iff hr _).mpr hnodup) ?_
  have hofClass := exists_ofClass_iff hr hds hw.keyed
  have hds' := hds
  rw [hsplit] at hds'
  obtain ⟨ds₁, d, ds₂, hds₁, hearlier, hd, -⟩ := forall₂_split hds'
  generalize Draft.context r ds = ctx at hofClass
  rw [hds₁]
  refine mapM_eq_error (fun d' hd' => ?_) ?_
  · obtain ⟨k', hk', hkd'⟩ := exists_left_of_forall₂ hearlier hd'
    unfold Enrolled.withSchema
    split
    · exact ⟨_, rfl⟩
    · rename_i hun
      rw [Bool.not_eq_true, hkd'.isLinked_eq_false_iff] at hun
      obtain ⟨s, hs⟩ := (hofClass d'.factory.cls k'.model.decl).mpr (hbefore k' hk' hun)
      rw [hkd'.decl, hs]
      refine ⟨{ d'.factory with schema? := some s }, ?_⟩
      show d'.factory.installSchema s = _
      unfold Factory.installSchema
      rw [(Enrolled.factoryOf_eq_ok hkd'.factory).1]
  · obtain ⟨way, p, ha, hn, rfl, hp⟩ := hreturns
    have hlinked : d.factory.isLinked = false := hd.isLinked_eq_false_iff.mpr hl
    unfold Enrolled.withSchema
    rw [if_neg (by simp [hlinked]), hd.decl, ModelSchema.ofClass_eq]
    unfold ClassDecl.contributions
    rw [ClassDecl.lineage_of_returns hw.keyed ha hn hp]
    rfl

end LoadedSources

/-- **Loaded models are compiled exactly if they are acceptable**, where nothing is registered yet.
If the way up from the first model that is not, but could be registered, comes back to a class name,
that is the error. -/
theorem compile_accepts_iff {sources : List SourceFile} {table : ClassTable} {l : LoadedSources}
    (hload : LoadedSources.load sources table = .ok l) (connectors : Connectors)
    (defaultDatasource : String) {r : Registry} (hr : r.registered = []) :
    ((∃ numbers r', compile connectors defaultDatasource l r = .ok numbers r') ↔
        l.Acceptable connectors defaultDatasource) ∧
      ∀ before k after name, l.marked = before ++ k :: after →
        l.Registrable connectors defaultDatasource →
        (∀ k' ∈ before, k'.said.linked = none → l.Resolves k'.model.decl) →
        k.said.linked = none → l.Returns k.model.decl name →
          ∃ r', compile connectors defaultDatasource l r = .error (.inheritanceCycle name) r' := by
  have hw := LoadedSources.wellformed_of_load hload
  refine ⟨⟨?_, fun h => h.compile hw hr⟩, ?_⟩
  · rintro ⟨numbers, r', h⟩
    exact LoadedSources.acceptable_of_compile hw hr h
  · intro before k after name hsplit hreg hbefore hl hreturns
    exact hreg.compile_error hw hr hsplit hbefore hl hreturns

namespace Filing

/-- A folder is an item. -/
def folder : ClassDecl := { ClassDecl.model "Folder" with superclass := some "Item" }

/-- An item is a folder. -/
def item : ClassDecl := { ClassDecl.model "Item" with superclass := some "Folder" }

/-- Where the classes are declared. -/
def sources : List SourceFile := [{ path := "filing", items := [.decl folder, .decl item] }]

/-- The classes with behaviour. -/
def table : ClassTable := ["Folder", "Item"].map fun name => (name, .plain name)

/-- Where the models are stored. -/
def connectors : Connectors := [(memoryDatasource, .memory memoryDatasource 0)]

/-- What is loaded. -/
def loaded : LoadedSources := (LoadedSources.load sources table).toOption.getD {}

theorem load_sources : LoadedSources.load sources table = .ok loaded := by
  have hok : (LoadedSources.load sources table).toOption.isSome = true := by decide +kernel
  unfold loaded
  cases h : LoadedSources.load sources table with
  | error e =>
    rw [h] at hok
    cases hok
  | ok l => rfl

theorem parent_folder : folder.Parent loaded.classes (some item) := by
  have hm : classMetadata? item = .ok (some (ClassMetadata.initial item)) := by decide +kernel
  exact .model rfl (by decide +kernel) hm

theorem parent_item : item.Parent loaded.classes (some folder) := by
  have hm : classMetadata? folder = .ok (some (ClassMetadata.initial folder)) := by decide +kernel
  exact .model rfl (by decide +kernel) hm

theorem registrable : loaded.Registrable connectors memoryDatasource where
  names_nodup := by decide +kernel
  connected := by decide +kernel

/-- The way up from a folder comes back to it, so that neither class is compiled. -/
theorem folder_refused : ¬loaded.Acceptable connectors memoryDatasource ∧
    ∃ r', compile connectors memoryDatasource loaded {} = .error (.inheritanceCycle "Folder") r' := by
  obtain ⟨haccepts, herror⟩ := compile_accepts_iff load_sources connectors memoryDatasource
    (r := {}) rfl
  have hmarked : ∃ k after, loaded.marked = [] ++ k :: after ∧ k.said.linked = none ∧
      k.model.decl = folder := by
    have hhead : loaded.marked.head?.map (fun k => (k.said.linked, k.model.decl)) =
        some (none, folder) := by decide +kernel
    cases hl : loaded.marked with
    | nil =>
      rw [hl] at hhead
      cases hhead
    | cons k after =>
      rw [hl, List.head?_cons, Option.map_some, Option.some.injEq, Prod.mk.injEq] at hhead
      exact ⟨k, after, rfl, hhead⟩
  obtain ⟨k, after, hmarked, hl, hdecl⟩ := hmarked
  obtain ⟨r', hr'⟩ := herror [] k after "Folder" hmarked registrable (fun _ h => by cases h) hl
    (hdecl ▸ ⟨[item], folder, .up parent_folder (.here parent_item), by decide, rfl, by decide⟩)
  refine ⟨fun h => ?_, r', hr'⟩
  obtain ⟨numbers, r, hok⟩ := haccepts.mpr h
  rw [hok] at hr'
  cases hr'

end Filing

end ModelRest
