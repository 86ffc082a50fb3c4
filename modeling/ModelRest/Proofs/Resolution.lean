import ModelRest.Proofs.Consistency
import ModelRest.Proofs.Deployment

/-!
# References that resolve

When a class is compiled, the type of a property is looked up among the classes compiled with it and
the registered collections; when a request follows the reference, the target of the entry is looked
up in the registry. `ModelSchema.LeadsTo` ties the two together: every reference has an entry with the
target that it names, and that target is registered. Each step of compiling preserves it for all
registered factories (`Registry.Resolving`), whether the compiling succeeds or not, and nothing that
is done to a registry short of resetting or dropping it takes a name away (`Registry.Continues`). So
the references of every factory that was compiled resolve, `references_resolve`.
-/

namespace ModelRest

/-! ### Registries that go on -/

/-- The factory is what the other was, with what it was given since. -/
structure Factory.Becomes (f f' : Factory) : Prop where
  /-- The name stays. -/
  name : f'.name = f.name
  /-- A schema stays. -/
  schema : ∀ s, f.schema? = some s → f'.schema? = some s

/-- The registry was neither reset nor dropped since it was the other: what was registered is
registered still, and what was made is there. -/
structure Registry.Continues (r r' : Registry) : Prop where
  /-- The registry is there if it was. -/
  alive : r'.alive = r.alive
  /-- What was registered stays. -/
  registered : r.registered <+: r'.registered
  /-- What was made stays. -/
  made : ∀ (number : Nat) (f : Factory), r.made[number]? = some f →
    ∃ f' : Factory, r'.made[number]? = some f' ∧ f.Becomes f'

theorem Factory.Becomes.refl (f : Factory) : f.Becomes f := ⟨rfl, fun _ h => h⟩

theorem Factory.Becomes.trans {f f' f'' : Factory} (h : f.Becomes f') (h' : f'.Becomes f'') :
    f.Becomes f'' :=
  ⟨h'.name.trans h.name, fun s hs => h'.schema s (h.schema s hs)⟩

theorem Factory.becomes_installSchema {f f' : Factory} {s : ModelSchema}
    (h : f.installSchema s = .ok f') : f.Becomes f' := by
  unfold installSchema at h
  split at h
  · cases h
  · rename_i hnone
    cases h
    refine ⟨rfl, fun s' hs' => ?_⟩
    rw [hnone] at hs'
    cases hs'

theorem Factory.becomes_link {f f' : Factory} {name : String} (h : f.link name = .ok f') :
    f.Becomes f' := by
  unfold link at h
  split at h
  · cases h
  · cases h
    exact ⟨rfl, fun _ hs => hs⟩

namespace Registry.Continues

variable {r r' r'' : Registry}

theorem refl (r : Registry) : r.Continues r :=
  ⟨rfl, List.prefix_rfl, fun _ f hf => ⟨f, hf, .refl f⟩⟩

theorem trans (h : r.Continues r') (h' : r'.Continues r'') : r.Continues r'' := by
  refine ⟨h'.alive.trans h.alive, h.registered.trans h'.registered, fun number f hf => ?_⟩
  obtain ⟨f', hf', hb⟩ := h.made number f hf
  obtain ⟨f'', hf'', hb'⟩ := h'.made number f' hf'
  exact ⟨f'', hf'', hb.trans hb'⟩

/-- More factories are made and registered. -/
theorem extend (r : Registry) (fs : List Factory) : r.Continues (r.extend fs) := by
  refine ⟨rfl, List.prefix_append _ _, fun number f hf => ⟨f, ?_, .refl f⟩⟩
  obtain ⟨hlt, -⟩ := List.getElem?_eq_some_iff.mp hf
  exact (List.getElem?_append_left hlt).trans hf

/-- A factory is given something. -/
theorem update {number : Nat} {f f' : Factory} (hf : r.made[number]? = some f)
    (hb : f.Becomes f') : r.Continues (r.update number f') := by
  refine ⟨rfl, List.prefix_rfl, fun number' g hg => ?_⟩
  show ∃ g', (r.made.set number f')[number']? = some g' ∧ g.Becomes g'
  by_cases hn : number = number'
  · subst hn
    cases hf.symm.trans hg
    obtain ⟨hlt, -⟩ := List.getElem?_eq_some_iff.mp hf
    exact ⟨f', List.getElem?_set_self hlt, hb⟩
  · exact ⟨g, (List.getElem?_set_ne hn).trans hg, .refl g⟩

/-- Factories are set up. -/
theorem of_agrees (h : r.Agrees r') : r.Continues r' := by
  refine ⟨h.alive.symm, h.registered ▸ List.prefix_rfl, fun number f hf => ?_⟩
  have hbare : r'.made[number]?.map Factory.bare = some f.bare := by
    rw [← List.getElem?_map, ← h.made, List.getElem?_map, hf]
    rfl
  obtain ⟨f', hf', hb⟩ := Option.map_eq_some_iff.mp hbare
  have hname : f'.bare.name = f.bare.name := by rw [hb]
  have hschema : f'.bare.schema? = f.bare.schema? := by rw [hb]
  exact ⟨f', hf', hname, fun s hs => hschema.trans hs⟩

/-- A name leads to the same number. -/
theorem number? (h : r.Continues r') {name : String} {number : Nat}
    (hn : r.number? name = some number) : r'.number? name = some number := by
  obtain ⟨more, hmore⟩ := h.registered
  unfold Registry.number? at hn ⊢
  rw [← hmore, List.lookup_append, hn]
  rfl

/-- What was found is found still, with what it was given since. -/
theorem find? (h : r.Continues r') {name : String} {f : Factory}
    (hf : r.find? name = some f) : ∃ f', r'.find? name = some f' ∧ f.Becomes f' := by
  obtain ⟨number, hn, hget⟩ := Option.bind_eq_some_iff.mp hf
  obtain ⟨f', hf', hb⟩ := h.made number f hget
  refine ⟨f', ?_, hb⟩
  unfold Registry.find?
  rw [h.number? hn]
  exact hf'

end Registry.Continues

namespace Enrolled

variable {r₀ : Registry}

theorem continues_enroll (connectors : Connectors) (defaultDatasource : String) (m : LoadedModel) :
    Preserves r₀.Continues (enroll connectors defaultDatasource m) := by
  intro r hr
  rw [enroll_eq]
  split
  · exact hr
  · exact hr
  · split
    · exact hr
    · exact hr.trans (.extend r _)

theorem continues_change {number : Nat} {g : Factory → Except ConfigError Factory}
    (hg : ∀ f f', g f = .ok f' → f.Becomes f') : Preserves r₀.Continues (change number g) := by
  intro r hr
  unfold change
  cases hf : r.made[number]? with
  | none => exact hr
  | some f =>
    dsimp only
    cases hgf : g f with
    | error e => exact hr
    | ok f' => exact hr.trans (.update hf (hg f f' hgf))

theorem continues_compileSchema (classes : KeyMap ClassDecl) (ctx : TypeContext) (m : Enrolled) :
    Preserves r₀.Continues (compileSchema classes ctx m) := by
  refine continues_change fun f f' h => ?_
  obtain ⟨s, -, h⟩ := andThen_eq_ok_iff.mp h
  exact Factory.becomes_installSchema h

theorem continues_compileLink (ctx : TypeContext) (m : Enrolled) :
    Preserves r₀.Continues (compileLink ctx m) := by
  intro r hr
  unfold compileLink
  cases linkTarget ctx r m with
  | error e => exact hr
  | ok target =>
    refine continues_change (fun f f' h => ?_) r hr
    obtain ⟨linked, hlinked, h⟩ := andThen_eq_ok_iff.mp h
    exact (Factory.becomes_link hlinked).trans (Factory.becomes_installSchema h)

end Enrolled

open Enrolled in
/-- Models are compiled, with or without success. -/
theorem Registry.Continues.compile (r : Registry) (connectors : Connectors)
    (defaultDatasource : String) (loaded : LoadedSources) :
    r.Continues (stateLeft (ModelRest.compile connectors defaultDatasource loaded r)) := by
  refine Preserves.bind (Preserves.mapM (continues_enroll connectors defaultDatasource) _) ?_ r
    (.refl r)
  exact fun _ => preserves_get.bind fun _ =>
    (Preserves.forM (continues_compileSchema loaded.classes _) _).bind fun _ =>
      (Preserves.forM (continues_compileLink _) _).bind fun _ => preserves_pure _

/-! ### Schemas whose references lead somewhere -/

/-- Every reference of the schema has an entry with the target that it names, and that is a known
collection. -/
def ModelSchema.LeadsTo (s : ModelSchema) (known : List String) : Prop := ∀ name info,
  KeyMap.get? s.references name = some info → info.target ∈ known ∧
    ∃ entry, KeyMap.get? s.prototype name = some entry ∧ entry.target? = some info.target

theorem ModelSchema.LeadsTo.mono {s : ModelSchema} {known more : List String}
    (h : s.LeadsTo known) (hsub : known ⊆ more) : s.LeadsTo more :=
  fun name info hget => ⟨hsub (h name info hget).1, (h name info hget).2⟩

/-- The references of a class lead to collections that are known, if the types of its properties
stand for such. -/
theorem ModelSchema.leadsTo_ofClass {classes : KeyMap ClassDecl} {ctx : TypeContext}
    {known : List String} (hctx : ∀ type t, ctx.collection? type = some t → t ∈ known)
    {cls : ModelClass} {c : ClassDecl} {s : ModelSchema} (h : ofClass classes ctx cls c = .ok s) :
    s.LeadsTo known := by
  obtain ⟨ds, hds⟩ := exists_isOf h
  have hwell := wellFormed_ofClass hctx h
  intro name info hget
  -- what was last declared as a reference was not given up as one
  have hright : s.RefersRight name := by
    refine (hds.refersRight_iff name).mpr ?_
    rintro ⟨⟨d, hlast, hnone⟩, -⟩
    have href := get?_references ds name
    rw [← hds.fieldPart_eq, hlast] at href
    have hinfo : some info = d.reference? := hget.symm.trans href
    unfold Declared.reference? at hinfo
    rw [hnone] at hinfo
    cases hinfo
  obtain ⟨entry, hentry, ht⟩ := (hright info.target).mpr ⟨info, hget, rfl⟩
  exact ⟨hwell.targets name entry info.target hentry ht, entry, hentry, ht⟩

/-! ### Compiling -/

namespace Registry

/-- Every registered name is that of a factory, and the references of all registered factories lead
to registered names. -/
structure Resolving (r : Registry) : Prop where
  /-- A name leads to a factory of that name. -/
  named : ∀ p ∈ r.registered, ∃ f, r.made[p.2]? = some f ∧ f.name = p.1
  /-- References lead to registered names. -/
  leads : ∀ p ∈ r.registered, ∀ f, r.made[p.2]? = some f → ∀ s, f.schema? = some s →
    s.LeadsTo r.names

namespace Resolving

variable {r : Registry}

/-- A registered name is found. -/
theorem exists_find? (h : r.Resolving) {name : String} (hname : name ∈ r.names) :
    ∃ f, r.find? name = some f ∧ f.name = name := by
  have hcontains : r.contains name = true := by
    rw [contains_eq]
    exact List.contains_iff_mem.mpr hname
  obtain ⟨number, hnumber⟩ := Option.isSome_iff_exists.mp hcontains
  obtain ⟨before, after, hsplit, -⟩ := List.lookup_eq_some_iff.mp hnumber
  obtain ⟨f, hf, hn⟩ := h.named (name, number) (by rw [hsplit]; simp)
  refine ⟨f, ?_, hn⟩
  unfold find?
  rw [hnumber]
  exact hf

/-- What is found is registered. -/
theorem leadsTo_of_find? (h : r.Resolving) {name : String} {f : Factory}
    (hf : r.find? name = some f) {s : ModelSchema} (hs : f.schema? = some s) :
    s.LeadsTo r.names := by
  obtain ⟨number, hnumber, hget⟩ := Option.bind_eq_some_iff.mp hf
  obtain ⟨before, after, hsplit, -⟩ := List.lookup_eq_some_iff.mp hnumber
  exact h.leads (name, number) (by rw [hsplit]; simp) f hget s hs

theorem extend (h : r.Resolving) {f : Factory} (hf : f.schema? = none) :
    (r.extend [f]).Resolving := by
  have hreg : (r.extend [f]).registered = r.registered ++ [(f.name, r.made.length)] := rfl
  have hnew : (r.extend [f]).made[r.made.length]? = some f := by simp [Registry.extend]
  have hsub : r.names ⊆ (r.extend [f]).names := by
    rw [names_extend]
    exact List.subset_append_left _ _
  -- what was registered before has the number of a factory made before
  have hold : ∀ p ∈ r.registered, (r.extend [f]).made[p.2]? = r.made[p.2]? := by
    intro p hp
    obtain ⟨g, hg, -⟩ := h.named p hp
    obtain ⟨hlt, -⟩ := List.getElem?_eq_some_iff.mp hg
    exact List.getElem?_append_left hlt
  constructor
  · intro p hp
    rw [hreg] at hp
    rcases List.mem_append.mp hp with hp | hp
    · rw [hold p hp]
      exact h.named p hp
    · rw [List.mem_singleton.mp hp]
      exact ⟨f, hnew, rfl⟩
  · intro p hp g hg s hs
    rw [hreg] at hp
    rcases List.mem_append.mp hp with hp | hp
    · rw [hold p hp] at hg
      exact (h.leads p hp g hg s hs).mono hsub
    · rw [List.mem_singleton.mp hp, hnew] at hg
      cases hg
      rw [hf] at hs
      cases hs

theorem update (h : r.Resolving) {number : Nat} {f f' : Factory}
    (hf : r.made[number]? = some f) (hname : f'.name = f.name)
    (hs : ∀ s, f'.schema? = some s → s.LeadsTo r.names) : (r.update number f').Resolving := by
  obtain ⟨hlt, -⟩ := List.getElem?_eq_some_iff.mp hf
  have hself : (r.update number f').made[number]? = some f' := List.getElem?_set_self hlt
  have hother : ∀ n, number ≠ n → (r.update number f').made[n]? = r.made[n]? :=
    fun n hn => List.getElem?_set_ne hn
  constructor
  · intro p hp
    obtain ⟨g, hg, hgname⟩ := h.named p hp
    by_cases hn : number = p.2
    · rw [← hn] at hg ⊢
      cases hf.symm.trans hg
      exact ⟨f', hself, hname.trans hgname⟩
    · rw [hother _ hn]
      exact ⟨g, hg, hgname⟩
  · intro p hp g hg s hgs
    by_cases hn : number = p.2
    · rw [← hn, hself] at hg
      cases hg
      exact hs s hgs
    · rw [hother _ hn] at hg
      exact h.leads p hp g hg s hgs

/-- Setting factories up does not matter. -/
theorem of_agrees {r' : Registry} (h : r.Resolving) (hr : r.Agrees r') : r'.Resolving := by
  have hnames : r'.names = r.names := congrArg (List.map Prod.fst) hr.registered.symm
  have hmade : ∀ (number : Nat) (f' : Factory), r'.made[number]? = some f' →
      ∃ f, r.made[number]? = some f ∧ f.bare = f'.bare := by
    intro number f' hf'
    have hbare : r.made[number]?.map Factory.bare = some f'.bare := by
      rw [← List.getElem?_map, hr.made, List.getElem?_map, hf']
      rfl
    exact Option.map_eq_some_iff.mp hbare
  constructor
  · intro p hp
    rw [← hr.registered] at hp
    obtain ⟨f, hf, hname⟩ := h.named p hp
    obtain ⟨f', hf', hb⟩ := (Continues.of_agrees hr).made _ _ hf
    exact ⟨f', hf', hb.name.trans hname⟩
  · intro p hp f' hf' s hs
    rw [← hr.registered] at hp
    obtain ⟨f, hf, hb⟩ := hmade p.2 f' hf'
    rw [hnames]
    have hschema : f.bare.schema? = f'.bare.schema? := by rw [hb]
    exact h.leads p hp f hf s (hschema.trans hs)

end Resolving

end Registry

namespace Enrolled

theorem resolving_enroll (connectors : Connectors) (defaultDatasource : String) (m : LoadedModel) :
    Preserves Registry.Resolving (enroll connectors defaultDatasource m) := by
  intro r hr
  rw [enroll_eq]
  split
  · exact hr
  · exact hr
  · rename_i d hd
    split
    · exact hr
    · obtain ⟨said, -, hf, -⟩ := Draft.ofModel?_eq_ok_iff.mp hd
      exact hr.extend (factoryOf_eq_ok hf).1

/-- The second pass runs in a registry with these names. -/
def ResolvingIn (known : List String) (r : Registry) : Prop := r.Resolving ∧ r.names = known

theorem ResolvingIn.change {known : List String} {r : Registry} (hr : ResolvingIn known r)
    {number : Nat} {g : Factory → Except ConfigError Factory}
    (hg : ∀ f f', g f = .ok f' → f'.name = f.name ∧ ∀ s, f'.schema? = some s → s.LeadsTo known) :
    ResolvingIn known (stateLeft (change number g r)) := by
  unfold Enrolled.change
  cases hf : r.made[number]? with
  | none => exact hr
  | some f =>
    dsimp only
    cases hgf : g f with
    | error e => exact hr
    | ok f' =>
      obtain ⟨hname, hs⟩ := hg f f' hgf
      exact ⟨hr.1.update hf hname (by rwa [hr.2]), hr.2⟩

variable {known : List String} {ctx : TypeContext}

theorem resolving_compileSchema (hctx : ∀ type t, ctx.collection? type = some t → t ∈ known)
    (classes : KeyMap ClassDecl) (m : Enrolled) :
    Preserves (ResolvingIn known) (compileSchema classes ctx m) := by
  intro r hr
  refine hr.change fun f f' h => ?_
  obtain ⟨s', hs', h⟩ := andThen_eq_ok_iff.mp h
  refine ⟨(Factory.becomes_installSchema h).name, fun s hs => ?_⟩
  rw [schema?_of_installSchema h] at hs
  cases hs
  exact ModelSchema.leadsTo_ofClass hctx hs'

theorem resolving_compileLink (m : Enrolled) :
    Preserves (ResolvingIn known) (compileLink ctx m) := by
  intro r hr
  unfold compileLink
  cases ht : linkTarget ctx r m with
  | error e => exact hr
  | ok target =>
    obtain ⟨hfind, -, hcompiled⟩ := linkTarget_eq_ok_iff.mp ht
    obtain ⟨s', hs'⟩ := Option.isSome_iff_exists.mp hcompiled
    have hschema : target.schema = s' := by
      unfold Factory.schema
      rw [hs']
      rfl
    refine hr.change fun f f' h => ?_
    obtain ⟨linked, hlinked, h⟩ := andThen_eq_ok_iff.mp h
    refine ⟨((Factory.becomes_link hlinked).trans (Factory.becomes_installSchema h)).name,
      fun s hs => ?_⟩
    rw [schema?_of_installSchema h, hschema] at hs
    cases hs
    rw [← hr.2]
    exact hr.1.leadsTo_of_find? hfind hs'

end Enrolled

open Enrolled in
/-- Compiling preserves that references lead to registered names, whether it succeeds or not. -/
theorem resolving_compile (connectors : Connectors) (defaultDatasource : String)
    (loaded : LoadedSources) :
    Preserves Registry.Resolving (compile connectors defaultDatasource loaded) := by
  intro r hr
  have hfirst := Preserves.mapM (resolving_enroll connectors defaultDatasource) loaded.models r hr
  unfold compile
  rw [bind_apply]
  cases hes : loaded.models.mapM (enroll connectors defaultDatasource) r with
  | error e r₁ =>
    rw [hes] at hfirst
    exact hfirst
  | ok es r₁ =>
    rw [hes] at hfirst
    obtain ⟨ds, -, -, hms, hr₁⟩ := (mapM_enroll_iff connectors defaultDatasource loaded.models
      _ r r₁).mp ⟨es, hes, rfl⟩
    have hctx : ∀ type t, (context (es.filterMap id) r₁).collection? type = some t →
        t ∈ r₁.names := by
      intro type t ht
      rw [hms, hr₁, Draft.context_eq] at ht
      have hmem := Draft.mem_names_of_collection? ht
      rw [hr₁, Registry.names_extend]
      simpa [Draft.names, Function.comp_def] using hmem
    have hsecond : Preserves (ResolvingIn r₁.names) (do
        ((es.filterMap id).filter (!·.factory.isLinked)).forM
          (compileSchema loaded.classes (context (es.filterMap id) r₁))
        ((es.filterMap id).filter (·.factory.isLinked)).forM
          (compileLink (context (es.filterMap id) r₁))
        pure ((es.filterMap id).map number)) :=
      (Preserves.forM (resolving_compileSchema hctx loaded.classes) _).bind fun _ =>
        (Preserves.forM resolving_compileLink _).bind fun _ => preserves_pure _
    exact (hsecond r₁ ⟨hfirst, rfl⟩).1

namespace Registry

/-- The registry is empty, or was filled by compiling; nothing else was done to it but setting
factories up. -/
inductive Filled : Registry → Prop where
  /-- Nothing is registered. -/
  | empty {r : Registry} (hr : r.registered = []) (ha : r.alive = true) : Filled r
  /-- Models were compiled, with or without success. -/
  | compiled {r : Registry} (h : Filled r) (connectors : Connectors) (defaultDatasource : String)
      (loaded : LoadedSources) : Filled (stateLeft (compile connectors defaultDatasource loaded r))
  /-- Factories were set up. -/
  | setUp {r r' : Registry} (h : Filled r) (hr : r.Agrees r') : Filled r'

theorem Filled.resolving {r : Registry} (h : r.Filled) : r.Resolving ∧ r.alive = true := by
  induction h with
  | empty hr ha =>
    refine ⟨⟨fun p hp => ?_, fun p hp => ?_⟩, ha⟩
    all_goals
      rw [hr] at hp
      cases hp
  | @compiled r _ connectors defaultDatasource loaded ih =>
    exact ⟨resolving_compile connectors defaultDatasource loaded r ih.1,
      (Continues.compile r connectors defaultDatasource loaded).alive.trans ih.2⟩
  | setUp _ hr ih => exact ⟨ih.1.of_agrees hr, hr.alive.symm.trans ih.2⟩

end Registry

/-- A factory that compiling answers is registered and has a schema. -/
theorem registered_of_compile {connectors : Connectors} {defaultDatasource : String}
    {loaded : LoadedSources} {r r' : Registry} {numbers : List Nat}
    (h : compile connectors defaultDatasource loaded r = .ok numbers r') {number : Nat}
    (hn : number ∈ numbers) : ∃ f s, r'.made[number]? = some f ∧ f.schema? = some s ∧
      (f.name, number) ∈ r'.registered := by
  obtain ⟨ds, -, -, fs, hfs, rfl, rfl⟩ := compile_eq_ok_iff.mp h
  obtain ⟨k, hk, rfl⟩ := List.mem_range'.mp hn
  rw [Nat.one_mul]
  have hkf : k < fs.length := by rwa [← hfs.length_eq]
  have hmade : (r.extend fs).made[r.made.length + k]? = some fs[k] :=
    (r.getElem?_made_extend fs k).trans (List.getElem?_eq_getElem hkf)
  obtain ⟨s, hs⟩ := (hfs.get hk hkf).exists_schema?
  refine ⟨fs[k], s, hmade, hs, List.mem_append_right _ (List.mem_map.mpr ⟨(fs[k], _), ?_, rfl⟩)⟩
  exact List.mk_add_mem_zipIdx_iff_getElem?.mpr (List.getElem?_eq_getElem hkf)

/-- **Every declared reference resolves.** A factory that compiling answers, be it linked or not, has
a schema, and as long as the registry is neither reset nor dropped, each reference of the schema leads
to the registered factory of the collection that it names. -/
theorem references_resolve {connectors : Connectors} {defaultDatasource : String}
    {loaded : LoadedSources} {r r' r'' : Registry} {numbers : List Nat} (hr : r.Filled)
    (h : compile connectors defaultDatasource loaded r = .ok numbers r') (hlater : r'.Continues r'')
    {number : Nat} (hn : number ∈ numbers) :
    ∃ f s, r''.made[number]? = some f ∧ f.schema? = some s ∧
      ∀ name info, KeyMap.get? s.references name = some info →
        f.target? name = some info.target ∧ ∃ target, r''.find? info.target = some target ∧
          target.name = info.target ∧ r''.target f name = .ok target := by
  have hfilled : r'.Filled := by
    have hc := hr.compiled connectors defaultDatasource loaded
    rwa [h] at hc
  obtain ⟨hresolving, halive⟩ := hfilled.resolving
  obtain ⟨f, s, hf, hs, hmem⟩ := registered_of_compile h hn
  obtain ⟨f', hf', hb⟩ := hlater.made number f hf
  refine ⟨f', s, hf', hb.schema s hs, fun name info hget => ?_⟩
  obtain ⟨hknown, entry, hentry, ht⟩ := hresolving.leads _ hmem f hf s hs name info hget
  have htarget : f'.target? name = some info.target := by
    unfold Factory.target? Factory.schema
    rw [hb.schema s hs]
    show (KeyMap.get? s.prototype name).bind SchemaEntry.target? = _
    rw [hentry]
    exact ht
  obtain ⟨t, hfind, htname⟩ := hresolving.exists_find? hknown
  obtain ⟨t', hfind', hbt⟩ := hlater.find? hfind
  refine ⟨htarget, t', hfind', hbt.name.trans htname, ?_⟩
  unfold Registry.target
  rw [htarget]
  show r''.resolve info.target = _
  unfold Registry.resolve
  rw [if_pos (hlater.alive.trans halive), hfind']

namespace Reviewing

/-- Authors are compiled first. -/
def authors : List ClassDecl :=
  [(ClassDecl.model "Author").addMember (.property { name := "name", type := "string" })]

/-- A volume stands for a book; a book is a work, which has an author and may have a sequel; books
have reviews, which have a book. -/
def works : List ClassDecl :=
  [(ClassDecl.named "Volume").decorate
      { name := "model", args := [.ofMembers [("linkedFactory", .string "Book")]] },
    { ClassDecl.model "Book" with
      superclass := some "Work"
      members := [.property { name := "reviews", type := "Review[]" }] },
    { ClassDecl.model "Work" with
      members := [.property { name := "author", type := "Author" },
        .property { name := "sequel", type := "Work" }] },
    { ClassDecl.model "Review" with members := [.property { name := "book", type := "Book" }] }]

/-- Sources with these classes. -/
def load (classes : List ClassDecl) : LoadedSources where
  classes := KeyMap.ofPairs (classes.map fun c => (c.name, c))
  models := classes.map fun c => { decl := c, cls := .plain c.name, source := "reviews" }

/-- Where the models are stored. -/
def connectors : Connectors := [(memoryDatasource, .memory memoryDatasource 0)]

/-- The registry with the authors. -/
def before : Registry := stateLeft (compile connectors memoryDatasource (load authors) {})

/-- The registry with all models. -/
def registry : Registry := stateLeft (compile connectors memoryDatasource (load works) before)

theorem compiled :
    compile connectors memoryDatasource (load works) before = .ok [1, 2, 3, 4] registry :=
  answer?_eq_some_iff.mp (by decide +kernel)

/-- The references of volumes, which are those of books, resolve: to authors, who were there before,
to reviews, which refer back, and to works, which refer to themselves. -/
theorem volume_references_resolve :
    ∃ f s, registry.made[1]? = some f ∧ f.schema? = some s ∧ f.link? = some "Book" ∧
      s.references.map (fun p => (p.1, p.2.target)) =
        [("author", "Author"), ("reviews", "Review"), ("sequel", "Work")] ∧
      ∀ name info, KeyMap.get? s.references name = some info →
        f.target? name = some info.target ∧ ∃ target, registry.find? info.target = some target ∧
          target.name = info.target ∧ registry.target f name = .ok target := by
  obtain ⟨f, s, hf, hs, hresolve⟩ := references_resolve
    (.compiled (.empty rfl rfl) connectors memoryDatasource (load authors)) compiled
    (.refl registry) (by decide : 1 ∈ [1, 2, 3, 4])
  have hlink : registry.made[1]?.bind Factory.link? = some "Book" := by decide +kernel
  have htargets : (registry.made[1]?.bind Factory.schema?).map
      (fun s => s.references.map fun p => (p.1, p.2.target)) =
      some [("author", "Author"), ("reviews", "Review"), ("sequel", "Work")] := by decide +kernel
  rw [hf] at hlink htargets
  rw [Option.bind_some, hs] at htargets
  exact ⟨f, s, hf, hs, hlink, Option.some.inj htargets, hresolve⟩

end Reviewing

end ModelRest
