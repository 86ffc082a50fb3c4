import ModelRest.Proofs.Actions
import ModelRest.Proofs.Resolution

/-!
# Models that stand for others

A linked model stands for another: what it is linked to is found when all other models have their
schemas, and when it is set up it gets its actions from there too. Setting up does not wait for the
other model to be set up, and either may be set up first, so the two get their actions at different
times; that they are the same is read off `Registry.Linking`, which says of every factory that its
actions are those that the factory which it stands for opened. Compiling and setting up preserve it,
whether they succeed or not (`Registry.Established.linking`).

`linked_standsFor` says what comes of this: one schema, one collection, and nothing under the name
of the linked model.
-/

namespace ModelRest

/-! ### Registries with links -/

namespace Factory

/-- The factories are of one name, and stored in one place. -/
structure Akin (f f' : Factory) : Prop where
  /-- They have the same name. -/
  name : f'.name = f.name
  /-- They have the same options. -/
  options : f'.options = f.options
  /-- They have the same connector. -/
  connector : f'.connector = f.connector

theorem Akin.refl (f : Factory) : f.Akin f := ⟨rfl, rfl, rfl⟩

theorem Akin.isLinked {f f' : Factory} (h : f.Akin f') : f'.isLinked = f.isLinked := by
  unfold Factory.isLinked
  rw [h.options]

/-- Actions depend on name and place only. -/
theorem Akin.openActions {f f' : Factory} (h : f.Akin f') (store : Store) :
    f'.openActions store = f.openActions store := by
  unfold Factory.openActions
  rw [h.name, h.options, h.connector]

theorem akin_of_bare {f f' : Factory} (h : f'.bare = f.bare) : f.Akin f' where
  name := (congrArg Factory.name h :)
  options := (congrArg Factory.options h :)
  connector := (congrArg Factory.connector h :)

/-- The model is stored over a connector of the library's own, if at all. -/
def Connected (f : Factory) : Prop := f.options.persistent = true →
  ∃ datasource number, f.connector = some (.memory datasource number)

/-- The factory was bound to the actions that another opened, if its model is stored. -/
def BoundBy (f source : Factory) : Prop := ∃ store binding,
  source.openActions store = .ok binding ∧
    f.actions? = if f.options.persistent then binding else none

end Factory

namespace Registry

/-- What compiling and setting up have to do with links: every factory is registered under its name,
only a linked one stands for another, which is not linked, and the actions of a factory are those
that the one which it stands for opened, or it itself. -/
structure Linking (r : Registry) : Prop where
  /-- The registry is there. -/
  alive : r.alive = true
  /-- Every factory is registered under its name. -/
  registered : r.registered = (r.made.map Factory.name).zipIdx
  /-- The names are different. -/
  nodup : (r.made.map Factory.name).Nodup
  /-- The models are stored in memory, if at all. -/
  connected : ∀ f ∈ r.made, f.Connected
  /-- Only a linked factory stands for another. -/
  own : ∀ f ∈ r.made, f.isLinked = false → f.link? = none
  /-- What a factory stands for is there, and not linked. -/
  linked : ∀ f ∈ r.made, ∀ name, f.link? = some name →
    ∃ target ∈ r.made, target.name = name ∧ target.isLinked = false
  /-- A factory that was set up has a schema, and actions of what it stands for. -/
  bound : ∀ f ∈ r.made, f.isInitialized = true → f.isCompiled = true ∧
    ∃ source ∈ r.made, source.name = f.link?.getD f.name ∧ f.BoundBy source

/-- A factory that keeps its name leaves the names as they are. -/
theorem map_name_update {r : Registry} {number : Nat} {f f' : Factory}
    (hf : r.made[number]? = some f) (hname : f'.name = f.name) :
    (r.update number f').made.map Factory.name = r.made.map Factory.name := by
  show (r.made.set number f').map Factory.name = _
  rw [List.map_set, hname]
  apply List.ext_getElem?
  intro k
  rw [List.getElem?_set]
  split
  · rename_i hk
    subst hk
    obtain ⟨hlt, hget⟩ := List.getElem?_eq_some_iff.mp hf
    simp [hlt, hget]
  · rfl

namespace Linking

variable {r : Registry}

theorem blank (validators : KeyMap Validator) : Linking { validators := validators } where
  alive := rfl
  registered := rfl
  nodup := .nil
  connected _ hf := nomatch hf
  own _ hf := nomatch hf
  linked _ hf := nomatch hf
  bound _ hf := nomatch hf

/-- The registry is as if all factories had been added to one without any. -/
theorem eq_extend (h : r.Linking) :
    r = Registry.extend { r with made := [], registered := [] } r.made := by
  have hreg : (r.made.zipIdx 0).map (fun p => (p.1.name, p.2)) = r.registered := by
    rw [h.registered, List.zipIdx_map]
    rfl
  simp [Registry.extend, hreg]

/-- Factories are found by their names. -/
theorem find?_eq_some_iff (h : r.Linking) (name : String) (f : Factory) :
    r.find? name = some f ↔ f ∈ r.made ∧ f.name = name := by
  rw [h.eq_extend, find?_extend_eq_some_iff (fun p hp => by cases hp)
    ⟨h.nodup, fun name _ => rfl⟩]
  simp [Registry.find?, number?, Registry.extend]

/-- One name is that of one factory. -/
theorem eq_of_name (h : r.Linking) {f g : Factory} (hf : f ∈ r.made) (hg : g ∈ r.made)
    (hname : f.name = g.name) : f = g :=
  List.inj_on_of_nodup_map h.nodup hf hg hname

/-- One more factory, which has nothing yet. -/
theorem extend (h : r.Linking) {f : Factory} (hname : r.contains f.name = false)
    (hlink : f.link? = none) (hruntime : f.runtime? = none) (hconn : f.Connected) :
    (r.extend [f]).Linking where
  alive := h.alive
  registered := by
    simp [Registry.extend, h.registered, List.zipIdx_append]
  nodup := by
    have hnew : f.name ∉ r.made.map Factory.name := by
      intro hmem
      rw [contains_eq] at hname
      have hnames : r.names = r.made.map Factory.name := by
        unfold names
        rw [h.registered, List.zipIdx_map_fst]
      rw [hnames, List.contains_iff_mem.mpr hmem] at hname
      cases hname
    simp only [Registry.extend, List.map_append, List.map_cons, List.map_nil]
    exact (List.nodup_append_comm.mp (List.nodup_cons.mpr ⟨hnew, h.nodup⟩))
  connected g hg := by
    rcases List.mem_append.mp hg with hg | hg
    · exact h.connected g hg
    · rwa [List.mem_singleton.mp hg]
  own g hg hl := by
    rcases List.mem_append.mp hg with hg | hg
    · exact h.own g hg hl
    · rwa [List.mem_singleton.mp hg]
  linked g hg name hl := by
    rcases List.mem_append.mp hg with hg | hg
    · obtain ⟨target, ht, hrest⟩ := h.linked g hg name hl
      exact ⟨target, List.mem_append_left _ ht, hrest⟩
    · rw [List.mem_singleton.mp hg, hlink] at hl
      cases hl
  bound g hg hi := by
    rcases List.mem_append.mp hg with hg | hg
    · obtain ⟨hc, source, hs, hrest⟩ := h.bound g hg hi
      exact ⟨hc, source, List.mem_append_left _ hs, hrest⟩
    · rw [List.mem_singleton.mp hg, Factory.isInitialized, hruntime] at hi
      cases hi

/-- One factory is changed to one that is akin to it. -/
theorem update (h : r.Linking) {number : Nat} {f f' : Factory} (hf : r.made[number]? = some f)
    (hakin : f.Akin f') (hown : f'.isLinked = false → f'.link? = none)
    (hlinked : ∀ name, f'.link? = some name →
      ∃ target ∈ r.made, target.name = name ∧ target.isLinked = false)
    (hbound : f'.isInitialized = true → f'.isCompiled = true ∧
      ∃ source ∈ r.made, source.name = f'.link?.getD f'.name ∧ f'.BoundBy source) :
    (r.update number f').Linking := by
  have hnames := map_name_update hf hakin.name
  -- whatever was there is there still, or what it was changed to
  have hthere : ∀ g ∈ r.made, ∃ g' ∈ (r.update number f').made, g.Akin g' := by
    intro g hg
    obtain ⟨k, hk⟩ := List.getElem?_of_mem hg
    by_cases hn : number = k
    · subst hn
      cases hf.symm.trans hk
      obtain ⟨hlt, -⟩ := List.getElem?_eq_some_iff.mp hf
      exact ⟨f', List.mem_of_getElem? (List.getElem?_set_self hlt), hakin⟩
    · exact ⟨g, List.mem_of_getElem? ((List.getElem?_set_ne hn).trans hk), .refl g⟩
  have hlinked' : ∀ name,
      (∃ target ∈ r.made, target.name = name ∧ target.isLinked = false) →
        ∃ target ∈ (r.update number f').made, target.name = name ∧ target.isLinked = false := by
    rintro name ⟨target, ht, rfl, hl⟩
    obtain ⟨target', ht', ha⟩ := hthere target ht
    exact ⟨target', ht', ha.name, ha.isLinked.trans hl⟩
  have hbound' : ∀ g : Factory, (∃ source ∈ r.made, source.name = g.link?.getD g.name ∧
      g.BoundBy source) → ∃ source ∈ (r.update number f').made,
        source.name = g.link?.getD g.name ∧ g.BoundBy source := by
    rintro g ⟨source, hs, hname, store, binding, hopen, hactions⟩
    obtain ⟨source', hs', ha⟩ := hthere source hs
    exact ⟨source', hs', ha.name.trans hname, store, binding, (ha.openActions store).trans hopen,
      hactions⟩
  refine ⟨h.alive, ?_, ?_, ?_, ?_, ?_, ?_⟩
  case refine_1 =>
    rw [hnames]
    exact h.registered
  case refine_2 =>
    rw [hnames]
    exact h.nodup
  all_goals
    intro g hg
    rcases List.mem_or_eq_of_mem_set hg with hg | rfl
  · exact h.connected g hg
  · intro hp
    rw [hakin.connector]
    exact h.connected f (List.mem_of_getElem? hf) (by rw [← hakin.options]; exact hp)
  · exact h.own g hg
  · exact hown
  · exact fun name hl => hlinked' name (h.linked g hg name hl)
  · exact fun name hl => hlinked' name (hlinked name hl)
  · exact fun hi => ⟨(h.bound g hg hi).1, hbound' g (h.bound g hg hi).2⟩
  · exact fun hi => ⟨(hbound hi).1, hbound' _ (hbound hi).2⟩

end Linking

end Registry

/-! ### Compiling -/

/-- A model that is compiled is numbered by the place of its draft. -/
theorem Draft.mem_numbered {n : Nat} {ds : List Draft} {m : Enrolled} (hm : m ∈ numbered n ds) :
    ∃ (k : Nat) (d : Draft), ds[k]? = some d ∧ m = d.enrolledAt (n + k) := by
  induction ds generalizing n with
  | nil => cases hm
  | cons d rest ih =>
    rcases List.mem_cons.mp hm with rfl | hm
    · exact ⟨0, d, rfl, rfl⟩
    · obtain ⟨k, d', hk, rfl⟩ := ih hm
      refine ⟨k + 1, d', hk, ?_⟩
      rw [Nat.add_assoc, Nat.add_comm 1 k]

namespace Enrolled

/-- A factory of a loaded model is connected, and has nothing yet. -/
theorem connected_of_factoryOf {connectors : Connectors} {defaultDatasource : String}
    (hm : ∀ p ∈ connectors, p.2.isMemory = true) {m : LoadedModel} {said : ClassMetadata}
    {f : Factory} (h : factoryOf connectors defaultDatasource m said = .ok f) : f.Connected := by
  intro hp
  obtain ⟨c, hc⟩ := Option.isSome_iff_exists.mp (connector_of_factoryOf h hp)
  obtain ⟨-, -, -, hfound⟩ := factoryOf_eq_ok h
  have hmemory := hm _ (KeyMap.mem_of_get? (hfound.symm.trans hc))
  cases c with
  | memory datasource number => exact ⟨datasource, number, hc⟩
  | external c => cases hmemory

theorem linking_enroll {connectors : Connectors} (hm : ∀ p ∈ connectors, p.2.isMemory = true)
    (defaultDatasource : String) (m : LoadedModel) :
    Preserves Registry.Linking (enroll connectors defaultDatasource m) := by
  intro r hr
  rw [enroll_eq]
  split
  · exact hr
  · exact hr
  · rename_i d hd
    split
    · exact hr
    · rename_i hname
      obtain ⟨said, -, hf, -⟩ := Draft.ofModel?_eq_ok_iff.mp hd
      obtain ⟨-, hlink, hruntime, -⟩ := factoryOf_eq_ok hf
      exact hr.extend (by simpa using hname) hlink hruntime (connected_of_factoryOf hm hf)

/-- The second pass runs in a registry that has the factories of the models. -/
structure LinkingFor (ms : List Enrolled) (r : Registry) : Prop where
  /-- The registry is in order. -/
  linking : r.Linking
  /-- The factories have the options that the models say. -/
  options : ∀ m ∈ ms, ∀ f, r.made[m.number]? = some f → f.options = m.factory.options

/-- A change in the second pass gives a factory a schema that it had not, and perhaps what it stands
for. -/
theorem LinkingFor.change {ms : List Enrolled} {r : Registry} (hr : LinkingFor ms r) {number : Nat}
    {g : Factory → Except ConfigError Factory}
    (hg : ∀ f f', r.made[number]? = some f → g f = .ok f' → f.schema? = none ∧ f.Akin f' ∧
      f'.runtime? = f.runtime? ∧ (f'.isLinked = false → f'.link? = none) ∧
      ∀ name, f'.link? = some name →
        ∃ target ∈ r.made, target.name = name ∧ target.isLinked = false) :
    LinkingFor ms (stateLeft (change number g r)) := by
  unfold Enrolled.change
  cases hf : r.made[number]? with
  | none => exact hr
  | some f =>
    dsimp only
    cases hgf : g f with
    | error e => exact hr
    | ok f' =>
      obtain ⟨hschema, hakin, hruntime, hown, hlinked⟩ := hg f f' hf hgf
      have hmem := List.mem_of_getElem? hf
      constructor
      · -- a factory without a schema was not set up
        refine hr.linking.update hf hakin hown hlinked fun hi => ?_
        have hi' : f.isInitialized = true := by
          unfold Factory.isInitialized at hi ⊢
          rwa [hruntime] at hi
        have hcompiled := (hr.linking.bound f hmem hi').1
        rw [Factory.isCompiled, hschema] at hcompiled
        cases hcompiled
      · intro m hm f₁ hf₁
        have hf₁ : (r.made.set number f')[m.number]? = some f₁ := hf₁
        by_cases hn : number = m.number
        · subst hn
          obtain ⟨hlt, -⟩ := List.getElem?_eq_some_iff.mp hf
          rw [List.getElem?_set_self hlt] at hf₁
          cases hf₁
          exact hakin.options.trans (hr.options m hm f hf)
        · rw [List.getElem?_set_ne hn] at hf₁
          exact hr.options m hm f₁ hf₁

/-- A schema is installed where there was none. -/
theorem installSchema_eq_ok_iff {f f' : Factory} {s : ModelSchema} :
    f.installSchema s = .ok f' ↔ f.schema? = none ∧ f' = { f with schema? := some s } := by
  unfold Factory.installSchema
  cases f.schema? with
  | none => simp [eq_comm]
  | some s' => simp

theorem link_eq_ok_iff {f f' : Factory} {name : String} :
    f.link name = .ok f' ↔ f.link? = none ∧ f' = { f with link? := some name } := by
  unfold Factory.link
  cases f.link? with
  | none => simp [eq_comm]
  | some name' => simp

theorem linking_compileSchema {ms : List Enrolled} (classes : KeyMap ClassDecl) (ctx : TypeContext)
    {m : Enrolled} : Preserves (LinkingFor ms) (compileSchema classes ctx m) := by
  intro r hr
  refine hr.change fun f f' hf h => ?_
  obtain ⟨s, -, h⟩ := andThen_eq_ok_iff.mp h
  obtain ⟨hnone, rfl⟩ := installSchema_eq_ok_iff.mp h
  have hmem := List.mem_of_getElem? hf
  exact ⟨hnone, ⟨rfl, rfl, rfl⟩, rfl, hr.linking.own f hmem, hr.linking.linked f hmem⟩

theorem linking_compileLink {ms : List Enrolled} (ctx : TypeContext) {m : Enrolled} (hm : m ∈ ms)
    (hl : m.factory.isLinked = true) : Preserves (LinkingFor ms) (compileLink ctx m) := by
  intro r hr
  unfold compileLink
  cases ht : linkTarget ctx r m with
  | error e => exact hr
  | ok target =>
    obtain ⟨hfind, hown, -⟩ := linkTarget_eq_ok_iff.mp ht
    refine hr.change fun f f' hf h => ?_
    obtain ⟨f₁, hf₁, h⟩ := andThen_eq_ok_iff.mp h
    obtain ⟨hnone, rfl⟩ := installSchema_eq_ok_iff.mp h
    obtain ⟨-, rfl⟩ := link_eq_ok_iff.mp hf₁
    refine ⟨hnone, ⟨rfl, rfl, rfl⟩, rfl, fun hnot => ?_, fun name hname => ?_⟩
    · have hoptions := hr.options m hm f hf
      have hlinked : f.isLinked = true := by
        unfold Factory.isLinked at hl ⊢
        rwa [hoptions]
      exact absurd (hlinked.symm.trans hnot) nofun
    · cases hname
      exact ⟨target, Registry.mem_made_of_find? hfind, rfl, hown⟩

end Enrolled

open Enrolled in
/-- Compiling models over databases in memory keeps links in order, whether it succeeds or not. -/
theorem linking_compile {connectors : Connectors} (hm : ∀ p ∈ connectors, p.2.isMemory = true)
    (defaultDatasource : String) (loaded : LoadedSources) :
    Preserves Registry.Linking (compile connectors defaultDatasource loaded) := by
  intro r hr
  have hfirst := Preserves.mapM (linking_enroll hm defaultDatasource) loaded.models r hr
  unfold compile
  rw [bind_apply]
  cases hes : loaded.models.mapM (enroll connectors defaultDatasource) r with
  | error e r₁ =>
    rw [hes] at hfirst
    exact hfirst
  | ok es r₁ =>
    rw [hes] at hfirst
    obtain ⟨ds, -, -, hms, hr₁⟩ := (mapM_enroll_iff connectors defaultDatasource loaded.models
      _ r r₁).mp ⟨es, hes, rfl⟩
    have hstart : LinkingFor (es.filterMap id) r₁ := by
      refine ⟨hfirst, fun m hm f hf => ?_⟩
      rw [hms] at hm
      obtain ⟨k, d, hd, rfl⟩ := Draft.mem_numbered hm
      rw [hr₁, show (d.enrolledAt (r.made.length + k)).number = r.made.length + k from rfl,
        Registry.getElem?_made_extend, List.getElem?_map, hd] at hf
      cases hf
      rfl
    have hsecond : Preserves (LinkingFor (es.filterMap id)) (do
        ((es.filterMap id).filter (!·.factory.isLinked)).forM
          (compileSchema loaded.classes (context (es.filterMap id) r₁))
        ((es.filterMap id).filter (·.factory.isLinked)).forM
          (compileLink (context (es.filterMap id) r₁))
        pure ((es.filterMap id).map number)) := by
      refine (Preserves.forM (fun _ => linking_compileSchema loaded.classes _) _).bind fun _ =>
        (Preserves.forM_of_mem fun m hm => ?_).bind fun _ => preserves_pure _
      exact linking_compileLink _ (List.mem_of_mem_filter hm) (List.mem_filter.mp hm).2
    exact (hsecond r₁ hstart).linking

/-! ### Setting up -/

namespace Registry

variable {r : Registry} {f f' source : Factory}

/-- The factory whose records a factory uses has the name that the factory stands for, or its
own. -/
theorem Linking.of_source (h : r.Linking) (hf : f ∈ r.made) (hs : r.source f = .ok source) :
    source ∈ r.made ∧ source.name = f.link?.getD f.name := by
  unfold Registry.source at hs
  cases hl : f.link? with
  | none =>
    rw [hl] at hs
    cases hs
    exact ⟨hf, rfl⟩
  | some name =>
    cases hfind : r.find? name with
    | none => simp [hl, resolve, h.alive, hfind] at hs
    | some target =>
      simp only [hl, resolve, h.alive, if_true, hfind, Except.ok.injEq] at hs
      subst hs
      exact (h.find?_eq_some_iff name target).mp hfind

/-- A factory that is set up is bound to the actions of what it stands for. -/
theorem Linking.setup (h : r.Linking) {number : Nat} {store : Store}
    (hf : r.made[number]? = some f) (hset : r.setup store f = .ok f') :
    (r.update number f').Linking := by
  have hmem := List.mem_of_getElem? hf
  obtain ⟨_, binding, hmap, hopen, hinit⟩ := setup_eq_ok_iff.mp hset
  obtain ⟨source, hsource, rfl⟩ := map_eq_ok_iff.mp hmap
  obtain ⟨schema, fields, hschema, -, rfl⟩ := init_eq_ok hinit
  obtain ⟨hsm, hname⟩ := h.of_source hmem hsource
  refine h.update hf ⟨rfl, rfl, rfl⟩ (h.own f hmem) (h.linked f hmem) fun _ => ?_
  have hcompiled : f.isCompiled = true := by
    rw [Factory.isCompiled, hschema]
    rfl
  exact ⟨hcompiled, source, hsm, hname, store, binding, hopen, rfl⟩

end Registry

theorem linking_setup (number : Nat) :
    Preserves (fun server : Server => server.registry.Linking) (Server.setup number) := by
  intro server hs
  unfold Server.setup
  cases hf : server.registry.made[number]? with
  | none => exact hs
  | some f =>
    dsimp only
    cases hset : server.registry.setup server.store f with
    | error e => exact hs
    | ok f' => exact Registry.Linking.setup hs hf hset

/-- The registry was made by compiling models over databases in memory and by setting factories up,
each with or without success. -/
inductive Registry.Established : Registry → Prop where
  /-- There are no factories. -/
  | blank (validators : KeyMap Validator) : Established { validators := validators }
  /-- Models were compiled. -/
  | compiled {r : Registry} (h : Established r) {connectors : Connectors}
      (hm : ∀ p ∈ connectors, p.2.isMemory = true) (defaultDatasource : String)
      (loaded : LoadedSources) :
      Established (stateLeft (compile connectors defaultDatasource loaded r))
  /-- A factory was set up. -/
  | setUp {server : Server} (h : Established server.registry) (number : Nat) :
      Established (stateLeft (Server.setup number server)).registry

/-- **Links are in order** in every registry that was made by compiling and setting up. -/
theorem Registry.Established.linking {r : Registry} (h : r.Established) : r.Linking := by
  induction h with
  | blank validators => exact .blank validators
  | compiled _ hm defaultDatasource loaded ih =>
    exact linking_compile hm defaultDatasource loaded _ ih
  | setUp _ number ih => exact linking_setup number _ ih

/-! ### Actions of linked models -/

namespace Factory

/-- A stored model has the actions of a stored one that it stands for, on the collection of that. -/
theorem BoundBy.actions?_eq {f source : Factory} (h : f.BoundBy source) {datasource : String}
    {number : Nat} (hc : source.connector = some (.memory datasource number))
    (hp : f.options.persistent = true) (hp' : source.options.persistent = true) :
    f.actions? = some (.memory number source.name) := by
  obtain ⟨store, binding, hopen, hactions⟩ := h
  rw [hp, if_pos rfl] at hactions
  unfold openActions at hopen
  rw [hc, hp'] at hopen
  unfold Connector.actions at hopen
  dsimp only at hopen
  split at hopen
  · rename_i actions hok
    split at hok
    · cases hok
      cases hopen
      exact hactions
    · cases hok
  · cases hopen

/-- The actions of a model are on the collection of what it stands for. -/
theorem BoundBy.exists_memory {f source : Factory} (h : f.BoundBy source)
    (hc : source.Connected) {actions : Actions} (ha : f.actions? = some actions) :
    ∃ number, actions = .memory number source.name := by
  obtain ⟨store, binding, hopen, hactions⟩ := h
  rw [ha] at hactions
  split at hactions
  · subst hactions
    have hp : source.options.persistent = true := by
      unfold openActions at hopen
      split at hopen
      · assumption
      · cases hopen
    obtain ⟨datasource, number, hconn⟩ := hc hp
    obtain ⟨-, number', -, he, -⟩ := Registry.openActions_eq_ok (fun c hcc => by
      rw [hconn] at hcc
      cases hcc
      rfl) hopen
    exact ⟨number', he⟩
  · cases hactions

end Factory

namespace Registry

variable {r : Registry} {f target : Factory}

/-- The actions of a model are on the collection that it stands for, or on its own. -/
theorem Linking.exists_memory (h : r.Linking) (hf : f ∈ r.made) {actions : Actions}
    (ha : f.actions? = some actions) :
    ∃ number, actions = .memory number (f.link?.getD f.name) := by
  have hi : f.isInitialized = true := by
    unfold Factory.actions? at ha
    obtain ⟨runtime, hruntime, -⟩ := Option.bind_eq_some_iff.mp ha
    rw [Factory.isInitialized, hruntime]
    rfl
  obtain ⟨-, source, hs, hname, hbound⟩ := h.bound f hf hi
  rw [← hname]
  exact hbound.exists_memory (h.connected source hs) ha

/-- A model that stands for another leaves no model with actions on a collection of its name. -/
theorem Linking.maintains_none (h : r.Linking) (hf : f ∈ r.made) (hl : f.isLinked = true)
    (hlink : f.link? ≠ none) (number : Nat) {g : Factory} (hg : g ∈ r.made) :
    g.Maintains fun s => s.records number f.name = [] := by
  intro actions ha
  obtain ⟨number', rfl⟩ := h.exists_memory hg ha
  refine Actions.maintains_records (fun hsame => ?_) []
  have hname := hsame.2
  cases hgl : g.link? with
  | none =>
    rw [hgl] at hname
    exact hlink (h.eq_of_name hg hf hname ▸ hgl)
  | some name =>
    rw [hgl] at hname
    obtain ⟨target, ht, rfl, hown⟩ := h.linked g hg name hgl
    rw [h.eq_of_name ht hf hname, hl] at hown
    cases hown

/-- Nothing is stored under the name of a model that stands for another. -/
theorem Linking.records_eq_nil (h : r.Linking) (hf : f ∈ r.made) (hl : f.isLinked = true)
    (hlink : f.link? ≠ none) {s s' : Store} (hleads : r.Leads s s') (number : Nat)
    (hs : s.records number f.name = []) : s'.records number f.name = [] := by
  refine hleads.preserves (fun g hg => h.maintains_none hf hl hlink number hg)
    (fun s number' hs => ?_) hs
  rcases s.records_reset number' number f.name with hsame | hnone
  · exact hsame.trans hs
  · exact hnone

end Registry

/-! ### What a linked model is -/

/-- The factory stands for the other. -/
structure Registry.StandsFor (r : Registry) (f target : Factory) : Prop where
  /-- The other is registered under the collection that the factory is linked to. -/
  found : r.find? target.name = some target
  /-- The factory is linked to this collection. -/
  link : f.link? = some target.name
  /-- The other is not linked. -/
  own : target.isLinked = false
  /-- Both have the same schema. -/
  schema : ∃ s, f.schema? = some s ∧ target.schema? = some s
  /-- If both are stored and the other is set up too, they have the same actions, on the collection
  of the other. -/
  actions : f.options.persistent = true → target.options.persistent = true →
    target.isInitialized = true → ∃ number, f.actions? = some (.memory number target.name) ∧
      target.actions? = some (.memory number target.name)

namespace Registry.StandsFor

variable {r : Registry} {f target : Factory}

/-- What is done through either is done through the other. -/
theorem runs_eq (h : r.StandsFor f target) (hp : f.options.persistent = true)
    (hp' : target.options.persistent = true) (hi : target.isInitialized = true)
    {steps : List (Factory × Action)} (hsteps : ∀ p ∈ steps, p.1 = f ∨ p.1 = target)
    (s : Store) : Factory.runs s steps = Factory.runs s (steps.map fun p => (target, p.2)) := by
  obtain ⟨number, hf, ht⟩ := h.actions hp hp' hi
  induction steps generalizing s with
  | nil => rfl
  | cons p rest ih =>
    obtain ⟨g, act⟩ := p
    have hg : g.actions? = target.actions? := by
      rcases hsteps (g, act) (List.mem_cons_self ..) with he | he
      · rw [show g = f from he, hf, ht]
      · rw [show g = target from he]
    have hrest := ih (fun p hp => hsteps p (List.mem_cons_of_mem _ hp)) (g.act s act).2
    simp only [List.map_cons, Factory.runs]
    rw [hrest, Factory.act_congr hg]

end Registry.StandsFor

/-! ### Models that were compiled and set up -/

/-- A model that is marked as one has a draft. -/
theorem Draft.exists_mem_ofModels {connectors : Connectors} {defaultDatasource : String}
    {models : List LoadedModel} {ds : List Draft}
    (h : ofModels connectors defaultDatasource models = .ok ds) {m : LoadedModel} (hm : m ∈ models)
    {said : ClassMetadata} (hsaid : classMetadata? m.decl = .ok (some said)) :
    ∃ d ∈ ds, d.factory.name = said.collection ∧ d.factory.cls = m.cls ∧ d.decl = m.decl := by
  unfold ofModels at h
  obtain ⟨os, hos, rfl⟩ := map_eq_ok_iff.mp h
  obtain ⟨o, ho, hmo⟩ := exists_right_of_forall₂ ((mapM_eq_ok_iff _ _ _).mp hos) hm
  unfold ofModel? at hmo
  rw [hsaid] at hmo
  obtain ⟨f, hf, rfl⟩ := map_eq_ok_iff.mp hmo
  refine ⟨_, List.mem_filterMap.mpr ⟨_, ho, rfl⟩, ?_⟩
  unfold Enrolled.factoryOf at hf
  dsimp only at hf
  split at hf
  · cases hf
  · cases hf
    exact ⟨rfl, rfl, rfl⟩

/-- Models were compiled into a registry, and their factories set up. -/
structure Introduced (classes : KeyMap ClassDecl) (models : List LoadedModel) (r r' r'' : Registry)
    (numbers : List Nat) (ds : List Draft) (fs fs' : List Factory) : Prop where
  /-- The factories are what the drafts became. -/
  finished : ∃ ctx, List.Forall₂ (Finished classes ctx r') ds fs
  /-- The drafts are those of the models. -/
  drafts : ∃ connectors defaultDatasource,
    Draft.ofModels connectors defaultDatasource models = .ok ds
  /-- The registry has the factories. -/
  compiled : r' = r.extend fs
  /-- Those that were set up are in their places. -/
  setUp : r'' = { r' with made := r.made ++ fs' }
  /-- Each was set up. -/
  each : ∃ store, List.Forall₂ (fun f f' => r'.setup store f = .ok f') fs fs'
  /-- The numbers are those of the factories. -/
  numbers : numbers = List.range' r.made.length fs.length

theorem introduced_of_setup {connectors : Connectors} {defaultDatasource : String}
    {loaded : LoadedSources} {r : Registry} {numbers : List Nat} {server server' : Server}
    (hcompile : compile connectors defaultDatasource loaded r = .ok numbers server.registry)
    (hsetup : numbers.forM Server.setup server = .ok () server') :
    ∃ ds fs fs', Introduced loaded.classes loaded.models r server.registry server'.registry numbers
      ds fs fs' := by
  obtain ⟨ds, hds, -, fs, hfs, hr, rfl⟩ := compile_eq_ok_iff.mp hcompile
  have hmade : server.registry.made = r.made ++ fs := by
    rw [hr]
    rfl
  rw [hfs.length_eq] at hsetup
  obtain ⟨fs', hfs', rfl⟩ := Server.forM_setup_eq_ok ⟨rfl, rfl, rfl, rfl⟩ hmade hsetup
  exact ⟨ds, fs, fs', ⟨_, hfs⟩, ⟨connectors, defaultDatasource, hds⟩, hr, rfl, ⟨_, hfs'⟩,
    by rw [hfs.length_eq]⟩

namespace Introduced

variable {classes : KeyMap ClassDecl} {models : List LoadedModel} {r r' r'' : Registry}
  {numbers : List Nat} {ds : List Draft} {fs fs' : List Factory}

theorem agrees (h : Introduced classes models r r' r'' numbers ds fs fs') : r'.Agrees r'' := by
  obtain ⟨store, hfs'⟩ := h.each
  rw [h.setUp]
  refine ⟨?_, rfl, rfl, rfl⟩
  rw [h.compiled]
  simp only [Registry.extend, List.map_append, Registry.map_bare_setup hfs']

/-- A factory of one of the numbers was set up from what a draft became. -/
theorem exists_finished (h : Introduced classes models r r' r'' numbers ds fs fs') {number : Nat}
    (hn : number ∈ numbers) {f' : Factory} (hf' : r''.made[number]? = some f') :
    f'.isInitialized = true ∧ ∃ ctx d f, Finished classes ctx r' d f ∧ d ∈ ds ∧ f ∈ fs ∧
      f'.bare = f.bare := by
  obtain ⟨store, hset⟩ := h.each
  obtain ⟨ctx, hfin⟩ := h.finished
  rw [h.numbers] at hn
  obtain ⟨k, hk, rfl⟩ := List.mem_range'.mp hn
  rw [h.setUp, Nat.one_mul, List.getElem?_append_right (Nat.le_add_right ..),
    Nat.add_sub_cancel_left] at hf'
  obtain ⟨hk', rfl⟩ := List.getElem?_eq_some_iff.mp hf'
  have hsetk := hset.get hk hk'
  have hkd : k < ds.length := by
    rw [hfin.length_eq]
    exact hk
  refine ⟨?_, ctx, ds[k], fs[k], hfin.get hkd hk, List.getElem_mem hkd, List.getElem_mem hk,
    Registry.bare_setup hsetk⟩
  obtain ⟨_, _, -, -, hinit⟩ := Registry.setup_eq_ok_iff.mp hsetk
  obtain ⟨_, _, -, -, he⟩ := Registry.init_eq_ok hinit
  rw [show fs'[k] = _ from he]
  rfl

/-- What a linked factory stands for was found when it was compiled. -/
theorem exists_standsFor (h : Introduced classes models r r' r'' numbers ds fs fs')
    (hr' : r'.Linking) (hr'' : r''.Linking) {number : Nat} (hn : number ∈ numbers) {f' : Factory}
    (hf' : r''.made[number]? = some f') (hl : f'.isLinked = true) :
    ∃ target, r''.StandsFor f' target := by
  obtain ⟨hinitialized, ctx, d, f, hfin, -, -, hbare⟩ := h.exists_finished hn hf'
  have hmem' := List.mem_of_getElem? hf'
  cases hfin with
  | own hown =>
    have hnot : f'.isLinked = false := (Factory.akin_of_bare hbare).isLinked.trans hown
    exact absurd (hl.symm.trans hnot) nofun
  | @linked target _ hfind hown hcompiled =>
    have hname := ((hr'.find?_eq_some_iff _ _).mp hfind).2
    -- the target was set up, or it is as it was
    have hfind' := h.agrees.find? target.name
    rw [hname, hfind] at hfind'
    obtain ⟨target', htarget', hbare'⟩ := Option.map_eq_some_iff.mp hfind'.symm
    have hakin := Factory.akin_of_bare hbare'
    rw [← hname, ← hakin.name] at htarget'
    obtain ⟨s, hs⟩ := Option.isSome_iff_exists.mp hcompiled
    have hschema : target.schema = s := by
      unfold Factory.schema
      rw [hs]
      rfl
    have hlink : f'.link? = some target'.name := by
      rw [show f'.link? = some target.name from congrArg Factory.link? hbare, hakin.name]
    have hmem := Registry.mem_made_of_find? htarget'
    have hown' := hakin.isLinked.trans hown
    refine ⟨target', htarget', hlink, hown', ⟨s, ?_, (congrArg Factory.schema? hbare' :).trans hs⟩,
      fun hp hp' hi => ?_⟩
    · rw [show f'.schema? = some target.schema from congrArg Factory.schema? hbare, hschema]
    · -- both were bound to what the target opens
      obtain ⟨datasource, n, hconn⟩ := hr''.connected target' hmem hp'
      obtain ⟨-, source, hsource, hsname, hbound⟩ := hr''.bound f' hmem' hinitialized
      obtain ⟨-, source', hsource', hsname', hbound'⟩ := hr''.bound target' hmem hi
      rw [hlink] at hsname
      rw [hr''.own target' hmem hown'] at hsname'
      cases hr''.eq_of_name hsource hmem hsname
      cases hr''.eq_of_name hsource' hmem hsname'
      exact ⟨n, hbound.actions?_eq hconn hp hp', hbound'.actions?_eq hconn hp' hp'⟩

/-- The schema of a model that is not linked is that of its class. -/
theorem exists_ofClass (h : Introduced classes models r r' r'' numbers ds fs fs')
    (hr' : r'.Linking) {target : Factory} (hfind : r''.find? target.name = some target)
    (hown : target.isLinked = false) {m : LoadedModel} (hm : m ∈ models) {said : ClassMetadata}
    (hsaid : classMetadata? m.decl = .ok (some said)) (hname : said.collection = target.name) :
    ∃ ctx s, ModelSchema.ofClass classes ctx m.cls m.decl = .ok s ∧ target.schema? = some s := by
  obtain ⟨connectors, defaultDatasource, hds⟩ := h.drafts
  obtain ⟨ctx, hfin⟩ := h.finished
  obtain ⟨d, hd, hdname, hcls, hdecl⟩ := Draft.exists_mem_ofModels hds hm hsaid
  obtain ⟨f, hf, hfd⟩ := exists_right_of_forall₂ hfin hd
  -- the factory of the draft is the one that was found
  have hfname : f.name = target.name := by
    rw [hfd.agrees]
    exact hdname.trans hname
  have hfind' := h.agrees.find? target.name
  rw [hfind] at hfind'
  obtain ⟨t, ht, hbare⟩ := Option.map_eq_some_iff.mp hfind'
  obtain ⟨htm, htname⟩ := (hr'.find?_eq_some_iff _ _).mp ht
  have hfm : f ∈ r'.made := by
    rw [h.compiled]
    exact List.mem_append_right _ hf
  cases hr'.eq_of_name hfm htm (hfname.trans htname.symm)
  cases hfd with
  | @own s _ hs =>
    refine ⟨ctx, s, ?_, (congrArg Factory.schema? hbare :).symm⟩
    rw [← hcls, ← hdecl]
    exact hs
  | linked hlinked =>
    have hlinked' : target.isLinked = true :=
      ((Factory.akin_of_bare hbare).isLinked.symm.trans hlinked :)
    exact absurd (hlinked'.symm.trans hown) nofun

end Introduced

/-- **A linked model is another one by a second name.** If models are compiled and set up over
databases in memory, then a linked factory among them stands for one that is not linked, and has its
schema, which is that of the other's class. If both are stored, then what is done through their
actions, in whatever order, has the answers, and leaves the store, that it would if all of it were
done through the other's; and nothing is ever stored under the name of the linked factory. -/
theorem linked_standsFor {r : Registry} (hr : r.Established) {connectors : Connectors}
    (hm : ∀ p ∈ connectors, p.2.isMemory = true) {defaultDatasource : String}
    {loaded : LoadedSources} {numbers : List Nat} {server server' : Server}
    (hcompile : compile connectors defaultDatasource loaded r = .ok numbers server.registry)
    (hsetup : numbers.forM Server.setup server = .ok () server') {number : Nat}
    (hn : number ∈ numbers) {f : Factory} (hf : server'.registry.made[number]? = some f)
    (hl : f.isLinked = true) :
    ∃ target, server'.registry.StandsFor f target ∧
      (∀ m ∈ loaded.models, ∀ said, classMetadata? m.decl = .ok (some said) →
        said.collection = target.name → ∃ ctx,
          ModelSchema.ofClass loaded.classes ctx m.cls m.decl = .ok f.schema) ∧
      (∀ k ∈ numbers, server'.registry.made[k]? = some target → target.isInitialized = true) ∧
      (f.options.persistent = true → target.options.persistent = true →
        target.isInitialized = true → ∀ steps : List (Factory × Action),
          (∀ p ∈ steps, p.1 = f ∨ p.1 = target) → ∀ s,
            Factory.runs s steps = Factory.runs s (steps.map fun p => (target, p.2))) ∧
      ∀ s s', server'.registry.Leads s s' → ∀ k, s.records k f.name = [] →
        s'.records k f.name = [] := by
  have hestablished := hr.compiled hm defaultDatasource loaded
  rw [hcompile] at hestablished
  have hr' : server.registry.Linking := hestablished.linking
  have hr'' : server'.registry.Linking := by
    have hkept := Preserves.forM linking_setup numbers server hr'
    rwa [hsetup] at hkept
  obtain ⟨ds, fs, fs', h⟩ := introduced_of_setup hcompile hsetup
  obtain ⟨target, ht⟩ := h.exists_standsFor hr' hr'' hn hf hl
  refine ⟨target, ht, fun m hmodel said hsaid hname => ?_, fun k hk htarget => ?_,
    fun hp hp' hi steps hsteps s => ht.runs_eq hp hp' hi hsteps s, fun s s' hleads k hs => ?_⟩
  · obtain ⟨ctx, s, hs, hts⟩ := h.exists_ofClass hr' ht.found ht.own hmodel hsaid hname
    obtain ⟨s', hfs, hts'⟩ := ht.schema
    cases hts.symm.trans hts'
    refine ⟨ctx, ?_⟩
    unfold Factory.schema
    rw [hfs]
    exact hs
  · exact (h.exists_finished hk htarget).1
  · refine hr''.records_eq_nil (List.mem_of_getElem? hf) hl ?_ hleads k hs
    rw [ht.link]
    exact nofun

namespace Reprinting

/-- A volume stands for a book, and would have a shelf if it were a model of its own. -/
def classes : List ClassDecl :=
  [{ ClassDecl.named "Volume" with
      decorators := [{ name := "model", args := [.ofMembers [("linkedFactory", .string "Book")]] }]
      members := [.property { name := "shelf", type := "string" }] },
    (ClassDecl.model "Book").addMember (.property { name := "title", type := "string" })]

/-- The server with its models compiled. -/
def compiled : Server where
  store := { databases := [{ connected := true }] }
  registry := stateLeft
    (compile Reviewing.connectors memoryDatasource (Reviewing.load classes) {})

theorem memory_connectors : ∀ p ∈ Reviewing.connectors, p.2.isMemory = true := by
  intro p hp
  cases List.mem_singleton.mp hp
  rfl

theorem compiled_eq : compile Reviewing.connectors memoryDatasource (Reviewing.load classes) {} =
    .ok [0, 1] compiled.registry :=
  answer?_eq_some_iff.mp (by decide +kernel)

/-- The server with its models set up. -/
def server : Server := stateLeft ([0, 1].forM Server.setup compiled)

theorem server_eq : [0, 1].forM Server.setup compiled = .ok () server :=
  answer?_eq_some_iff.mp (by decide +kernel)

/-- The factory of volumes. -/
def volumes : Factory := server.factory "Volume"

theorem volumes_made : server.registry.made[0]? = some volumes := by
  have hfound : server.registry.number? "Volume" = some 0 := by decide +kernel
  have hsome : (server.registry.made[0]?).isSome = true := by decide +kernel
  obtain ⟨f, hf⟩ := Option.isSome_iff_exists.mp hsome
  unfold volumes Server.factory Registry.find?
  rw [hfound, Option.bind_some, hf]
  rfl

/-- The factory of books. -/
def books : Factory := server.factory "Book"

/-- A book that is made as a volume. -/
def emma : Action := .create (.object [("_id", .string "b1"), ("title", .string "Emma")]) {}

/-- Volumes are books without a shelf: what is made as a volume is there as a book, and nothing is
there under the name of volumes. -/
theorem volumes_standFor_books : volumes.isLinked = true ∧
    KeyMap.contains volumes.schema.prototype "shelf" = false ∧
    server.registry.StandsFor volumes books ∧
    Factory.runs server.store [(volumes, emma), (books, .read "b1" {})] =
      Factory.runs server.store [(books, emma), (books, .read "b1" {})] ∧
    (volumes.act server.store emma).2.records 0 volumes.name = [] := by
  have hl : volumes.isLinked = true := by decide +kernel
  obtain ⟨target, ht, -, -, hruns, hnone⟩ := linked_standsFor (.blank [])
    memory_connectors compiled_eq server_eq (by decide : 0 ∈ [0, 1]) volumes_made hl
  have hlink : volumes.link? = some "Book" := by decide +kernel
  have htarget : books = target := by
    have hname : target.name = "Book" := Option.some.inj (ht.link.symm.trans hlink)
    have hfound := ht.found
    rw [hname] at hfound
    unfold books Server.factory
    rw [hfound]
    rfl
  subst htarget
  have hbooks : volumes.options.persistent = true ∧ books.options.persistent = true ∧
      books.isInitialized = true := by decide +kernel
  refine ⟨hl, by decide +kernel, ht, hruns hbooks.1 hbooks.2.1 hbooks.2.2 _ ?_ _,
    hnone _ _ (.single (.action (List.mem_of_getElem? volumes_made) emma)) 0 (by decide +kernel)⟩
  intro p hp
  rcases List.mem_cons.mp hp with rfl | hp
  · exact .inl rfl
  · exact .inr (by rw [List.mem_singleton.mp hp])

end Reprinting

end ModelRest
