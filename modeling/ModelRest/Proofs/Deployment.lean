import ModelRest.Server
import ModelRest.Proofs.Compilation
import ModelRest.Proofs.Schemas
import ModelRest.Proofs.Transitions

/-!
# Servers with their models set up

`Server.assemble` loads the sources of a server, compiles the models and sets their factories up, as
starting it does. `Server.Assembled` is a server for which this succeeded, with all its models stored
in memory and nothing stored yet.

What the requests to such a server rely on is `Registry.Deployed`: the registry is there, every model
is stored in a database that there is or not at all, a field that refers to a model leads to a
factory, and two models in one collection have one schema. `Assembled.deployed` derives it from
`compile_eq_ok_iff` and from what setting up does, which depends on the other factories only by what
they were when they were compiled (`setup_congr`).
-/

namespace ModelRest

/-! ### Setting up -/

/-- The factory as it was compiled. -/
def Factory.bare (f : Factory) : Factory := { f with runtime? := none }

namespace Registry

/-- The registries are the same but for what factories are given when they are set up. -/
structure Agrees (r r' : Registry) : Prop where
  made : r.made.map Factory.bare = r'.made.map Factory.bare
  registered : r.registered = r'.registered
  validators : r.validators = r'.validators
  alive : r.alive = r'.alive

variable {r r' : Registry} {store : Store} {f f' : Factory}

theorem Agrees.find? (h : r.Agrees r') (name : String) :
    (r.find? name).map Factory.bare = (r'.find? name).map Factory.bare := by
  unfold Registry.find? number?
  rw [h.registered]
  cases r'.registered.lookup name with
  | none => rfl
  | some number =>
    simp only [Option.bind_some, ← List.getElem?_map]
    rw [h.made]

theorem Agrees.source (h : r.Agrees r') (f : Factory) :
    (r.source f).map Factory.bare = (r'.source f).map Factory.bare := by
  unfold Registry.source
  cases f.link? with
  | none => rfl
  | some name =>
    have hfind := h.find? name
    unfold resolve
    rw [h.alive]
    cases r'.alive with
    | false => rfl
    | true =>
      cases h₁ : r.find? name with
      | none =>
        rw [h₁] at hfind
        have hnone := Option.map_eq_none_iff.mp hfind.symm
        simp only [h₁, hnone]
      | some g =>
        rw [h₁] at hfind
        obtain ⟨g', hg', hb⟩ := Option.map_eq_some_iff.mp hfind.symm
        simp only [h₁, hg', if_true]
        exact congrArg Except.ok hb.symm

/-- What setting a factory up gives it. -/
theorem setup_eq_ok_iff : r.setup store f = .ok f' ↔ ∃ source binding,
    (r.source f).map Factory.bare = .ok source ∧ source.openActions store = .ok binding ∧
      f.init r.sharedValidators binding = .ok f' := by
  unfold setup
  rw [andThen_eq_ok_iff]
  constructor
  · rintro ⟨source, hs, h⟩
    obtain ⟨binding, hb, h⟩ := andThen_eq_ok_iff.mp h
    exact ⟨source.bare, binding, map_eq_ok_iff.mpr ⟨source, hs, rfl⟩, hb, h⟩
  · rintro ⟨_, binding, hs, hb, h⟩
    obtain ⟨source, hsource, rfl⟩ := map_eq_ok_iff.mp hs
    exact ⟨source, hsource, andThen_eq_ok_iff.mpr ⟨binding, hb, h⟩⟩

/-- Setting up does not depend on which other factories are set up. -/
theorem setup_congr (h : r.Agrees r') : r.setup store f = .ok f' ↔ r'.setup store f = .ok f' := by
  rw [setup_eq_ok_iff, setup_eq_ok_iff, h.source]
  have hv : r.sharedValidators = r'.sharedValidators := by
    unfold sharedValidators
    rw [h.validators, h.alive]
  rw [hv]

theorem init_eq_ok {validators : KeyMap Validator} {binding : Option Actions}
    (h : f.init validators binding = .ok f') : ∃ schema fields,
      f.schema? = some schema ∧ f.resolveFields schema = .ok fields ∧
      f' = { f with
        runtime? := some
          { fields := fields, validators := fields.zipIdx.flatMap (f.attach validators),
            binding := if f.options.persistent then binding else none } } := by
  unfold Factory.init at h
  cases hs : f.schema? with
  | none => simp [hs, throw, throwThe, MonadExceptOf.throw] at h
  | some schema =>
    simp only [hs] at h
    split at h
    · cases h
    · obtain ⟨fields, hfields, h⟩ := andThen_eq_ok_iff.mp h
      cases h
      exact ⟨schema, fields, rfl, hfields, rfl⟩

/-- A factory that is set up is what it was when it was compiled. -/
theorem bare_setup (h : r.setup store f = .ok f') : f'.bare = f.bare := by
  obtain ⟨_, _, -, -, h⟩ := setup_eq_ok_iff.mp h
  obtain ⟨_, _, -, -, rfl⟩ := init_eq_ok h
  rfl

theorem map_bare_setup {fs fs' : List Factory}
    (h : List.Forall₂ (fun f f' => r.setup store f = .ok f') fs fs') :
    fs.map Factory.bare = fs'.map Factory.bare := by
  induction h with
  | nil => rfl
  | cons hf _ ih => rw [List.map_cons, List.map_cons, ih, bare_setup hf]

end Registry

namespace Server

/-- Loads the sources of a server, compiles the models and sets their factories up. -/
def assemble : ServerM Unit := do
  let loaded ← load
  let numbers ← onRegistry (compile (← get).connectors (← get).config.defaultDatasource loaded)
  numbers.forM setup

/-- Setting up the factories one after the other sets each up as if it were the only one. -/
theorem forM_setup_eq_ok {r : Registry} {server server' : Server} {before rest : List Factory}
    (hr : r.Agrees server.registry) (hmade : server.registry.made = before ++ rest)
    (h : (List.range' before.length rest.length).forM setup server = .ok () server') :
    ∃ fs, List.Forall₂ (fun f f' => r.setup server.store f = .ok f') rest fs ∧
      server' = { server with registry := { server.registry with made := before ++ fs } } := by
  induction rest generalizing before server with
  | nil =>
    cases h
    rw [List.append_nil] at hmade
    exact ⟨[], .nil, by simp [← hmade]⟩
  | cons f rest ih =>
    have hget : server.registry.made[before.length]? = some f := by simp [hmade]
    have hcons : (List.range' before.length (f :: rest).length).forM setup server =
        (setup before.length >>= fun _ =>
          (List.range' (before.length + 1) rest.length).forM setup) server := rfl
    rw [hcons, bind_eq_ok_iff] at h
    obtain ⟨_, server₁, h₁, h⟩ := h
    unfold setup at h₁
    simp only [hget] at h₁
    cases hf : server.registry.setup server.store f with
    | error e => simp [hf] at h₁
    | ok f' =>
      simp only [hf, EStateM.Result.ok.injEq, true_and] at h₁
      subst h₁
      have hmade' : (server.registry.update before.length f').made = (before ++ [f']) ++ rest := by
        simp [Registry.update, hmade]
      have hagree : r.Agrees (server.registry.update before.length f') := by
        refine ⟨?_, hr.registered, hr.validators, hr.alive⟩
        rw [hmade', hr.made, hmade]
        simp [Registry.bare_setup hf]
      have hlen : before.length + 1 = (before ++ [f']).length := by simp
      rw [hlen] at h
      obtain ⟨fs, hfs, rfl⟩ := ih hagree hmade' h
      exact ⟨f' :: fs, .cons ((Registry.setup_congr hr).mpr hf) hfs, by simp [Registry.update]⟩

end Server

/-! ### What requests rely on -/

/-- What holds of a registry whose models were compiled and set up over databases in memory. -/
structure Registry.Deployed (r : Registry) (store : Store) : Prop where
  /-- The registry is there. -/
  alive : r.alive = true
  /-- Every model is stored in a database that there is, or not at all. -/
  memory : ∀ f ∈ r.made, f.InMemory store.databases.length
  /-- Every model has a field for the identifier. -/
  identified : ∀ f ∈ r.made, ∃ field ∈ f.fields, field.name = idField
  /-- A field comes from an entry of the schema, and all but its visibility is said there. -/
  fields : ∀ f ∈ r.made, ∀ field ∈ f.fields, ∃ entry visibility,
    KeyMap.get? f.schema.prototype field.name = some entry ∧
      field = { Field.ofEntry field.name entry (KeyMap.get? f.schema.references field.name) with
        visibility := visibility }
  /-- A field that refers to a model leads to a factory. -/
  targets : ∀ f ∈ r.made, ∀ field ∈ f.fields, field.isReference = true →
    ∃ target ∈ r.made, r.target f field.name = .ok target
  /-- Two models in one collection have one schema. -/
  shared : ∀ f ∈ r.made, ∀ g ∈ r.made, ∀ actions, f.actions? = some actions →
    g.actions? = some actions → f.schema = g.schema

/-- The connector is the library's own. -/
def Connector.isMemory : Connector → Bool
  | .memory .. => true
  | .external _ => false

/-- The server has loaded its sources, compiled the models and set their factories up, all over
databases in memory that hold no records yet. -/
structure Server.Assembled (server : Server) : Prop where
  /-- It did so without factories at the beginning. -/
  started : ∃ (start : Server) (validators : KeyMap Validator),
    start.registry = { validators := validators } ∧ assemble start = .ok () server
  /-- Its connectors are the library's own. -/
  memory : ∀ p ∈ server.connectors, p.2.isMemory = true
  /-- Nothing is stored. -/
  empty : ∀ number collection, server.store.records number collection = []

/-- Types stand for collections of the drafts or registered ones. -/
theorem Draft.mem_names_of_collection? {r : Registry} {ds : List Draft} {type t : String}
    (h : (context r ds).collection? type = some t) : t ∈ r.names ++ names ds := by
  unfold TypeContext.collection? at h
  rcases Option.or_eq_some_iff.mp h with h | ⟨-, h⟩
  · obtain ⟨d, hd, he⟩ := List.mem_map.mp (KeyMap.mem_of_mem_ofPairs (KeyMap.mem_of_get? h))
    cases he
    exact List.mem_append_right _ (List.mem_map_of_mem hd)
  · split at h
    · rename_i hc
      cases h
      exact List.contains_iff_mem.mp hc
    · cases h

namespace Registry

/-- What holds of the registry that compiling leaves. -/
structure Compiled (connectors : Connectors) (r : Registry) : Prop where
  /-- The registry is there. -/
  alive : r.alive = true
  /-- The factories are found by their names. -/
  found : ∀ name f, r.find? name = some f ↔ f ∈ r.made ∧ f.name = name
  /-- The connectors of the factories are those given. -/
  connector : ∀ f ∈ r.made, ∀ c, f.connector = some c → ∃ p ∈ connectors, p.2 = c
  /-- The schemas are well-formed, and their targets are names of factories. -/
  wellFormed : ∀ f ∈ r.made, f.schema.WellFormed (r.made.map Factory.name)
  /-- A linked factory has the schema of the one it stands for. -/
  linked : ∀ f ∈ r.made, ∀ name, f.link? = some name →
    ∃ target ∈ r.made, target.name = name ∧ f.schema = target.schema

/-- The schema of a factory that is not linked is well-formed. -/
theorem wellFormed_of_finished {classes : KeyMap ClassDecl} {validators : KeyMap Validator}
    {ds : List Draft} {r : Registry} {d : Draft} {f : Factory}
    (h : Finished classes (Draft.context { validators := validators } ds) r d f)
    (hl : f.link? = none) : f.schema.WellFormed (Draft.names ds) := by
  cases h with
  | own _ hs => exact ModelSchema.wellFormed_ofClass (fun _ _ => Draft.mem_names_of_collection?) hs
  | linked => cases hl

/-- A linked factory has the schema of one that is not linked. -/
theorem exists_target_of_finished {classes : KeyMap ClassDecl} {ctx : TypeContext} {r : Registry}
    {ds : List Draft} {fs : List Factory} (hbare : ∀ d ∈ ds, d.IsBare)
    (hfs : List.Forall₂ (Finished classes ctx r) ds fs)
    (hfound : ∀ name f, r.find? name = some f → f ∈ fs) {f : Factory} (hf : f ∈ fs) {name : String}
    (hl : f.link? = some name) :
    ∃ target ∈ fs, target.name = name ∧ f.schema = target.schema ∧ target.link? = none := by
  obtain ⟨d, hd, hfin⟩ := exists_left_of_forall₂ hfs hf
  cases hfin with
  | own =>
    have hnone := (hbare d hd).2
    rw [show d.factory.link? = some name from hl] at hnone
    cases hnone
  | @linked target _ ht hu _ =>
    have htm := hfound _ _ ht
    cases hl
    refine ⟨target, htm, rfl, rfl, ?_⟩
    obtain ⟨d', hd', hfin'⟩ := exists_left_of_forall₂ hfs htm
    cases hfin' with
    | own => exact (hbare d' hd').2
    | linked hlk =>
      rw [show d'.factory.isLinked = false from hu] at hlk
      cases hlk

/-- **What compiling leaves** in a registry without factories. -/
theorem compiled_of_compile {connectors : Connectors} {defaultDatasource : String}
    {loaded : LoadedSources} {validators : KeyMap Validator} {r : Registry} {numbers : List Nat}
    (h : compile connectors defaultDatasource loaded { validators := validators } =
      .ok numbers r) : r.Compiled connectors ∧ numbers = List.range' 0 r.made.length := by
  obtain ⟨ds, hds, hu, fs, hfs, rfl, hnumbers⟩ := compile_eq_ok_iff.mp h
  have hwell : Registry.WellNumbered { validators := validators } := fun p hp => by cases hp
  have hnames := Finished.names hfs
  have hfound : ∀ name f, (Registry.extend { validators := validators } fs).find? name = some f ↔
      f ∈ fs ∧ f.name = name := by
    intro name f
    rw [find?_extend_eq_some_iff hwell (by rwa [hnames])]
    simp [Registry.find?, number?]
  have htarget := @exists_target_of_finished _ _ _ _ _ (Draft.isBare_of_ofModels hds) hfs
    fun name f hf => ((hfound name f).mp hf).1
  have hschema : ∀ f ∈ fs, f.link? = none → f.schema.WellFormed (fs.map Factory.name) := by
    intro f hf hl
    obtain ⟨d, -, hfin⟩ := exists_left_of_forall₂ hfs hf
    rw [hnames]
    exact wellFormed_of_finished hfin hl
  refine ⟨⟨rfl, hfound, fun f hf c hc => ?_, fun f hf => ?_, fun f hf name hl => ?_⟩, ?_⟩
  · obtain ⟨d, hd, hfin⟩ := exists_left_of_forall₂ hfs hf
    obtain ⟨m, -, hmodel⟩ := Draft.mem_ofModels hds hd
    obtain ⟨said, -, hm, -⟩ := Draft.ofModel?_eq_ok_iff.mp hmodel
    obtain ⟨-, -, -, hconn⟩ := Enrolled.factoryOf_eq_ok hm
    rw [hfin.agrees] at hc
    rw [show d.factory.connector = some c from hc] at hconn
    exact ⟨_, KeyMap.mem_of_get? hconn.symm, rfl⟩
  · cases hl : f.link? with
    | none => exact hschema f hf hl
    | some name =>
      obtain ⟨target, htm, -, hs, hl'⟩ := htarget hf hl
      rw [hs]
      exact hschema target htm hl'
  · obtain ⟨target, htm, hname, hs, -⟩ := htarget hf hl
    exact ⟨target, htm, hname, hs⟩
  · rw [hnumbers, hfs.length_eq]
    rfl

/-- The factory whose records a factory uses has the same schema. -/
theorem Compiled.source {connectors : Connectors} {r : Registry} (hc : r.Compiled connectors)
    {f source : Factory} (hf : f ∈ r.made) (h : r.source f = .ok source) :
    source ∈ r.made ∧ f.schema = source.schema := by
  unfold Registry.source at h
  cases hl : f.link? with
  | none =>
    simp only [hl, Except.ok.injEq] at h
    subst h
    exact ⟨hf, rfl⟩
  | some name =>
    obtain ⟨target, htm, hname, hs⟩ := hc.linked f hf name hl
    have hfind := (hc.found name target).mpr ⟨htm, hname⟩
    simp only [hl, resolve, hc.alive, if_true, hfind, Except.ok.injEq] at h
    subst h
    exact ⟨htm, hs⟩

/-- Actions that are opened are those of the connector on the collection of the factory's name. -/
theorem openActions_eq_ok {f : Factory} {store : Store} {actions : Actions}
    (hm : ∀ c, f.connector = some c → c.isMemory = true)
    (h : f.openActions store = .ok (some actions)) :
    ∃ datasource number, f.connector = some (.memory datasource number) ∧
      actions = .memory number f.name ∧ number < store.databases.length := by
  unfold Factory.openActions at h
  split at h
  · rename_i c hconn _
    have hcm := hm c hconn
    cases c with
    | external c => cases hcm
    | memory datasource number =>
      unfold Connector.actions at h
      dsimp only at h
      split at h
      · rename_i hok
        cases h
        split at hok
        · rename_i hconnected
          cases hok
          refine ⟨datasource, number, hconn, rfl, Nat.lt_of_not_le fun hle => ?_⟩
          have hnone : store.database number = {} := by
            unfold Store.database
            rw [List.getElem?_eq_none hle]
            rfl
          simp [Connector.isConnected, hnone] at hconnected
        · cases hok
      · cases h
  · cases h

/-- What setting a compiled factory up makes of it. -/
theorem Compiled.setup {connectors : Connectors} {r : Registry} (hc : r.Compiled connectors)
    (hm : ∀ p ∈ connectors, p.2.isMemory = true) {store : Store} {f f' : Factory}
    (hf : f ∈ r.made) (h : r.setup store f = .ok f') :
    f'.schema = f.schema ∧ f.resolveFields f.schema = .ok f'.fields ∧
      ∀ actions, f'.actions? = some actions → ∃ source ∈ r.made, ∃ number,
        f.schema = source.schema ∧ actions = .memory number source.name ∧
          number < store.databases.length := by
  obtain ⟨_, binding, hmap, hb, hinit⟩ := setup_eq_ok_iff.mp h
  obtain ⟨source, hsource, rfl⟩ := map_eq_ok_iff.mp hmap
  obtain ⟨schema, fields, hs, hfields, rfl⟩ := init_eq_ok hinit
  have hschema : f.schema = schema := by
    unfold Factory.schema
    rw [hs]
    rfl
  refine ⟨rfl, by rw [hschema]; exact hfields, fun actions ha => ?_⟩
  have hbind : (if f.options.persistent then binding else none) = some actions := ha
  split at hbind
  · subst hbind
    obtain ⟨hsm, hss⟩ := hc.source hf hsource
    obtain ⟨-, number, -, rfl, hn⟩ := openActions_eq_ok (fun c hconn => by
      obtain ⟨p, hp, rfl⟩ := hc.connector source hsm c hconn
      exact hm p hp) hb
    exact ⟨source, hsm, number, hss, rfl, hn⟩
  · cases hbind

/-- **What setting the models up leaves.** -/
theorem Compiled.deployed {connectors : Connectors} {r : Registry} (hc : r.Compiled connectors)
    (hm : ∀ p ∈ connectors, p.2.isMemory = true) {store : Store} {fs : List Factory}
    (hfs : List.Forall₂ (fun f f' => r.setup store f = .ok f') r.made fs) :
    Registry.Deployed { r with made := fs } store := by
  have hagree : r.Agrees { r with made := fs } := ⟨map_bare_setup hfs, rfl, rfl, rfl⟩
  refine ⟨hc.alive, fun f' hf' actions ha => ?_, fun f' hf' => ?_, fun f' hf' field hfield => ?_,
    fun f' hf' field hfield href => ?_, fun f' hf' g' hg' actions hfa hga => ?_⟩
  · obtain ⟨f, hf, h⟩ := exists_left_of_forall₂ hfs hf'
    obtain ⟨source, -, number, -, rfl, hn⟩ := (hc.setup hm hf h).2.2 actions ha
    exact ⟨number, source.name, rfl, hn⟩
  · obtain ⟨f, hf, h⟩ := exists_left_of_forall₂ hfs hf'
    have hw := hc.wellFormed f hf
    exact Factory.exists_resolveFields (hc.setup hm hf h).2.1 hw.idField_mem hw.identified
  · obtain ⟨f, hf, h⟩ := exists_left_of_forall₂ hfs hf'
    obtain ⟨hs, hfields, -⟩ := hc.setup hm hf h
    rw [hs]
    exact Factory.mem_resolveFields hfields hfield
  · obtain ⟨f, hf, h⟩ := exists_left_of_forall₂ hfs hf'
    obtain ⟨hs, hfields, -⟩ := hc.setup hm hf h
    obtain ⟨entry, visibility, hentry, he⟩ := Factory.mem_resolveFields hfields hfield
    rw [he] at href
    obtain ⟨name, hname, ht⟩ := (hc.wellFormed f hf).exists_target hentry href
    obtain ⟨target, htm, rfl⟩ := List.mem_map.mp hname
    have hfind := hagree.find? target.name
    rw [(hc.found target.name target).mpr ⟨htm, rfl⟩] at hfind
    obtain ⟨target', hfind', -⟩ := Option.map_eq_some_iff.mp hfind.symm
    refine ⟨target', mem_made_of_find? hfind', ?_⟩
    have htarget : f'.target? field.name = some target.name := by
      unfold Factory.target?
      rw [hs, hentry]
      exact ht
    have hresolve : Registry.resolve { r with made := fs } target.name = .ok target' := by
      unfold resolve
      rw [if_pos hc.alive, hfind']
    simp only [Registry.target, htarget, hresolve]
  · obtain ⟨f, hf, h⟩ := exists_left_of_forall₂ hfs hf'
    obtain ⟨g, hg, h'⟩ := exists_left_of_forall₂ hfs hg'
    obtain ⟨hs, -, hacts⟩ := hc.setup hm hf h
    obtain ⟨hs', -, hacts'⟩ := hc.setup hm hg h'
    obtain ⟨source, hsm, _, hss, rfl, -⟩ := hacts actions hfa
    obtain ⟨source', hsm', _, hss', he, -⟩ := hacts' _ hga
    have hname : source.name = source'.name := (Actions.memory.inj he).2
    have hsame : some source = some source' := by
      rw [← (hc.found source.name source).mpr ⟨hsm, rfl⟩, hname]
      exact (hc.found source'.name source').mpr ⟨hsm', rfl⟩
    rw [hs, hs', hss, hss', Option.some.inj hsame]

end Registry

namespace Server

/-- Compiling the models of a server without factories and setting them up gives it the compiled
factories, each of them set up. -/
theorem exists_setup_of_compile {start server₁ server : Server} {validators : KeyMap Validator}
    (hempty : start.registry = { validators := validators }) {connectors : Connectors}
    {defaultDatasource : String} {loaded : LoadedSources} {numbers : List Nat}
    (hc : onRegistry (compile connectors defaultDatasource loaded) start = .ok numbers server₁)
    (hs : numbers.forM setup server₁ = .ok () server) :
    ∃ (r : Registry) (fs : List Factory),
      compile connectors defaultDatasource loaded { validators := validators } = .ok numbers r ∧
      List.Forall₂ (fun f f' => r.setup start.store f = .ok f') r.made fs ∧
      server = { start with registry := { r with made := fs } } := by
  unfold onRegistry at hc
  split at hc
  · rename_i numbers' r hr
    cases hc
    rw [hempty] at hr
    obtain ⟨-, rfl⟩ := Registry.compiled_of_compile hr
    obtain ⟨fs, hfs, rfl⟩ := @forM_setup_eq_ok r { start with registry := r } server [] r.made
      ⟨rfl, rfl, rfl, rfl⟩ (List.nil_append _).symm hs
    exact ⟨r, fs, hr, hfs, rfl⟩
  · cases hc

/-- Loading changes nothing. -/
theorem eq_of_load {start server : Server} {loaded : LoadedSources}
    (h : load start = .ok loaded server) : server = start := by
  unfold load at h
  split at h <;> cases h
  rfl

/-- What assembling does to a server without factories: it compiles them and sets each up. -/
theorem assemble_eq_ok {start server : Server} {validators : KeyMap Validator}
    (hempty : start.registry = { validators := validators }) (h : assemble start = .ok () server) :
    ∃ (loaded : LoadedSources) (numbers : List Nat) (r : Registry) (fs : List Factory),
      compile start.connectors start.config.defaultDatasource loaded { validators := validators } =
        .ok numbers r ∧
      List.Forall₂ (fun f f' => r.setup start.store f = .ok f') r.made fs ∧
      server = { start with registry := { r with made := fs } } := by
  obtain ⟨loaded, server₁, hload, hrest⟩ := bind_eq_ok_iff.mp h
  cases eq_of_load hload
  have hrest : (onRegistry (compile start.connectors start.config.defaultDatasource loaded) >>=
      fun numbers => numbers.forM setup) start = .ok () server := hrest
  obtain ⟨numbers, server₂, hrun, hsetup⟩ := bind_eq_ok_iff.mp hrest
  obtain ⟨r, fs, hr, hfs, rfl⟩ := exists_setup_of_compile hempty hrun hsetup
  exact ⟨loaded, numbers, r, fs, hr, hfs, rfl⟩

/-- **The models of an assembled server are deployed.** -/
theorem Assembled.deployed {server : Server} (h : server.Assembled) :
    server.registry.Deployed server.store := by
  obtain ⟨start, validators, hempty, hok⟩ := h.started
  obtain ⟨loaded, numbers, r, fs, hr, hfs, rfl⟩ := assemble_eq_ok hempty hok
  exact (Registry.compiled_of_compile hr).1.deployed h.memory hfs

/-- Nothing is out of order where nothing is stored. -/
theorem Assembled.sound {server : Server} (h : server.Assembled) : server.store.Sound := by
  intro number collection id record hget
  rw [h.empty] at hget
  cases hget

/-- No model runs a hook when an instance is written. -/
def HookFree (server : Server) : Prop := ∀ f ∈ server.registry.made, f.HookFree

/-- The store is what requests to the server's models make of its own. -/
def Reaches (server : Server) (s : Store) : Prop := ∃ calls : List Call,
  (∀ call ∈ calls, call.factory ∈ server.registry.made) ∧
    calls.foldl server.registry.after server.store = s

theorem Reaches.refl (server : Server) : server.Reaches server.store := by
  refine ⟨[], fun call hcall => ?_, rfl⟩
  cases hcall

theorem Reaches.foldl {server : Server} {s : Store} (hs : server.Reaches s) {calls : List Call}
    (hcalls : ∀ call ∈ calls, call.factory ∈ server.registry.made) :
    server.Reaches (calls.foldl server.registry.after s) := by
  obtain ⟨earlier, hearlier, rfl⟩ := hs
  refine ⟨earlier ++ calls, fun call hcall => ?_, List.foldl_append⟩
  rcases List.mem_append.mp hcall with hc | hc
  · exact hearlier call hc
  · exact hcalls call hc

/-- One request more. -/
theorem Reaches.after {server : Server} {s : Store} (hs : server.Reaches s) {call : Call}
    (hf : call.factory ∈ server.registry.made) :
    server.Reaches (server.registry.after s call) := by
  have hcalls : ∀ c ∈ [call], c.factory ∈ server.registry.made := by
    intro c hc
    rw [List.mem_singleton.mp hc]
    exact hf
  exact hs.foldl hcalls

/-- What holds of the store at first and is preserved by every request, holds of every store that
is reached. -/
theorem Reaches.preserves {server : Server} {P : Store → Prop} (hfirst : P server.store)
    (hstep : ∀ s call, server.Reaches s → call.factory ∈ server.registry.made → P s →
      P (server.registry.after s call)) {s : Store} (hs : server.Reaches s) : P s := by
  obtain ⟨calls, hcalls, rfl⟩ := hs
  induction calls using List.reverseRecOn with
  | nil => exact hfirst
  | append_singleton before call ih =>
    have hbefore : ∀ c ∈ before, c.factory ∈ server.registry.made := fun c hc =>
      hcalls c (List.mem_append_left _ hc)
    have hlast := hcalls call (List.mem_append_right _ (List.mem_singleton_self call))
    rw [List.foldl_append]
    exact hstep _ call ((Reaches.refl server).foldl hbefore) hlast (ih hbefore)

/-- If a request ends a property of the store exactly if it is bad, then the property holds all along
a sequence of requests exactly if none of them is bad. -/
theorem Reaches.forall_prefix_iff {server : Server} {P : Store → Prop} {bad : Store → Call → Prop}
    (hstep : ∀ s call, server.Reaches s → call.factory ∈ server.registry.made → P s →
      (P (server.registry.after s call) ↔ ¬bad s call))
    {s : Store} (hs : server.Reaches s) (hfirst : P s) {calls : List Call}
    (hcalls : ∀ call ∈ calls, call.factory ∈ server.registry.made) :
    (∀ before, before <+: calls → P (before.foldl server.registry.after s)) ↔
      ∀ before call, before ++ [call] <+: calls →
        ¬bad (before.foldl server.registry.after s) call := by
  have hlast : ∀ before call, before ++ [call] <+: calls →
      P (before.foldl server.registry.after s) →
        (P ((before ++ [call]).foldl server.registry.after s) ↔
          ¬bad (before.foldl server.registry.after s) call) := by
    intro before call hpre hP
    have hbefore : before <+: calls := (List.prefix_append before [call]).trans hpre
    have hmade := hcalls call (hpre.subset (List.mem_append_right _ (List.mem_singleton_self call)))
    rw [List.foldl_append]
    exact hstep _ call (hs.foldl fun c hc => hcalls c (hbefore.subset hc)) hmade hP
  constructor
  · intro hall before call hpre
    have hbefore : before <+: calls := (List.prefix_append before [call]).trans hpre
    exact (hlast before call hpre (hall before hbefore)).mp (hall _ hpre)
  · intro hnone before
    -- one request more at the end
    induction before using List.reverseRecOn with
    | nil => exact fun _ => hfirst
    | append_singleton before call ih =>
      intro hpre
      have hbefore : before <+: calls := (List.prefix_append before [call]).trans hpre
      exact (hlast before call hpre (ih hbefore)).mpr (hnone before call hpre)

/-- What holds of every store that is reached. -/
theorem Reaches.sound {server : Server} {s : Store} (hs : server.Reaches s)
    (h : server.Assembled) :
    s.databases.length = server.store.databases.length ∧ s.Sound := by
  obtain ⟨calls, hcalls, rfl⟩ := hs
  exact Registry.foldl_after_sound calls
    (fun call hc => h.deployed.memory _ (hcalls call hc)) rfl h.sound

/-- The models of an assembled server stay deployed over every store that is reached. -/
theorem Reaches.deployed {server : Server} {s : Store} (hs : server.Reaches s)
    (h : server.Assembled) : server.registry.Deployed s := by
  have hd := h.deployed
  refine { hd with memory := fun f hf => ?_ }
  rw [(hs.sound h).1]
  exact hd.memory f hf

/-- A server without factories whose connectors are the library's own, and which has nothing stored,
is assembled by assembling it. -/
theorem assembled_of_succeeded {start : Server} {validators : KeyMap Validator}
    (hempty : start.registry = { validators := validators })
    (hmemory : ∀ p ∈ start.connectors, p.2.isMemory = true)
    (hstore : ∀ number collection, start.store.records number collection = [])
    (h : succeeded (assemble start) = true) : (stateLeft (assemble start)).Assembled := by
  obtain ⟨u, server, hok⟩ := succeeded_iff.mp h
  rw [hok]
  obtain ⟨-, -, r, fs, -, -, rfl⟩ := assemble_eq_ok hempty hok
  exact ⟨⟨start, validators, hempty, hok⟩, hmemory, hstore⟩

/-- The server that keeps the models of these classes in one database in memory, before it loads
them. -/
def storing (path : String) (classes : List ClassDecl) : Server :=
  { sources := [{ path := path, items := classes.map .decl }]
    classes := KeyMap.ofPairs (classes.map fun c => (c.name, .plain c.name))
    connectors := [(memoryDatasource, .memory memoryDatasource 0)]
    store := { databases := [{ connected := true }] } }

/-- Its classes may have a behaviour of their own. -/
theorem assembled_storing_with {path : String} {classes : List ClassDecl}
    {behaviour : KeyMap ModelClass}
    (h : succeeded (assemble { storing path classes with classes := behaviour }) = true) :
    (stateLeft (assemble { storing path classes with classes := behaviour })).Assembled := by
  refine assembled_of_succeeded rfl (fun p hp => ?_) (fun number collection => ?_) h
  · cases List.mem_singleton.mp hp
    rfl
  · cases number <;> rfl

theorem assembled_storing {path : String} {classes : List ClassDecl}
    (h : succeeded (assemble (storing path classes)) = true) :
    (stateLeft (assemble (storing path classes))).Assembled :=
  assembled_storing_with h

theorem hookFree_of_isNone {server : Server} (h : ∀ f ∈ server.registry.made,
    ((f.hook? Factory.beforeSave).isNone && (f.hook? Factory.afterSave).isNone) = true) :
    server.HookFree := by
  intro f hf
  have hand := h f hf
  rw [Bool.and_eq_true, Option.isNone_iff_eq_none, Option.isNone_iff_eq_none] at hand
  exact hand

/-- The factory of a name. -/
def factory (server : Server) (name : String) : Factory := (server.registry.find? name).getD default

theorem factory_mem {server : Server} {name : String}
    (h : (server.registry.find? name).isSome = true) : server.factory name ∈ server.registry.made := by
  obtain ⟨f, hf⟩ := Option.isSome_iff_exists.mp h
  unfold factory
  rw [hf]
  exact Registry.mem_made_of_find? hf

/-- The store after requests to the factories of these names. -/
def storeAfter (server : Server) (requests : List (String × Operation × Request)) : Store :=
  (requests.map fun p =>
    { operation := p.2.1, factory := server.factory p.1, request := p.2.2 : Call }).foldl
      server.registry.after server.store

theorem reaches_storeAfter {server : Server} {requests : List (String × Operation × Request)}
    (h : ∀ p ∈ requests, (server.registry.find? p.1).isSome = true) :
    server.Reaches (server.storeAfter requests) := by
  refine ⟨_, fun call hcall => ?_, rfl⟩
  obtain ⟨p, hp, rfl⟩ := List.mem_map.mp hcall
  exact factory_mem (h p hp)

end Server

/-! ### A library -/

namespace Lending

/-- A property with decorators that have no arguments. -/
def property (name type : String) (decorators : List String) : MemberDecl :=
  .property
    { name := name, type := type, decorators := decorators.map fun d => { name := d } }

/-- A book has a title, an author that it keeps, and a note; authors are stored too, but notes are
not. -/
def classes : List ClassDecl :=
  [(ClassDecl.model "Author").addMember (property "name" "string" []),
    { ClassDecl.named "Note" with
      decorators := [{ name := "model", args := [.ofMembers [("persistent", .bool false)]] }]
      members := [property "text" "string" []] },
    { ClassDecl.model "Book" with
      members := [property "title" "string" [], property "author" "Author" ["insertonly"],
        property "note" "Note" []] }]

/-- The server before it loads the classes. -/
def start : Server :=
  { sources := [{ path := "lending", items := classes.map .decl }]
    classes := ["Author", "Book", "Note"].map fun name => (name, .plain name)
    connectors := [(memoryDatasource, .memory memoryDatasource 0)]
    store := { databases := [{ connected := true }] } }

/-- The server with its models set up. -/
def server : Server := stateLeft (Server.assemble start)

theorem assembled : server.Assembled :=
  @Server.assembled_storing_with "lending" classes _ (by decide +kernel)

theorem hookFree : server.HookFree := Server.hookFree_of_isNone (by decide +kernel)

/-- The factory of books. -/
def books : Factory := (server.registry.find? "Book").getD default

theorem books_mem : books ∈ server.registry.made := by
  have h : (server.registry.find? "Book").isSome = true := by decide +kernel
  obtain ⟨f, hf⟩ := Option.isSome_iff_exists.mp h
  unfold books
  rw [hf]
  exact Registry.mem_made_of_find? hf

/-- The collection that actions in memory are on. -/
def collection? : Option Actions → Option (Nat × String)
  | some (.memory number collection) => some (number, collection)
  | _ => none

theorem eq_of_collection? {actions : Option Actions} {number : Nat} {collection : String}
    (h : collection? actions = some (number, collection)) :
    actions = some (.memory number collection) := by
  unfold collection? at h
  split at h
  · cases h
    rfl
  · cases h

theorem books_actions : books.actions? = some (.memory 0 "Book") :=
  eq_of_collection? (by decide +kernel)

/-- The store after requests to the factory of books. -/
def storeAfter (requests : List (Operation × Request)) : Store :=
  (requests.map fun p => { operation := p.1, factory := books, request := p.2 : Call }).foldl
    server.registry.after server.store

theorem reaches_storeAfter (requests : List (Operation × Request)) :
    server.Reaches (storeAfter requests) := by
  refine ⟨_, fun call hcall => ?_, rfl⟩
  obtain ⟨p, -, rfl⟩ := List.mem_map.mp hcall
  exact books_mem

end Lending

end ModelRest
