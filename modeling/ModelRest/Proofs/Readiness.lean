import ModelRest.Proofs.Binding
import ModelRest.Proofs.ModelRoutes

/-!
# Servers that were started

Handling a request has branches for what cannot happen once a server was started: a model without
actions that is asked for records, a route whose handler is missing, a validator for a field that
there is not. What rules them out comes from different steps of the start. A factory is not made for
a stored model without a connector (`Enrolled.connector_of_factoryOf`), a route is kept in a schema
only if the class of the model itself provides its handler (`ModelSchema.Takes`), setting up attaches
validators to the fields it has just resolved (`Factory.equipped_of_setup`), and routes are bound
for models that are not linked and, for records, only if they are stored (`Web.of_mem_modelRoutes`).
`Server.ready_of_init` puts them together.
-/

namespace ModelRest

/-! ### What compiling gives a factory -/

/-- What a factory has once it was compiled. -/
structure Factory.Furnished (f : Factory) : Prop where
  /-- It has a schema. -/
  compiled : f.isCompiled = true
  /-- If it is not linked, it was told no collection that it stands for. -/
  own : f.isLinked = false → f.link? = none
  /-- If its model is stored, it has a connector. -/
  connected : f.options.persistent = true → f.connector.isSome = true
  /-- If it is not linked, its class provides the handlers of its routes. -/
  handlers : f.isLinked = false → ∀ r ∈ f.schema.routes,
    ∃ run, KeyMap.get? f.cls.routes r.handler = some run

/-- Compiling furnishes every factory. -/
theorem furnished_of_compile {connectors : Connectors} {defaultDatasource : String}
    {loaded : LoadedSources} {validators : KeyMap Validator} {r : Registry} {numbers : List Nat}
    (h : compile connectors defaultDatasource loaded { validators := validators } =
      .ok numbers r) {f : Factory} (hf : f ∈ r.made) : f.Furnished := by
  obtain ⟨ds, hds, -, fs, hfs, rfl, -⟩ := compile_eq_ok_iff.mp h
  obtain ⟨d, hd, hfin⟩ := exists_left_of_forall₂ hfs (by simpa [Registry.extend] using hf)
  obtain ⟨m, -, hmodel⟩ := Draft.mem_ofModels hds hd
  obtain ⟨said, -, hfactory, -⟩ := Draft.ofModel?_eq_ok_iff.mp hmodel
  obtain ⟨s, hs⟩ := hfin.exists_schema?
  have hconnected := fun hp => Enrolled.connector_of_factoryOf (f := d.factory) hfactory hp
  constructor
  case compiled => exact Option.isSome_iff_exists.mpr ⟨s, hs⟩
  case own => exact hfin.link?_eq_none (Draft.isBare_of_ofModels hds d hd)
  case connected => cases hfin <;> exact hconnected
  case handlers =>
    intro hl rd hrd
    have hschema : f.schema = s := by simp [Factory.schema, hs]
    rw [hschema] at hrd
    obtain ⟨m, hm⟩ := ModelSchema.exists_route?_of_ofClass (hfin.ofClass hs hl) hrd
    exact Option.isSome_iff_exists.mp (MethodDecl.handler_of_route? hm).2.2

/-! ### What setting up gives a factory -/

/-- What a factory has once it was set up. -/
structure Factory.Equipped (f : Factory) : Prop where
  /-- It has a schema. -/
  compiled : f.isCompiled = true
  /-- It has its fields. -/
  initialized : f.isInitialized = true
  /-- If it is not linked and its model is stored, it has actions. -/
  bound : f.isLinked = false → f.options.persistent = true → f.actions?.isSome = true
  /-- Every validator is attached to a field that there is. -/
  attached : ∀ runtime, f.runtime? = some runtime → ∀ a ∈ runtime.validators,
    a.field < runtime.fields.length
  /-- If it is not linked, its class provides the handlers of its routes. -/
  handlers : f.isLinked = false → ∀ r ∈ f.schema.routes,
    ∃ run, KeyMap.get? f.cls.routes r.handler = some run

/-- Validators are attached to fields that there are. -/
theorem Factory.field_lt_of_mem_attach {f : Factory} {validators : KeyMap Validator}
    {fields : List Field} {a : AttachedValidator}
    (h : a ∈ fields.zipIdx.flatMap (f.attach validators)) : a.field < fields.length := by
  obtain ⟨p, hp, ha⟩ := List.mem_flatMap.mp h
  obtain ⟨tag, -, htag⟩ := List.mem_filterMap.mp ha
  obtain ⟨v, -, rfl⟩ := Option.map_eq_some_iff.mp htag
  simpa using List.snd_lt_of_mem_zipIdx hp

/-- A stored model with a connector is opened to actions, or not at all. -/
theorem Factory.exists_of_openActions {f : Factory} {store : Store} {binding : Option Actions}
    (h : f.openActions store = .ok binding) (hc : f.connector.isSome = true)
    (hp : f.options.persistent = true) : binding.isSome = true := by
  obtain ⟨c, hc⟩ := Option.isSome_iff_exists.mp hc
  simp only [openActions, hc, hp] at h
  split at h <;> cases h
  rfl

/-- Setting up equips a furnished factory. -/
theorem Factory.equipped_of_setup {r : Registry} {store : Store} {f f' : Factory}
    (hf : f.Furnished) (h : r.setup store f = .ok f') : f'.Equipped := by
  obtain ⟨_, binding, hsource, hopen, hinit⟩ := Registry.setup_eq_ok_iff.mp h
  obtain ⟨schema, fields, hs, -, rfl⟩ := Registry.init_eq_ok hinit
  constructor
  case compiled => exact hf.compiled
  case initialized => rfl
  case bound =>
    intro hl hp
    have hown : r.source f = .ok f := by simp only [Registry.source, hf.own hl]
    rw [hown] at hsource
    cases hsource
    have hbinding := exists_of_openActions hopen (hf.connected hp) hp
    show (if f.options.persistent then binding else none).isSome = true
    rwa [if_pos hp]
  case attached =>
    intro runtime hr a ha
    cases hr
    exact field_lt_of_mem_attach ha
  case handlers => exact hf.handlers

/-! ### Names -/

/-- Factories that were set up have different names. -/
theorem Registry.Compiled.eq_of_name {connectors : Connectors} {r : Registry}
    (hc : r.Compiled connectors) {store : Store} {fs : List Factory}
    (hfs : List.Forall₂ (fun f f' => r.setup store f = .ok f') r.made fs) {f g : Factory}
    (hf : f ∈ fs) (hg : g ∈ fs) (hn : f.name = g.name) : f = g := by
  obtain ⟨f₀, hf₀, hsetup⟩ := exists_left_of_forall₂ hfs hf
  obtain ⟨g₀, hg₀, hsetup'⟩ := exists_left_of_forall₂ hfs hg
  have hname : f₀.name = g₀.name := by
    have hbare : ∀ {f f₀ : Factory}, f.bare = f₀.bare → f.name = f₀.name := fun h => by
      simpa [Factory.bare] using congrArg Factory.name h
    rw [← hbare (bare_setup hsetup), ← hbare (bare_setup hsetup'), hn]
  have hsame : some f₀ = some g₀ := by
    rw [← (hc.found g₀.name f₀).mpr ⟨hf₀, hname⟩, ← (hc.found g₀.name g₀).mpr ⟨hg₀, rfl⟩]
  cases hsame
  rw [hsetup] at hsetup'
  exact Except.ok.inj hsetup'

/-! ### What is bound -/

namespace Web

/-- A route of a model is one of a stored model, or for the methods of its class, or one that it
declares. -/
theorem of_mem_modelRoutes {f : Factory} {e : String × String × Endpoint} (h : e ∈ modelRoutes f) :
    f.isLinked = false ∧ (e.2.2.isOfRecords = true → f.options.persistent = true) ∧
      ∀ handler, e.2.2 = .custom handler → ∃ r ∈ f.schema.routes, r.handler = handler := by
  have hrecords : ∀ base, ∀ e ∈ recordRoutes base,
      e.2.2.isOfRecords = true ∧ ∀ handler, e.2.2 ≠ .custom handler := by
    simp [recordRoutes, Endpoint.isOfRecords]
  unfold modelRoutes at h
  split at h
  · cases h
  · rename_i hl
    refine ⟨by simpa using hl, ?_⟩
    rcases List.mem_append.mp h with h | h
    · split at h
      · rename_i hp
        obtain ⟨-, hcustom⟩ := hrecords _ e h
        exact ⟨fun _ => hp, fun handler he => absurd he (hcustom handler)⟩
      · cases h
    · rcases List.mem_cons.mp h with rfl | h
      · simp [Endpoint.isOfRecords]
      · obtain ⟨r, hr, rfl⟩ := List.mem_map.mp h
        refine ⟨by simp [Endpoint.isOfRecords], fun handler he => ⟨r, hr, ?_⟩⟩
        exact Endpoint.custom.inj he

/-- A route that was bound for the models of some numbers is one of a model of theirs. -/
theorem exists_of_bindModels {r : Registry} {numbers : List Nat} {t : RouteTable ModelRoute}
    (hb : bindModels r numbers {} = .ok () t) {b : BoundRoute ModelRoute} (h : b ∈ t.routes) :
    ∃ f e, r.made[b.serves.factory]? = some f ∧ e ∈ modelRoutes f ∧ b.serves.endpoint = e.2.2 := by
  obtain ⟨counts, hcounts⟩ := exists_counts_of_bindModels hb
  obtain ⟨-, hroutes, -⟩ := of_bindEntries RouteTable.tidy_empty hcounts
  rw [hroutes, List.nil_append, List.mem_flatMap] at h
  obtain ⟨entry, hentry, h⟩ := h
  obtain ⟨e, he, rfl⟩ := List.mem_map.mp h
  exact ⟨entry.2, e, made_of_mem_entries _ hentry, he, rfl⟩

/-- The routes of a router are those of its table, and the one that says whether the server is
well. -/
theorem Router.mem_ofTable {mount : String} {t : RouteTable ModelRoute} {b : BoundRoute Served}
    (h : b ∈ (ofTable mount t).withHealth) {route : ModelRoute} (hb : b.serves = .model route) :
    ∃ bound ∈ t.routes, bound.serves = route := by
  rcases List.mem_append.mp h with h | h
  · obtain ⟨bound, hbound, rfl⟩ := List.mem_map.mp h
    exact ⟨bound, hbound, Served.model.inj hb⟩
  · rw [List.mem_singleton.mp h] at hb
    cases hb

end Web

/-! ### Starting -/

namespace Server

/-- What is done before the models are compiled does not touch the registry. -/
theorem preserves_onSources {α : Type} (r : Registry) (x : SourceM α) :
    Preserves (fun s : Server => s.registry = r) (onSources x) := by
  intro s hs
  unfold onSources
  split <;> exact hs

theorem preserves_onStore {ε α : Type} (r : Registry) (raise : ε → ServerError) (x : StoreM ε α) :
    Preserves (fun s : Server => s.registry = r) (onStore raise x) := by
  intro s hs
  unfold onStore
  split <;> exact hs

theorem preserves_exportPlain (r : Registry) :
    Preserves (fun s : Server => s.registry = r) exportPlain := by
  intro s hs
  show (if s.config.exportPlain then _ else s).registry = r
  split <;> exact hs

theorem preserves_collect (r : Registry) (files : FileTree) (root : String) (dirs : List String) :
    Preserves (fun s : Server => s.registry = r)
      (dirs.forM fun dir => discard (onSources (SourceFile.collectDirectory files root dir))) :=
  .forM (fun _ => (preserves_onSources r _).map _) dirs

/-- Making the router binds the routes of the models. -/
theorem of_routerOf {mount : String} {numbers : List Nat} {s s' : Server} {router : Web.Router}
    (h : routerOf mount numbers s = .ok router s') : s' = s ∧
      ∃ table, Web.bindModels s.registry numbers {} = .ok () table ∧
        router = Web.Router.ofTable mount table := by
  unfold routerOf at h
  cases hb : Web.bindModels s.registry numbers {} with
  | ok u table =>
    simp only [hb] at h
    cases h
    exact ⟨rfl, table, rfl, rfl⟩
  | error e table =>
    simp only [hb] at h
    cases h

/-- **What starting does** to a server without factories: it compiles the models, sets each factory
up, and binds the routes. -/
theorem exists_of_init {files : FileTree} {root : String} {start server : Server}
    {validators : KeyMap Validator} (hfresh : start.registry = { validators := validators })
    (h : init files root start = .ok () server) :
    ∃ (before : Server) (connectors : Connectors) (defaultDatasource : String)
      (loaded : LoadedSources) (numbers : List Nat) (r : Registry) (fs : List Factory)
      (mount : String) (table : RouteTable Web.ModelRoute),
      compile connectors defaultDatasource loaded { validators := validators } = .ok numbers r ∧
      List.Forall₂ (fun f f' => r.setup before.store f = .ok f') r.made fs ∧
      Web.bindModels { r with made := fs } numbers {} = .ok () table ∧
      server.registry = { r with made := fs } ∧
      server.router = some (Web.Router.ofTable mount table).withHealth := by
  unfold init at h
  obtain ⟨_, _, hget, h⟩ := bind_eq_ok_iff.mp h
  cases hget
  obtain ⟨_, s₁, hcollect, h⟩ := bind_eq_ok_iff.mp h
  obtain ⟨_, s₂, hexport, h⟩ := bind_eq_ok_iff.mp h
  obtain ⟨_, _, hget, h⟩ := bind_eq_ok_iff.mp h
  cases hget
  obtain ⟨_, s₃, hconnect, h⟩ := bind_eq_ok_iff.mp h
  obtain ⟨loaded, s₄, hload, h⟩ := bind_eq_ok_iff.mp h
  cases eq_of_load hload
  obtain ⟨_, _, hget, h⟩ := bind_eq_ok_iff.mp h
  cases hget
  obtain ⟨numbers, s₅, hcompile, h⟩ := bind_eq_ok_iff.mp h
  obtain ⟨_, s₆, hsetup, h⟩ := bind_eq_ok_iff.mp h
  obtain ⟨router, s₇, hrouter, h⟩ := bind_eq_ok_iff.mp h
  cases h
  have hfresh₃ : s₃.registry = { validators := validators } :=
    (preserves_onStore _ _ _).of_ok hconnect <| (preserves_exportPlain _).of_ok hexport <|
      (preserves_collect _ files root _).of_ok hcollect hfresh
  obtain ⟨r, fs, hr, hfs, rfl⟩ := exists_setup_of_compile hfresh₃ hcompile hsetup
  obtain ⟨rfl, table, hbind, rfl⟩ := of_routerOf hrouter
  exact ⟨s₃, _, _, loaded, numbers, r, fs, _, table, hr, hfs, hbind, rfl, rfl⟩

open Web in
/-- **A server that was started is ready.** Its factories have schemas and fields, those of stored
models that are not linked have actions, and every validator is attached to a field. For every route
of a model, the factory is there, it has actions if the route is about records, its class provides
the handler if the model declares the route, and no request is answered by saying that the model is
not stored. -/
theorem ready_of_init {files : FileTree} {root : String} {start server : Server}
    {validators : KeyMap Validator} (hfresh : start.registry = { validators := validators })
    (h : init files root start = .ok () server) :
    (∀ f ∈ server.registry.made, f.Equipped) ∧
    ∃ router, server.router = some router ∧
      ∀ b ∈ router, ∀ route, b.serves = .model route →
        ∃ f, server.registry.made[route.factory]? = some f ∧ f.isLinked = false ∧
          (route.endpoint.isOfRecords = true → requireController f = pure ()) ∧
          (∀ handler, route.endpoint = .custom handler →
            ∃ run, KeyMap.get? f.cls.routes handler = some run) ∧
          ∀ taken req store halt store',
            Router.serveRoute server.registry b.serves taken req store = .error halt store' →
              halt ≠ .ofError (FactoryError.notPersistent f.name).toRequest := by
  obtain ⟨before, connectors, _, loaded, numbers, r, fs, mount, table, hr, hfs, hbind, hregistry,
    hrouter⟩ := exists_of_init hfresh h
  have hequipped : ∀ f ∈ server.registry.made, f.Equipped := by
    intro f hf
    rw [hregistry] at hf
    obtain ⟨f₀, hf₀, hsetup⟩ := exists_left_of_forall₂ hfs hf
    exact Factory.equipped_of_setup (furnished_of_compile hr hf₀) hsetup
  refine ⟨hequipped, _, hrouter, fun b hb route hroute => ?_⟩
  obtain ⟨bound, hbound, hserves⟩ := Router.mem_ofTable hb hroute
  obtain ⟨f, e, hmade, he, hend⟩ := exists_of_bindModels hbind hbound
  rw [hserves] at hmade hend
  rw [← hregistry] at hmade
  have hf := hequipped f (List.mem_of_getElem? hmade)
  obtain ⟨hl, hrecords, hcustom⟩ := of_mem_modelRoutes he
  rw [← hend] at hrecords hcustom
  have hready : route.endpoint.IsReady server.registry f := by
    constructor
    case bound => exact fun hr => hf.bound hl (hrecords hr)
    case handler =>
      intro handler hh
      obtain ⟨d, hd, rfl⟩ := hcustom handler hh
      exact hf.handlers hl d hd
    case unique =>
      intro path target ht hn
      have htarget := Registry.mem_made_of_target ht
      have hfactory := List.mem_of_getElem? hmade
      rw [hregistry] at htarget hfactory
      exact (Registry.compiled_of_compile hr).1.eq_of_name hfs htarget hfactory hn
  refine ⟨f, hmade, hl, fun hr => requireController_eq (hready.bound hr), hready.handler, ?_⟩
  intro taken req store halt store' hserve
  rw [hroute] at hserve
  simp only [Router.serveRoute, hmade] at hserve
  exact hready.spares_handle taken req store halt store' hserve

end Server

namespace Opening

/-- A book has a note, which is not stored, and is counted. -/
def classes : List ClassDecl :=
  [{ ClassDecl.model "Book" with
      members := [.property { name := "note", type := "Note" }, .method Counting.count] },
    { ClassDecl.named "Note" with decorators :=
        [{ name := "model", args := [.ofMembers [("persistent", .bool false)]] }] }]

/-- The server before it is started. -/
def start : Server :=
  { sources := [{ path := "opening", items := classes.map .decl }]
    classes := [("Book", Counting.counted "Book"), ("Note", .plain "Note")]
    connectors := [(memoryDatasource, .memory memoryDatasource 0)]
    store := { databases := [{}] } }

/-- The server after it was started. -/
def server : Server := stateLeft (Server.init (.directory []) "" start)

theorem started : Server.init (.directory []) "" start = .ok () server :=
  answer?_eq_some_iff.mp (by decide +kernel)

/-- The server with books and notes is ready. Books have twelve routes and notes have one, and there
is that for the server's health. -/
theorem server_ready : (∀ f ∈ server.registry.made, f.Equipped) ∧
    server.router.map List.length = some 14 ∧
    ∃ router, server.router = some router ∧ ∀ b ∈ router, ∀ route, b.serves = .model route →
      ∃ f, server.registry.made[route.factory]? = some f ∧ f.isLinked = false ∧
        (route.endpoint.isOfRecords = true → Web.requireController f = pure ()) ∧
        (∀ handler, route.endpoint = .custom handler →
          ∃ run, KeyMap.get? f.cls.routes handler = some run) ∧
        ∀ taken req store halt store',
          Web.Router.serveRoute server.registry b.serves taken req store = .error halt store' →
            halt ≠ .ofError (FactoryError.notPersistent f.name).toRequest := by
  obtain ⟨hequipped, hrouter⟩ := Server.ready_of_init rfl started
  exact ⟨hequipped, by decide +kernel, hrouter⟩

end Opening

end ModelRest
