import ModelRest.Compilation
import ModelRest.Source.Collection
import ModelRest.Web.Router

/-!
# Servers

A server has sources, classes, connectors, a registry and a store. Starting it reads the
directories of sources, connects the connectors, loads and compiles the models, sets their factories
up, and binds their routes below the path of the version; the first thing that goes wrong ends the
start, and what was done before stays done.
-/

namespace ModelRest

/-- How a server is reached. -/
structure NetworkConfig where
  /-- The address that it listens at. -/
  host : String := "0.0.0.0"
  /-- The port; zero for any. -/
  port : Nat := 0
  /-- The origins that may use it; a star for all. -/
  origins : List String := ["*"]
  /-- How long a request may take, in seconds. -/
  timeout : Nat := 30
deriving DecidableEq, Inhabited

/-- What a server does. -/
structure ServerConfig where
  /-- How it is reached. -/
  network : NetworkConfig := {}
  /-- The version that the paths of models begin with. -/
  apiVersion : String := "v1"
  /-- The directories that are searched for sources. -/
  modelDirs : List String := []
  /-- Where models are stored that do not say where. -/
  defaultDatasource : String := memoryDatasource
  /-- A model without behaviour gets a class without any. -/
  exportPlain : Bool := false
deriving DecidableEq, Inhabited

/-- The path below which the models of a version are served. -/
def apiPath (version : String) : String :=
  String.ofList ('/' :: Text.trimBy (· == '/') version.toList)

/-- A server. -/
structure Server where
  /-- What it does. -/
  config : ServerConfig := {}
  /-- The sources collected so far. -/
  sources : List SourceFile := []
  /-- The classes with behaviour. -/
  classes : ClassTable := []
  /-- The connectors. -/
  connectors : Connectors := []
  /-- The models. -/
  registry : Registry := .withValidators
  /-- The databases. -/
  store : Store := {}
  /-- The routes, once the server was started. -/
  router : Option Web.Router := none
deriving Inhabited

/-- A computation that changes a server and may fail; what it changed before stays changed. -/
abbrev ServerM := EStateM ServerError Server

namespace Server

/-- Works on the sources of the server. -/
def onSources {α : Type} (x : SourceM α) : ServerM α := fun s =>
  match x s.sources with
  | .ok a sources => .ok a { s with sources := sources }
  | .error e sources => .error (.config e) { s with sources := sources }

/-- Works on the registry of the server. -/
def onRegistry {α : Type} (x : CompileM α) : ServerM α := fun s =>
  match x s.registry with
  | .ok a registry => .ok a { s with registry := registry }
  | .error e registry => .error (.config e) { s with registry := registry }

/-- Works on the store of the server. -/
def onStore {ε α : Type} (raise : ε → ServerError) (x : StoreM ε α) : ServerM α := fun s =>
  match x s.store with
  | .ok a store => .ok a { s with store := store }
  | .error e store => .error (raise e) { s with store := store }

/-- The table with a class without behaviour for every name that has none. -/
def providePlain (classes : ClassTable) (names : List String) : ClassTable :=
  names.foldl (fun table name =>
    if KeyMap.contains table name then table else table.provide (.plain name)) classes

/-- Exports a class without behaviour for every declared class that has none, if that is wanted. -/
def exportPlain : ServerM Unit := modify fun s =>
  if s.config.exportPlain then
    { s with classes := providePlain s.classes (LoadedSources.classNames s.sources) }
  else s

/-- Loads the sources. -/
def load : ServerM LoadedSources := fun s =>
  match LoadedSources.load s.sources s.classes with
  | .ok loaded => .ok loaded s
  | .error e => .error (.config e) s

/-- Sets up the factory of a number. -/
def setup (number : Nat) : ServerM Unit := fun s =>
  match s.registry.made[number]? with
  | none => .ok () s
  | some f =>
    match s.registry.setup s.store f with
    | .ok f => .ok () { s with registry := s.registry.update number f }
    | .error e => .error (.config e) s

/-- The router of the factories of these numbers, below a path. -/
def routerOf (mount : String) (numbers : List Nat) : ServerM Web.Router := fun s =>
  match Web.bindModels s.registry numbers {} with
  | .ok () table => .ok (Web.Router.ofTable mount table) s
  | .error e _ => .error e s

/-- Starts the server with the files below a root. -/
def init (files : FileTree) (root : String) : ServerM Unit := do
  let config := (← get).config
  config.modelDirs.forM fun dir => discard (onSources (SourceFile.collectDirectory files root dir))
  exportPlain
  onStore .connector (← get).connectors.connectAll
  let loaded ← load
  let numbers ← onRegistry
    (compile (← get).connectors config.defaultDatasource loaded)
  numbers.forM setup
  let router ← routerOf (apiPath config.apiVersion) numbers
  modify fun s => { s with router := some router.withHealth }

/-- Why a server that does not listen cannot serve. -/
def serveFault (s : Server) : String :=
  match s.router with
  | none => "init() must be called before serve()"
  | some _ => "start() must be called before serve()"

end Server

end ModelRest
