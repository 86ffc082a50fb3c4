import ModelRest.Registry
import ModelRest.Schema.Member
import ModelRest.Source.Loading

/-!
# Compiling

Compiling makes a factory for every loaded model and registers it, so that every model can refer to
every other; then it gives the factories their schemas, and last it links those that stand for
other models. An error ends the compiling; the factories that were registered before stay so.
-/

namespace ModelRest

/-- A model that is being compiled. -/
structure Enrolled where
  /-- The number of its factory. -/
  number : Nat
  /-- Its factory when it was registered. -/
  factory : Factory
  /-- Its declaration. -/
  decl : ClassDecl
deriving Inhabited

/-- A computation that changes a registry and may fail; what it changed before stays changed. -/
abbrev CompileM := EStateM ConfigError Registry

namespace Enrolled

/-- A factory for a loaded model whose mark says so much, without a schema. -/
def factoryOf (connectors : Connectors) (defaultDatasource : String) (m : LoadedModel)
    (said : ClassMetadata) : Except ConfigError Factory :=
  let datasource := said.datasource.getD defaultDatasource
  let connector := KeyMap.get? connectors datasource
  if said.persistent && connector.isNone then
    .error (.missingConnector said.collection datasource)
  else .ok
    { name := said.collection
      cls := m.cls
      documentation := m.decl.documentation
      options :=
        { persistent := said.persistent, datasource := some datasource, linked := said.linked }
      connector := connector }

/-- Makes and registers the factory of a loaded model. -/
def enroll (connectors : Connectors) (defaultDatasource : String) (m : LoadedModel) :
    CompileM (Option Enrolled) := fun r =>
  match classMetadata? m.decl with
  | .error e => .error e r
  | .ok none => .ok none r
  | .ok (some said) =>
    match factoryOf connectors defaultDatasource m said with
    | .error e => .error e r
    | .ok f =>
      match (r.make f).register f.name r.made.length with
      | .error e => .error e r
      | .ok registered =>
        .ok (some { number := r.made.length, factory := f, decl := m.decl }) registered

/-- What names of types stand for among models that are compiled together. -/
def context (models : List Enrolled) (r : Registry) : TypeContext where
  collections := KeyMap.ofPairs (models.map fun m => (m.decl.name, m.factory.name))
  registered := r.names

/-- Changes the factory of a number. -/
def change (number : Nat) (change : Factory → Except ConfigError Factory) : CompileM Unit :=
  fun r =>
    match r.made[number]? with
    | none => .ok () r
    | some f =>
      match change f with
      | .error e => .error e r
      | .ok f => .ok () (r.update number f)

/-- Gives the factory of a model its schema. -/
def compileSchema (classes : KeyMap ClassDecl) (ctx : TypeContext) (m : Enrolled) :
    CompileM Unit :=
  change m.number fun f => do
    let schema ← ModelSchema.ofClass classes ctx m.factory.cls m.decl
    f.installSchema schema

/-- The factory that a model stands for: its own one is named by class, or else by collection. -/
def linkTarget (ctx : TypeContext) (r : Registry) (m : Enrolled) : Except ConfigError Factory :=
  let name := m.factory.options.linked.getD ""
  let collection := (KeyMap.get? ctx.collections name).getD name
  match r.find? collection with
  | none => .error (.unknownLinkedFactory m.factory.name name)
  | some target =>
    if target.isLinked || !target.isCompiled then
      .error (.unknownLinkedFactory m.factory.name name)
    else .ok target

/-- Links the factory of a model to the one it stands for, and gives it the schema of that. -/
def compileLink (ctx : TypeContext) (m : Enrolled) : CompileM Unit := fun r =>
  match linkTarget ctx r m with
  | .error e => .error e r
  | .ok target =>
    change m.number (fun f => do (← f.link target.name).installSchema target.schema) r

end Enrolled

open Enrolled in
/-- Compiles loaded models, and answers the numbers of their factories in order. -/
def compile (connectors : Connectors) (defaultDatasource : String) (loaded : LoadedSources) :
    CompileM (List Nat) := do
  let enrolled ← loaded.models.mapM (enroll connectors defaultDatasource)
  let models := enrolled.filterMap id
  let ctx := context models (← get)
  (models.filter (!·.factory.isLinked)).forM (compileSchema loaded.classes ctx)
  (models.filter (·.factory.isLinked)).forM (compileLink ctx)
  pure (models.map number)

end ModelRest
