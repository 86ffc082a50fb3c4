import ModelRest.ModelClass
import ModelRest.Connector
import ModelRest.Decorator
import ModelRest.Text.LowerCase

/-!
# Factories

A factory stands for one model: it knows the behaviour of the model's class, its options and its
connector, and in the course of its life it is given a schema, perhaps a link to the model that it
stands for, and last its fields, their validators and the actions on its records. Each of these is
given once: a second time is an error, and an error leaves the factory as it was.
-/

namespace ModelRest

/-- Where a model is stored and whether it stands for another. -/
structure FactoryOptions where
  /-- The model is stored. -/
  persistent : Bool
  /-- Where it is stored, if that is said. -/
  datasource : Option String := none
  /-- The class or the collection of the model that this one stands for. -/
  linked : Option String := none
deriving DecidableEq, Inhabited

/-- A validator of a field. -/
structure AttachedValidator where
  /-- The place of the field among the fields of the factory. -/
  field : Nat
  /-- The validator. -/
  validator : Validator
deriving Inhabited

/-- What a factory is given last. -/
structure FactoryRuntime where
  /-- The fields: properties first, then references. -/
  fields : List Field
  /-- The validators in the order in which they have their turns. -/
  validators : List AttachedValidator
  /-- The actions on the records of a model that is stored. -/
  binding : Option Actions
deriving Inhabited

/-- What stands for one model. -/
structure Factory where
  /-- The name of the collection. -/
  name : String
  /-- The behaviour of the model. -/
  cls : ModelClass
  /-- What the author of the class says about it. -/
  documentation : String := ""
  /-- Where the model is stored and whether it stands for another. -/
  options : FactoryOptions
  /-- The connector of its datasource. -/
  connector : Option Connector := none
  /-- The schema, once it is installed. -/
  schema? : Option ModelSchema := none
  /-- The collection of the model that this one stands for, once it is found. -/
  link? : Option String := none
  /-- The fields, validators and actions, once the factory is initialized. -/
  runtime? : Option FactoryRuntime := none
deriving Inhabited

namespace Factory

/-- The schema; one without anything before it is installed. -/
def schema (f : Factory) : ModelSchema := f.schema?.getD {}

/-- The name of the collection in paths. -/
def routeName (f : Factory) : String := String.ofList (Text.lowerFirst f.name.toList)

/-- The model stands for another. -/
def isLinked (f : Factory) : Bool := f.options.linked.isSome

/-- The schema is installed. -/
def isCompiled (f : Factory) : Bool := f.schema?.isSome

/-- The factory has its fields. -/
def isInitialized (f : Factory) : Bool := f.runtime?.isSome

/-- The fields, which are none before the factory is initialized. -/
def fields (f : Factory) : List Field := (f.runtime?.map FactoryRuntime.fields).getD []

/-- The field of that name. -/
def field? (f : Factory) (name : String) : Option Field := f.fields.find? fun x => x.name == name

/-- The actions on the model's records, if it is stored and the factory is bound to them. -/
def actions? (f : Factory) : Option Actions := f.runtime?.bind FactoryRuntime.binding

/-- The actions on the model's records, which there must be. -/
def requireActions (f : Factory) : Except FactoryError Actions :=
  match f.actions? with
  | some a => .ok a
  | none => .error (.notPersistent f.name)

/-- The collection that a field refers to. -/
def target? (f : Factory) (field : String) : Option String :=
  (KeyMap.get? f.schema.prototype field).bind SchemaEntry.target?

/-! ### Hooks -/

/-- The hook run before an instance is written. -/
def beforeSave : String := "beforeSave"

/-- The hook run after an instance was written. -/
def afterSave : String := "afterSave"

/-- The function of a hook. -/
def hook? (f : Factory) (name : String) : Option (Object → Except String Object) :=
  (KeyMap.get? f.schema.hooks name).bind (KeyMap.get? f.cls.hooks ·)

/-- Runs a hook on an instance; a hook that there is not does nothing. -/
def runHook (f : Factory) (name : String) (i : Instance) : Except FactoryError Instance :=
  match f.hook? name with
  | none => .ok i
  | some hook =>
    match hook i.values with
    | .ok values => .ok (i.replace values)
    | .error cause => .error (.hook name f.name cause)

/-! ### Life -/

/-- Gives the factory its schema. -/
def installSchema (f : Factory) (schema : ModelSchema) : Except ConfigError Factory :=
  match f.schema? with
  | some _ => .error (.alreadyCompiled f.name)
  | none => .ok { f with schema? := some schema }

/-- Tells the factory which collection it stands for. -/
def link (f : Factory) (target : String) : Except ConfigError Factory :=
  match f.link? with
  | some _ => .error (.alreadyCompiled f.name)
  | none => .ok { f with link? := some target }

/-- The field of a name in a schema, if the schema has an entry for it. -/
def resolveField? (f : Factory) (schema : ModelSchema) (name : String) :
    Except ConfigError (Option Field) :=
  match KeyMap.get? schema.prototype name with
  | none => .ok none
  | some entry =>
    some <$> Field.resolve f.name name entry (KeyMap.get? schema.references name) f.cls.predicates

/-- The fields of a schema. -/
def resolveFields (f : Factory) (schema : ModelSchema) : Except ConfigError (List Field) :=
  (·.filterMap id) <$> schema.fieldNames.mapM (f.resolveField? schema)

/-- The validator for a tag: the class's own goes before the connector's, and that before those of
every model. -/
def validator? (f : Factory) (everywhere : KeyMap Validator) (tag : String) : Option Validator :=
  (KeyMap.get? f.cls.validators tag).or
    ((f.connector.bind (·.validator? tag)).or (KeyMap.get? everywhere tag))

/-- The validators of a field at a place, tag by tag. -/
def attach (f : Factory) (everywhere : KeyMap Validator) (p : Field × Nat) :
    List AttachedValidator :=
  p.1.tags.filterMap fun tag =>
    (f.validator? everywhere tag).map fun v => { field := p.2, validator := v }

/-- Gives the factory its fields and validators and, if its model is stored, the actions. -/
def init (f : Factory) (everywhere : KeyMap Validator) (binding : Option Actions) :
    Except ConfigError Factory := do
  match f.schema? with
  | none => throw (.notCompiled f.name)
  | some schema =>
    if f.isInitialized then throw (.alreadyInitialized f.name)
    let fields ← f.resolveFields schema
    pure { f with
      runtime? := some
        { fields := fields
          validators := fields.zipIdx.flatMap (f.attach everywhere)
          binding := if f.options.persistent then binding else none } }

/-- The actions that a factory of this kind is bound to: those of its connector on its collection,
if its model is stored. -/
def openActions (f : Factory) (store : Store) : Except ConfigError (Option Actions) :=
  match f.connector, f.options.persistent with
  | some connector, true =>
    let datasource := f.options.datasource.getD connector.datasource
    match connector.actions store f.name datasource with
    | .ok actions => .ok (some actions)
    | .error cause => .error (.connector cause)
  | _, _ => .ok none

/-! ### Validation -/

/-- What the validators find about the fields of an instance, each in its turn, until one ends the
validation. -/
def findings (store : Store) (model : String) (values : Object) (fields : List Field) :
    List AttachedValidator → List Diagnosis
  | [] => []
  | a :: rest =>
    match fields[a.field]? with
    | none => findings store model values fields rest
    | some field =>
      let found := a.validator.check store model values field
      found.diagnoses ++
        if found.proceed then findings store model values fields rest else []

/-- The instance with what the validators find about it, in place of what was found before. -/
def diagnose (f : Factory) (store : Store) (i : Instance) : Instance :=
  { i with
    diagnoses :=
      match f.runtime? with
      | some runtime => findings store i.model i.values runtime.fields runtime.validators
      | none => [] }

/-- The outcome of the validation of an instance. -/
def verdict (i : Instance) : Except FactoryError Unit :=
  if i.hasErrors then .error (.validation i.diagnoses) else .ok ()

/-! ### As a JSON value -/

/-- The value that describes a factory. -/
def toJson (f : Factory) : Json := .ofMembers
  [("collectionName", .string f.name), ("routeName", .string f.routeName),
    ("class", .string f.cls.name), ("documentation", .string f.documentation),
    ("persistent", .bool f.options.persistent),
    ("datasource", .ofString? f.options.datasource),
    ("linkedFactory", .ofString? f.options.linked), ("linked", .bool f.isLinked),
    ("linkedCollection", .ofString? f.link?),
    ("connector", .ofString? (f.connector.map Connector.datasource)),
    ("compiled", .bool f.isCompiled), ("initialized", .bool f.isInitialized),
    ("bound", .bool f.actions?.isSome), ("controller", .bool f.actions?.isSome),
    ("fieldNames", .ofStrings f.schema.fieldNames),
    ("fields", .ofStrings (f.fields.map Field.name))]

end Factory

end ModelRest
