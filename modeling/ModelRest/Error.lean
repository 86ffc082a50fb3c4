import ModelRest.Diagnosis
import ModelRest.Json.Printer

/-!
# Errors

What can go wrong, by the phase in which it does: while models are declared, compiled and set up
(`ConfigError`), when a factory is used (`FactoryError`), when a request is answered
(`RequestError`) and when a server starts (`ServerError`). Each error says its cause; its wording is
in one function.
-/

namespace ModelRest

/-- What stands for the reason why a text is no JSON value. -/
def malformedJson : String := "<json error>"

/-! ### Configuration -/

/-- What is wrong with the arguments of a decorator. -/
inductive ArgumentFault where
  /-- There are more arguments than the decorator has parameters. -/
  | tooMany (parameters given : Nat)
  /-- The argument of a parameter is no text. -/
  | notText (parameter : String) (given : Json)
  /-- The argument of a parameter is no object. -/
  | notObject (parameter : String) (given : Json)
  /-- The argument of a parameter is no array. -/
  | notArray (parameter : String) (given : Json)
  /-- The argument of a parameter is neither a truth value nor the name of a predicate. -/
  | notPredicate (parameter : String) (given : Json)
  /-- An option of a model has a value of the wrong kind. -/
  | badOption (key : String) (given : Json)
  /-- A parameter has no argument. -/
  | missing (parameter : String)
  /-- The decorator is not meant for properties. -/
  | notForProperties
  /-- A route has a verb that routes do not have. -/
  | unknownVerb (verb : String)
deriving DecidableEq, Inhabited

/-- The wording of a fault. -/
def ArgumentFault.message : ArgumentFault → String
  | .tooMany parameters given => s!"expected at most {parameters} argument(s), got {given}"
  | .notText parameter given => s!"'{parameter}' must be a string, got " ++ given.render
  | .notObject parameter given => s!"'{parameter}' must be an object, got " ++ given.render
  | .notArray parameter given => s!"'{parameter}' must be an array, got " ++ given.render
  | .notPredicate parameter given =>
    s!"'{parameter}' must be a boolean or a predicate name, got " ++ given.render
  | .badOption key given => s!"option '{key}' has an unexpected value " ++ given.render
  | .missing parameter => s!"'{parameter}' is required"
  | .notForProperties => "not applicable to properties"
  | .unknownVerb verb => s!"unsupported HTTP verb '{verb}'"

/-- Why a file cannot be read. -/
inductive FileFault where
  /-- There is no such file. -/
  | missing
  /-- It is a directory. -/
  | isDirectory
  /-- A file stands where a directory is needed. -/
  | notDirectory
  /-- The path, or a name in it, has too many bytes. -/
  | nameTooLong
  /-- The path holds a character that no name can have. -/
  | nulByte
deriving DecidableEq, Inhabited

/-- The wording of a fault, with the number the operating system gives it. -/
def FileFault.message : FileFault → String
  | .missing => "No such file or directory (os error 2)"
  | .isDirectory => "Is a directory (os error 21)"
  | .notDirectory => "Not a directory (os error 20)"
  | .nameTooLong => "File name too long (os error 36)"
  | .nulByte => "file name contained an unexpected NUL byte"

/-- What can go wrong while models are declared, compiled and set up. -/
inductive ConfigError where
  /-- The name of a collection is taken. -/
  | duplicateModel (name : String)
  /-- The type of a property is neither native nor a model. -/
  | unresolvedType (cls property type : String)
  /-- A model is stored where nothing is connected. -/
  | missingConnector (model datasource : String)
  /-- A class is its own superclass, directly or not. -/
  | inheritanceCycle (cls : String)
  /-- A model stands for another that there is not. -/
  | unknownLinkedFactory (model target : String)
  /-- A schema is installed, or a link made, a second time. -/
  | alreadyCompiled (name : String)
  /-- A factory is initialized a second time. -/
  | alreadyInitialized (name : String)
  /-- A factory is initialized before it has a schema. -/
  | notCompiled (name : String)
  /-- The arguments of a decorator are wrong. -/
  | invalidDecorator (decorator : String) (fault : ArgumentFault)
  /-- A field is hidden by a predicate that there is not. -/
  | unknownPredicate (model field predicate : String)
  /-- A file of model sources cannot be read. -/
  | unreadable (path : String) (fault : FileFault)
  /-- A file does not hold a model source. -/
  | malformed (path : String)
  /-- A connector refuses to serve a collection. -/
  | connector (cause : String)
deriving DecidableEq, Inhabited

/-- The wording of a configuration error. -/
def ConfigError.message : ConfigError → String
  | .duplicateModel name => s!"model factory '{name}' is already registered"
  | .unresolvedType cls property type =>
    s!"no model factory registered for type '{type}' (property '{property}' of class '{cls}')"
  | .missingConnector model datasource =>
    s!"no connector registered for datasource '{datasource}' (model '{model}')"
  | .inheritanceCycle cls => s!"inheritance cycle detected while inspecting class '{cls}'"
  | .unknownLinkedFactory model target =>
    s!"model '{model}' links to unknown model factory '{target}'"
  | .alreadyCompiled name => s!"schema of model '{name}' has already been compiled"
  | .alreadyInitialized name => s!"model factory '{name}' has already been initialized"
  | .notCompiled name => s!"model factory '{name}' has no compiled schema"
  | .invalidDecorator decorator fault =>
    s!"invalid arguments for decorator '@{decorator}': " ++ fault.message
  | .unknownPredicate model field predicate =>
    s!"unknown visibility predicate '{predicate}' on '{model}.{field}'"
  | .unreadable path fault => s!"failed to read model source '{path}': " ++ fault.message
  | .malformed path => s!"failed to parse model source '{path}': " ++ malformedJson
  | .connector cause => s!"connector setup failed: {cause}"

/-! ### Factories -/

/-- What can go wrong when a factory is used. -/
inductive FactoryError where
  /-- A field refers to no model. -/
  | pathNotFound (path model : String)
  /-- No model of that name is registered. -/
  | factoryNotFound (name : String)
  /-- The model is not stored anywhere. -/
  | notPersistent (model : String)
  /-- The registry is gone. -/
  | registryDropped
  /-- A hook fails. -/
  | hook (name model cause : String)
  /-- The instance is not valid. -/
  | validation (diagnoses : List Diagnosis)
  /-- The datasource refuses an action. -/
  | datastore (cause : String)
deriving DecidableEq, Inhabited

/-- The wording of an error of a factory. -/
def FactoryError.message : FactoryError → String
  | .pathNotFound path model => s!"path '{path}' not found in '{model}' factory's prototype"
  | .factoryNotFound name => s!"model factory not found for '{name}'"
  | .notPersistent model => s!"model '{model}' is not persistent"
  | .registryDropped => "model registry has been dropped"
  | .hook name model cause => s!"hook '{name}' failed on '{model}': {cause}"
  | .validation diagnoses => Diagnosis.summary diagnoses
  | .datastore cause => s!"datastore error: {cause}"

/-! ### Requests -/

/-- Why a request is not answered as asked. -/
inductive RequestError where
  /-- What is asked for is not there. -/
  | notFound (text : String)
  /-- The request makes no sense. -/
  | badRequest (text : String)
  /-- The instance is not valid. -/
  | validation (diagnoses : List Diagnosis)
  /-- Something went wrong that the client has no part in. -/
  | internal (text : String)
  /-- The code that serves the request broke off. -/
  | crashed
deriving DecidableEq, Inhabited

/-- The wording of an error of a request. -/
def RequestError.message : RequestError → String
  | .notFound text => s!"not found: {text}"
  | .badRequest text => s!"bad request: {text}"
  | .validation diagnoses => Diagnosis.summary diagnoses
  | .internal text => s!"internal error: {text}"
  | .crashed => ""

/-- How an error of a factory is told to a client. -/
def FactoryError.toRequest (e : FactoryError) : RequestError :=
  match e with
  | .pathNotFound .. | .factoryNotFound .. => .notFound e.message
  | .validation diagnoses => .validation diagnoses
  | .notPersistent .. => .badRequest e.message
  | .registryDropped | .hook .. => .internal e.message
  | .datastore cause => .internal cause

/-! ### Servers -/

/-- What can go wrong when a server starts. -/
inductive ServerError where
  /-- The models are not in order. -/
  | config (e : ConfigError)
  /-- Two routes cannot be told apart. -/
  | routeConflict (verb path : String)
  /-- No route can have this verb. -/
  | unsupportedVerb (verb : String)
  /-- A connector does not connect. -/
  | connector (cause : String)
deriving DecidableEq, Inhabited

/-- The wording of an error of a server. -/
def ServerError.message : ServerError → String
  | .config e => e.message
  | .routeConflict verb path => s!"route '{verb} {path}' is bound twice"
  | .unsupportedVerb verb => s!"unsupported HTTP verb '{verb}'"
  | .connector cause => s!"connector failure: {cause}"

end ModelRest
