import ModelRest.Persistence

/-!
# Controllers

What a request does to the records of a model: look for records, read one, create one, replace one
(`update`), change one (`patch`), delete one. A request that names a reference is about that field
of the record alone. Methods of the class and of its instances are called here too.

Errors come in a fixed order: a body that is no object, parameters that make no sense, an
identifier that is missing or unknown, and then what the writing finds; for a reference, first of
all that the field is none.
-/

namespace ModelRest

/-- A request for the records of a model. -/
structure Request where
  /-- The identifier of the record. -/
  id : Option String := none
  /-- The field that the request is about. -/
  reference : Option String := none
  /-- The query. -/
  query : KeyMap String := []
  /-- The body; null if there is none. -/
  body : Json := .null
deriving Inhabited

/-- The answer to a request. -/
inductive Outcome where
  /-- The value asked for. -/
  | ok (body : Json)
  /-- The record created. -/
  | created (body : Json)
  /-- The record is deleted. -/
  | deleted
deriving Inhabited

/-- What the answer says; null for a record that is deleted. -/
def Outcome.body : Outcome → Json
  | .ok v => v
  | .created v => v
  | .deleted => .null

/-- Tells an error of a factory to the client. -/
def liftFactory {α : Type} (x : StoreM FactoryError α) : StoreM RequestError α :=
  EStateM.adaptExcept FactoryError.toRequest x

/-- Tells an error of a computation without the store to the client. -/
def liftLookup {α : Type} (x : Except FactoryError α) : StoreM RequestError α :=
  liftFactory (liftResult x)

namespace Request

/-- The identifier, which there must be. -/
def requireId (req : Request) : Except RequestError String :=
  match req.id with
  | some id => .ok id
  | none => .error (.badRequest "missing instance id")

/-- The parameters of the request. -/
def parameters (req : Request) : Except RequestError Parameters :=
  (Parameters.ofQuery req.query).map fun p => { p with reference := req.reference }

/-- The body, which must be an object. -/
def requireObject (req : Request) : Except RequestError Unit :=
  match req.body with
  | .object _ => .ok ()
  | _ => .error (.badRequest "request body must be a JSON object")

end Request

namespace Factory

/-- How it is said that there is no record of an identifier. -/
def unknownId (f : Factory) (id : String) : RequestError :=
  .notFound s!"instance '{id}' not found in '{f.name}'"

/-- The instance of the record of an identifier, which there must be. -/
def load (f : Factory) (id : String) (params : Parameters) : StoreM RequestError Instance := do
  match ← liftFactory (f.fetch id params) with
  | some i => pure i
  | none => throw (f.unknownId id)

/-- The instance of the record that a request is about. -/
def loadFor (f : Factory) (req : Request) (params : Parameters) :
    StoreM RequestError Instance := do
  let id ← liftResult req.requireId
  f.load id params

end Factory

/-! ### References -/

namespace Reference

/-- The items with those of more items that are not among them yet, each once. -/
def append (items more : List Json) : List Json :=
  more.foldl (fun items v => if items.any (Json.same v) then items else items ++ [v]) items

/-- The items of an array; any other value is one item. -/
def items : Json → List Json
  | .array items => items
  | v => [v]

/-- The items kept in a field; a value that is no array has none. -/
def kept : Option Json → List Json
  | some (.array items) => items
  | _ => []

/-- The value that a reference takes from what is given. A field for several values gets an array:
of what is given, or of what it has with what is given added; a field for one value takes no
array. -/
def written (reference : String) (plural append : Bool) (old : Option Json) (given : Json) :
    Except RequestError Json :=
  if plural then
    if append then .ok (.array (Reference.append (kept old) (items given)))
    else
      match given with
      | .null => .ok (.array [])
      | v => .ok (.array (items v))
  else
    match given with
    | .array _ => .error (.badRequest s!"reference '{reference}' holds a single value")
    | v => .ok v

end Reference

namespace Registry

/-- The records that a reference of an instance refers to. -/
def readReference (r : Registry) (f : Factory) (i : Instance) (reference : String) :
    StoreM RequestError Json := do
  let _ ← liftLookup (r.target f reference)
  let item := Json.object [(reference, (i.get? reference).getD .null)]
  let populated ← liftFactory
    (r.populateField f { includes := [{ path := reference }] } item reference)
  pure ((populated.member? reference).getD .null)

/-- Writes a reference of a record. -/
def writeReference (r : Registry) (f : Factory) (req : Request) (reference : String)
    (append : Bool) : StoreM RequestError Outcome := do
  let _ ← liftLookup (r.target f reference)
  let params ← liftResult req.parameters
  let i ← f.loadFor req params
  let plural := (f.field? reference).any Field.isPlural
  let value ← liftResult
    (Reference.written reference plural append (i.get? reference) (Reference.simplify req.body))
  let i ← liftFactory (f.saveInstance (i.set reference value) params)
  Outcome.ok <$> r.readReference f i reference

/-! ### Records -/

/-- Writes a record. -/
def writeRecord (r : Registry) (f : Factory) (req : Request) (deleteMissing : Bool) :
    StoreM RequestError Outcome := do
  liftResult req.requireObject
  let params ← liftResult req.parameters
  let i ← f.loadFor req params
  let i := f.updateValues i req.body { params with deleteMissing := deleteMissing }
  let i ← liftFactory (f.saveInstance i params)
  Outcome.ok <$> liftFactory (r.serialize f i params)

/-- Writes a record, or the reference of it that the request names. -/
def write (r : Registry) (f : Factory) (req : Request) (deleteMissing : Bool) :
    StoreM RequestError Outcome :=
  match req.reference with
  | some reference => r.writeReference f req reference (!deleteMissing)
  | none => r.writeRecord f req deleteMissing

/-! ### Requests -/

/-- Answers the records that the query looks for. -/
def query (r : Registry) (f : Factory) (req : Request) : StoreM RequestError Outcome := do
  let filter ← liftResult (Parameters.filterOf req.query)
  let params ← liftResult req.parameters
  let found ← liftFactory (f.fetchAll filter params)
  let items ← found.mapM fun i => liftFactory (r.serialize f i params)
  pure (.ok (.array items))

/-- Answers a record, or what the reference of it refers to that the request names. -/
def read (r : Registry) (f : Factory) (req : Request) : StoreM RequestError Outcome := do
  let params ← liftResult req.parameters
  let i ← f.loadFor req params
  match req.reference with
  | some reference => Outcome.ok <$> r.readReference f i reference
  | none => Outcome.ok <$> liftFactory (r.serialize f i params)

/-- Creates a record. -/
def create (r : Registry) (f : Factory) (req : Request) : StoreM RequestError Outcome := do
  liftResult req.requireObject
  let params ← liftResult req.parameters
  let new ← liftLookup (r.createNew f (.values req.body) none)
  let i ← liftFactory (f.saveInstance new.get params)
  Outcome.created <$> liftFactory (r.serialize f i params)

/-- Replaces the values of a record: what is not given is removed. -/
def replace (r : Registry) (f : Factory) (req : Request) : StoreM RequestError Outcome :=
  r.write f req true

/-- Changes the values of a record: what is not given stays. -/
def patch (r : Registry) (f : Factory) (req : Request) : StoreM RequestError Outcome :=
  r.write f req false

end Registry

namespace Factory

/-- Deletes a record. -/
def delete (f : Factory) (req : Request) : StoreM RequestError Outcome := do
  let params ← liftResult req.parameters
  let i ← f.loadFor req params
  if ← liftFactory (f.deleteInstance i) then pure .deleted
  else throw (f.unknownId (i.id?.getD ""))

/-! ### Methods -/

/-- Turns a fault of a handler into an error of the request. -/
def handled {α : Type} : Except HandlerFault α → StoreM RequestError α
  | .ok a => pure a
  | .error fault => throw fault.toRequest

/-- Calls a method of the class. -/
def executeService (f : Factory) (name : String) (body : Json) : StoreM RequestError Json :=
  let handler :=
    if f.schema.statics.contains name then KeyMap.get? f.cls.statics name else none
  match handler with
  | none => throw (.notFound s!"service '{name}' not found on '{f.name}'")
  | some handler => handled (handler body)

/-- Calls a method of the instance of an identifier. -/
def executeMethod (f : Factory) (id name : String) (body : Json) : StoreM RequestError Json := do
  let unknown : RequestError := .notFound s!"method '{name}' not found on '{f.name}' instance '{id}'"
  let handler :=
    if f.schema.methods.contains name then KeyMap.get? f.cls.methods name else none
  match handler with
  | none => throw unknown
  | some handler =>
    match ← liftFactory (f.fetch id {}) with
    | none => throw unknown
    | some i => handled (handler i body)

end Factory

end ModelRest
