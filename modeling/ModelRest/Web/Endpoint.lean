import ModelRest.Controller
import ModelRest.Route.Matching
import ModelRest.Web.Message

/-!
# Model routes

The routes of a model and what they do. A stored model has routes for its collection, for a record,
for a reference of a record and for the methods of a record; every model has one for the methods of
its class and those that it declares. A model that stands for another has none.

The faults of a request are found in a fixed order: parts of the path that are no texts, a route
handler that is missing, a body that is no JSON value, and then what the model says.
-/

namespace ModelRest.Web

/-- What a route does. -/
inductive Endpoint where
  /-- Looks for records. -/
  | query
  /-- Creates a record. -/
  | create
  /-- Reads a record. -/
  | read
  /-- Replaces a record. -/
  | replace
  /-- Changes a record. -/
  | patch
  /-- Deletes a record. -/
  | delete
  /-- Reads a reference of a record. -/
  | readReference
  /-- Replaces a reference of a record. -/
  | replaceReference
  /-- Changes a reference of a record. -/
  | patchReference
  /-- Calls a method of an instance. -/
  | executeMethod
  /-- Calls a method of the class. -/
  | executeService
  /-- Calls the handler of that name. -/
  | custom (handler : String)
deriving DecidableEq, Inhabited

/-- A route of the factory of a number. -/
structure ModelRoute where
  /-- The number of the factory. -/
  factory : Nat
  /-- What the route does. -/
  endpoint : Endpoint
deriving DecidableEq, Inhabited

/-! ### Binding -/

/-- The path of a model's routes. -/
def basePath (f : Factory) : String := "/" ++ f.routeName

/-- The routes of a stored model, with their verbs and paths. -/
def recordRoutes (base : String) : List (String × String × Endpoint) :=
  let record := base ++ "/\x7bid\x7d"
  let reference := record ++ "/\x7bref\x7d"
  [("GET", base, .query), ("POST", base, .create), ("GET", record, .read),
    ("PUT", record, .replace), ("PATCH", record, .patch), ("DELETE", record, .delete),
    ("GET", reference, .readReference), ("PUT", reference, .replaceReference),
    ("PATCH", reference, .patchReference),
    ("POST", record ++ "/$execute/\x7bname\x7d", .executeMethod)]

/-- The routes of every model, with their verbs and paths. -/
def classRoutes (base : String) (s : ModelSchema) : List (String × String × Endpoint) :=
  ("POST", base ++ "/$service/\x7bname\x7d", .executeService) ::
    s.routes.map fun r =>
      (String.ofList (r.verb.toList.map Char.toUpper), base ++ r.path, .custom r.handler)

/-- All routes of a model, in the order in which they are bound. -/
def modelRoutes (f : Factory) : List (String × String × Endpoint) :=
  if f.isLinked then []
  else
    (if f.options.persistent then recordRoutes (basePath f) else []) ++
      classRoutes (basePath f) f.schema

/-- Binds routes of models. -/
abbrev BindM := RouteM ModelRoute

/-- Binds one route. -/
def bindRoute (factory : Nat) (route : String × String × Endpoint) : BindM Unit :=
  RouteTable.bindVerb
    (.ofTemplate route.1 route.2.1 { factory := factory, endpoint := route.2.2 })

/-- Binds the routes of a model, and answers how many more are bound then. -/
def bindModel (number : Nat) (f : Factory) : BindM Nat := do
  let before := (← get).size
  (modelRoutes f).forM (bindRoute number)
  pure ((← get).size - before)

/-- Binds the routes of the models of several factories. -/
def bindModels (r : Registry) (numbers : List Nat) : BindM Unit :=
  numbers.forM fun n => do
    match r.made[n]? with
    | some f => discard (bindModel n f)
    | none => pure ()

/-! ### Handling -/

/-- How handling ends early. -/
inductive Halt where
  /-- There is a response. -/
  | answered (r : Response)
  /-- The code of a model broke off. -/
  | crashed
deriving Inhabited

/-- How handling ends with an error of a request. -/
def Halt.ofError : RequestError → Halt
  | .crashed => .crashed
  | e => .answered (.ofError e)

/-- Handling a request with a store. -/
abbrev HandleM := EStateM Halt Store

/-- Answers an error of a request. -/
def liftRequest {α : Type} (x : StoreM RequestError α) : HandleM α := EStateM.adaptExcept .ofError x

/-- Answers an error of a computation without the store. -/
def liftChecked {α : Type} (x : Except RequestError α) : HandleM α := liftRequest (liftResult x)

/-- The response to an outcome. -/
def render : Outcome → Response
  | .ok v => .ofJson 200 v
  | .created v => .ofJson 201 v
  | .deleted => { status := 204 }

/-- The parts that the parameters of a path took, by name. -/
abbrev Taken := List (List Char × List Char)

/-- The part that a parameter took, decoded. -/
def decodePart (part : List Char × List Char) : HandleM (String × String) :=
  let name := String.ofList part.1
  match decodeSegment? part.2 with
  | some text => pure (name, text)
  | none => throw (.answered (.ofText 400 s!"Invalid URL: Invalid UTF-8 in `{name}`"))

/-- The parts that the parameters took, decoded, the first one first. -/
def decodeTaken (taken : Taken) : HandleM (List (String × String)) := taken.reverse.mapM decodePart

/-- What is said about a path with more or fewer parameters than the route takes. -/
def parameterCountText (expected got : Nat) : String :=
  s!"Wrong number of path arguments for `Path`. Expected {expected} but got {got}" ++
    if expected = 1 then
      ". Note that multiple parameters must be extracted with a tuple `Path<(_, _)>` or a struct " ++
        "`Path<YourParams>`"
    else ""

/-- The response to a path with more or fewer parameters than the route takes. -/
def wrongParameters (expected got : Nat) : Response := .ofText 500 (parameterCountText expected got)

/-- The one part that the parameters of a path took. -/
def onePart (taken : Taken) : HandleM String := do
  match ← decodeTaken taken with
  | [(_, a)] => pure a
  | _ => throw (.answered (wrongParameters 1 taken.length))

/-- The two parts that the parameters of a path took. -/
def twoParts (taken : Taken) : HandleM (String × String) := do
  match ← decodeTaken taken with
  | [(_, a), (_, b)] => pure (a, b)
  | _ => throw (.answered (wrongParameters 2 taken.length))

/-- The model must be one that is served by requests for its records. -/
def requireController (f : Factory) : HandleM Unit :=
  match f.actions? with
  | some _ => pure ()
  | none => liftChecked (.error (.internal s!"model '{f.name}' has no controller"))

/-- Answers a request for a record that has a body. -/
def withBody (f : Factory) (req : Request) (body : String)
    (answer : Request → StoreM RequestError Outcome) : HandleM Response := do
  let body ← liftChecked (decodeBody body)
  requireController f
  render <$> liftRequest (answer { req with body := body })

/-- Answers a request for a record that has no body. -/
def withoutBody (f : Factory) (req : Request) (answer : Request → StoreM RequestError Outcome) :
    HandleM Response := do
  requireController f
  render <$> liftRequest (answer req)

/-- Calls the handler of a declared route. -/
def handleCustom (f : Factory) (handler : String) (params : List (String × String))
    (req : Incoming) : HandleM Response :=
  match KeyMap.get? f.cls.routes handler with
  | none =>
    liftChecked (.error (.notFound s!"route handler '{handler}' not found on '{f.name}'"))
  | some run => do
    let body ← liftChecked (decodeBody req.body)
    let answer ← liftRequest (Factory.handled (run
      { params := KeyMap.ofPairs params, query := parseQuery req.query, body := body }))
    pure (.ofJson 200 answer)

/-- Answers a request with what an endpoint does for the model of a factory. -/
def handle (r : Registry) (f : Factory) (taken : Taken) (req : Incoming) :
    Endpoint → HandleM Response
  | .query => withoutBody f { query := parseQuery req.query } (r.query f)
  | .create => withBody f { query := parseQuery req.query } req.body (r.create f)
  | .read => do
    let id ← onePart taken
    withoutBody f { id := some id, query := parseQuery req.query } (r.read f)
  | .replace => do
    let id ← onePart taken
    withBody f { id := some id, query := parseQuery req.query } req.body (r.replace f)
  | .patch => do
    let id ← onePart taken
    withBody f { id := some id, query := parseQuery req.query } req.body (r.patch f)
  | .delete => do
    let id ← onePart taken
    withoutBody f { id := some id } f.delete
  | .readReference => do
    let (id, reference) ← twoParts taken
    withoutBody f
      { id := some id, reference := some reference, query := parseQuery req.query } (r.read f)
  | .replaceReference => do
    let (id, reference) ← twoParts taken
    withBody f { id := some id, reference := some reference, query := parseQuery req.query }
      req.body (r.replace f)
  | .patchReference => do
    let (id, reference) ← twoParts taken
    withBody f { id := some id, reference := some reference, query := parseQuery req.query }
      req.body (r.patch f)
  | .executeMethod => do
    let (id, name) ← twoParts taken
    let body ← liftChecked (decodeBody req.body)
    let answer ← liftRequest (f.executeMethod id name body)
    pure (.ofJson 200 answer)
  | .executeService => do
    let name ← onePart taken
    let body ← liftChecked (decodeBody req.body)
    let answer ← liftRequest (f.executeService name body)
    pure (.ofJson 200 answer)
  | .custom handler => do
    let params ← decodeTaken taken
    handleCustom f handler params req

end ModelRest.Web
