import ModelRest.Error
import ModelRest.KeyMap
import ModelRest.Route.Template

/-!
# Route tables

A table binds verbs and paths to what serves them. A route is refused if its verb and path are bound
already, or if another path of the same shape is bound, whose parameters have other names; a route
that is refused leaves the table as it was.
-/

namespace ModelRest

/-- A route that is bound. -/
structure BoundRoute (α : Type) where
  /-- The verb, in upper case. -/
  verb : String
  /-- The path, with its parameters in braces. -/
  path : String
  /-- What serves it. -/
  serves : α
deriving Inhabited

namespace BoundRoute

variable {α : Type}

/-- The route of a verb and a template. -/
def ofTemplate (verb template : String) (serves : α) : BoundRoute α :=
  { verb := verb, path := String.ofList (Template.convert template.toList), serves := serves }

/-- The shape of the path. -/
def shape (r : BoundRoute α) : String := String.ofList (Template.shape r.path.toList)

end BoundRoute

/-- Routes that are bound together. -/
structure RouteTable (α : Type) where
  /-- The routes, in the order they were bound. -/
  routes : List (BoundRoute α) := []
  /-- The path of every shape. -/
  shapes : KeyMap String := []
deriving Inhabited

/-- A computation that binds routes and may fail; those bound before stay bound. -/
abbrev RouteM (α : Type) := EStateM ServerError (RouteTable α)

namespace RouteTable

variable {α : Type}

/-- Adds a route if none of its verb and path is there, and answers whether it was added. -/
def add (t : RouteTable α) (r : BoundRoute α) : Bool × RouteTable α :=
  if t.routes.any fun b => b.verb == r.verb && b.path == r.path then (false, t)
  else (true, { t with routes := t.routes ++ [r] })

/-- Binds a route. -/
def bind (r : BoundRoute α) : RouteM α Unit := fun t =>
  if (KeyMap.get? t.shapes r.shape).any (· != r.path) then .error (.routeConflict r.verb r.path) t
  else
    match t.add r with
    | (false, t) => .error (.routeConflict r.verb r.path) t
    | (true, t) => .ok () { t with shapes := KeyMap.insert t.shapes r.shape r.path }

/-- The verbs that a route can have. -/
def verbs : List String :=
  ["GET", "HEAD", "POST", "PUT", "PATCH", "DELETE", "OPTIONS", "TRACE", "CONNECT"]

/-- Binds a route whose verb is any text. -/
def bindVerb (r : BoundRoute α) : RouteM α Unit := fun t =>
  if verbs.contains r.verb then bind r t else .error (.unsupportedVerb r.verb) t

/-- The table with the route of a text that is to be a verb, and a template. -/
def register (t : RouteTable α) (verb template : String) (serves : α) :
    Except ServerError (RouteTable α) :=
  match bindVerb (.ofTemplate verb template serves) t with
  | .ok () t => .ok t
  | .error e _ => .error e

/-- A verb and a path are listed before others. -/
def pairLE (a b : String × String) : Bool := a.1 < b.1 || (a.1 == b.1 && a.2 ≤ b.2)

/-- How many routes are bound. -/
def size (t : RouteTable α) : Nat := t.routes.length

/-- The verbs and paths that are bound, in the order of the verbs and, for one verb, of the paths. -/
def bound (t : RouteTable α) : List (String × String) :=
  (t.routes.map fun r => (r.verb, r.path)).mergeSort pairLE

end RouteTable

/-! ### Mounting -/

namespace BoundRoute

variable {α : Type}

/-- A path below another: the other path alone for a slash alone. -/
def pathBelow (mount path : List Char) : List Char :=
  match mount.getLast? with
  | some '/' => mount ++ path.dropWhile (· == '/')
  | _ => if path = ['/'] then mount else mount ++ path

/-- The route below a path. -/
def below (mount : String) (r : BoundRoute α) : BoundRoute α :=
  { r with path := String.ofList (pathBelow mount.toList r.path.toList) }

end BoundRoute

end ModelRest
