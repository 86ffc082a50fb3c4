import ModelRest.Validator

/-!
# Model classes

The behaviour of a model that its declaration only names: methods of the class and of its
instances, hooks, route handlers, predicates that hide fields, and validators of its own. All are
functions, kept by name.

Hooks and predicates are given the values of an instance and nothing else of it, neither its model
nor its diagnoses. What a hook does to the values counts only if it succeeds: when it fails the
instance is as it was before, also where the code that the hook stands for has changed some values
by then.
-/

namespace ModelRest

/-- How the code of a class fails. -/
inductive HandlerFault where
  /-- It says why. -/
  | failed (cause : String)
  /-- It breaks off. -/
  | crashed
deriving DecidableEq, Inhabited

/-- How a fault of a handler is told to a client. -/
def HandlerFault.toRequest : HandlerFault → RequestError
  | .failed cause => .internal cause
  | .crashed => .crashed

/-- What the handler of a route sees of a request. -/
structure RouteRequest where
  /-- The parts of the path that the route leaves open, by name. -/
  params : KeyMap String := []
  /-- The query. -/
  query : KeyMap String := []
  /-- The body; null if there is none. -/
  body : Json := .null
deriving Inhabited

/-- The behaviour of a model. -/
structure ModelClass where
  /-- The name of the class. -/
  name : String
  /-- The methods of the class; they see the body of the request. -/
  statics : KeyMap (Json → Except HandlerFault Json) := []
  /-- The methods of instances; they see the instance and the body of the request. -/
  methods : KeyMap (Instance → Json → Except HandlerFault Json) := []
  /-- The hooks, by the methods that implement them; they change the values of an instance, or fail
  and change none. -/
  hooks : KeyMap (Object → Except String Object) := []
  /-- The handlers of routes. -/
  routes : KeyMap (RouteRequest → Except HandlerFault Json) := []
  /-- The predicates that hide fields; they see the values of an instance only. -/
  predicates : KeyMap (Object → Bool) := []
  /-- The validators that go before all others, by tag. -/
  validators : KeyMap Validator := []
deriving Inhabited

/-- A class without behaviour. -/
def ModelClass.plain (name : String) : ModelClass := { name := name }

end ModelRest
