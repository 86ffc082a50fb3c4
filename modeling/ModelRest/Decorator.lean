import ModelRest.Declaration.Basic
import ModelRest.Schema.FieldSpec
import ModelRest.Error

/-!
# Decorators

What the decorators of a class, a property or a method mean. The decorators of this library have
named parameters, and a call pairs its arguments with them; a decorator that is not in the catalogue
may have any arguments. `classMetadata?` reads the mark of a model, `propertyMetadata` what is said
about a field, and `methodRole` what a method is for.
-/

namespace ModelRest

namespace Decorator

/-- The parameters of a decorator of this library. -/
def parameters? : String → Option (List String)
  | "model" => some ["options"]
  | "collection" => some ["name"]
  | "required" => some []
  | "unique" => some []
  | "index" => some []
  | "immutable" => some []
  | "readonly" => some []
  | "insertonly" => some []
  | "embedded" => some []
  | "invisible" => some ["predicate"]
  | "reverse" => some ["path"]
  | "enumeration" => some ["values"]
  | "hook" => some ["name"]
  | "route" => some ["method", "path"]
  | _ => none

/-- A call with its arguments by the names of their parameters. -/
structure Inspected where
  /-- The decorator's name. -/
  name : String
  /-- The arguments. -/
  args : KeyMap Json
deriving Inhabited

/-- The names under which the arguments of an unknown decorator are kept, from a number on. -/
def numberedFrom : Nat → List Json → List (String × Json)
  | _, [] => []
  | n, arg :: rest => (s!"arg{n}", arg) :: numberedFrom (n + 1) rest

/-- Pairs the arguments of a call with the parameters of its decorator. -/
def inspect (call : DecoratorCall) : Except ConfigError Inspected :=
  match parameters? call.name with
  | some parameters =>
    if parameters.length < call.args.length then
      .error (.invalidDecorator call.name (.tooMany parameters.length call.args.length))
    else .ok { name := call.name, args := KeyMap.ofPairs (parameters.zip call.args) }
  | none => .ok { name := call.name, args := KeyMap.ofPairs (numberedFrom 0 call.args) }

/-- A call keeps the name of its decorator. -/
theorem name_of_inspect {call : DecoratorCall} {d : Inspected} (h : inspect call = .ok d) :
    d.name = call.name := by
  unfold inspect at h
  split at h
  · split at h
    · cases h
    · cases h
      rfl
  · cases h
    rfl

namespace Inspected

/-- The value that stands for the call, with the parameters of its decorator. -/
def toJson (d : Inspected) : Json := .ofMembers
  [("name", .string d.name), ("args", .object d.args),
    ("parameters", ((parameters? d.name).map Json.ofStrings).getD .null)]

/-- Refuses the call. -/
def refuse {α : Type} (d : Inspected) (fault : ArgumentFault) : Except ConfigError α :=
  .error (.invalidDecorator d.name fault)

/-- The argument of a parameter that takes a text, if there is one. -/
def text? (d : Inspected) (parameter : String) : Except ConfigError (Option String) :=
  match KeyMap.get? d.args parameter with
  | none => .ok none
  | some .null => .ok none
  | some (.string s) => .ok (some s)
  | some other => d.refuse (.notText parameter other)

/-- The argument of a parameter that needs a text. -/
def requiredText (d : Inspected) (parameter : String) : Except ConfigError String := do
  match ← d.text? parameter with
  | some s => pure s
  | none => d.refuse (.missing parameter)

end Inspected

end Decorator

open Decorator

/-! ### Classes -/

/-- What the mark of a model says. -/
structure ClassMetadata where
  /-- The name of the collection. -/
  collection : String
  /-- The model is stored. -/
  persistent : Bool := true
  /-- Where it is stored, if that is said. -/
  datasource : Option String := none
  /-- The model that this one stands for. -/
  linked : Option String := none
deriving DecidableEq, Inhabited

namespace ClassMetadata

/-- The value that stands for what a mark says. -/
def toJson (m : ClassMetadata) : Json := .ofMembers
  [("collectionName", .string m.collection), ("persistent", .bool m.persistent),
    ("datasource", .ofString? m.datasource), ("linkedFactory", .ofString? m.linked)]

/-- What a mark without arguments says about a class. -/
def initial (c : ClassDecl) : ClassMetadata := { collection := c.name }

/-- What one option of a model says. -/
def applyOption (d : Inspected) (m : ClassMetadata) (option : String × Json) :
    Except ConfigError ClassMetadata :=
  match option with
  | (_, .null) => .ok m
  | ("persistent", .bool b) => .ok { m with persistent := b }
  | ("datasource", .string s) => .ok { m with datasource := some s }
  | ("collectionName", .string s) => .ok { m with collection := s }
  | ("linkedFactory", .string s) => .ok { m with linked := some s }
  | (key, v) =>
    if ["persistent", "datasource", "collectionName", "linkedFactory"].contains key then
      d.refuse (.badOption key v)
    else .ok m

/-- What one decorator of a class adds to what the ones before it said. -/
def applyCall (c : ClassDecl) (m : Option ClassMetadata) (call : DecoratorCall) :
    Except ConfigError (Option ClassMetadata) := do
  let d ← inspect call
  match d.name with
  | "model" =>
    let m := m.getD (initial c)
    match KeyMap.get? d.args "options" with
    | none => pure (some m)
    | some .null => pure (some m)
    | some (.object options) => some <$> options.foldlM (applyOption d) m
    | some other => d.refuse (.notObject "options" other)
  | "collection" =>
    let m := m.getD (initial c)
    match ← d.text? "name" with
    | some name => pure (some { m with collection := name })
    | none => pure (some m)
  | _ => pure m

end ClassMetadata

/-- What the mark of a model says; nothing if the class has no mark. -/
def classMetadata? (c : ClassDecl) : Except ConfigError (Option ClassMetadata) :=
  c.decorators.foldlM (ClassMetadata.applyCall c) none

/-! ### Properties -/

/-- What the decorators of a property say. -/
structure PropertyMetadata where
  /-- The metadata of the field. -/
  spec : FieldSpec := {}
  /-- The field of the other model that refers back. -/
  reverse : Option String := none
deriving DecidableEq, Inhabited

namespace PropertyMetadata

/-- The metadata of the field, if there is any. -/
def spec? (m : PropertyMetadata) : Option FieldSpec := if m.spec.isEmpty then none else some m.spec

/-- What one decorator of a property adds to what the ones before it said. -/
def applyCall (m : PropertyMetadata) (call : DecoratorCall) :
    Except ConfigError PropertyMetadata := do
  let d ← inspect call
  match d.name with
  | "required" => pure { m with spec := { m.spec with required := true } }
  | "unique" => pure { m with spec := { m.spec with unique := true } }
  | "index" => pure { m with spec := { m.spec with index := true } }
  | "immutable" => pure { m with spec := { m.spec with immutable := true } }
  | "readonly" => pure { m with spec := { m.spec with readOnly := true } }
  | "insertonly" => pure { m with spec := { m.spec with insertOnly := true } }
  | "embedded" => pure { m with spec := { m.spec with embedded := true } }
  | "invisible" =>
    match KeyMap.get? d.args "predicate" with
    | none => pure { m with spec := { m.spec with invisible := some (.flag true) } }
    | some .null => pure { m with spec := { m.spec with invisible := some (.flag true) } }
    | some (.bool b) => pure { m with spec := { m.spec with invisible := some (.flag b) } }
    | some (.string s) => pure { m with spec := { m.spec with invisible := some (.predicate s) } }
    | some other => d.refuse (.notPredicate "predicate" other)
  | "reverse" =>
    let path ← d.requiredText "path"
    pure { m with reverse := some path }
  | "enumeration" =>
    match KeyMap.get? d.args "values" with
    | some (.array values) => pure { m with spec := { m.spec with allowed := some values } }
    | other => d.refuse (.notArray "values" (other.getD .null))
  | "hook" => d.refuse .notForProperties
  | "route" => d.refuse .notForProperties
  | "model" => d.refuse .notForProperties
  | "collection" => d.refuse .notForProperties
  | name => pure { m with spec := m.spec.addExtra name (.object d.args) }

end PropertyMetadata

/-- What the decorators of a property say. -/
def propertyMetadata (calls : List DecoratorCall) : Except ConfigError PropertyMetadata :=
  calls.foldlM PropertyMetadata.applyCall {}

/-! ### Methods -/

/-- What a method is for. -/
inductive MethodRole where
  /-- It can be called. -/
  | plain
  /-- It is called at a certain point in the life of an instance. -/
  | hook (name : String)
  /-- It serves a route. -/
  | route (verb path : String)
deriving DecidableEq, Inhabited

/-- The value that stands for what a method is for. -/
def MethodRole.toJson : MethodRole → Json
  | .plain => .ofMembers [("role", .string "plain")]
  | .hook name => .ofMembers [("role", .string "hook"), ("name", .string name)]
  | .route verb path => .ofMembers
    [("role", .string "route"), ("method", .string verb), ("path", .string path)]

/-- The verbs that routes have. -/
def routeVerbs : List String := ["get", "post", "put", "patch", "delete"]

/-- The path with a slash at its beginning. -/
def withSlash (path : String) : String :=
  match path.toList with
  | '/' :: _ => path
  | cs => String.ofList ('/' :: cs)

/-- What the decorators of a method make of it: the first hook or route counts. -/
def methodRole : List DecoratorCall → Except ConfigError MethodRole
  | [] => .ok .plain
  | call :: rest => do
    let d ← inspect call
    match d.name with
    | "hook" => MethodRole.hook <$> d.requiredText "name"
    | "route" =>
      let verb := String.ofList ((← d.requiredText "method").toList.map Char.toLower)
      if routeVerbs.contains verb then
        let path ← d.text? "path"
        pure (.route verb (withSlash (path.getD "")))
      else d.refuse (.unknownVerb verb)
    | _ => methodRole rest

end ModelRest
