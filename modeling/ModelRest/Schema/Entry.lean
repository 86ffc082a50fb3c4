import ModelRest.Schema.FieldSpec

/-!
# Compiled schemas

What is known about a model after compiling: an entry for every field, the names of the fields that
are plain properties, of those that hold several values and of those that refer to other models,
and the names of the methods that can be called. An entry is a bare type, a type with metadata, or
one of these as the element of an array.
-/

namespace ModelRest

/-- The field that holds the identifier. -/
def idField : String := "_id"

/-- The field that holds the time of creation. -/
def createdAtField : String := "_createdAt"

/-- The field that holds the time of the last change. -/
def updatedAtField : String := "_updatedAt"

/-- What a schema says about one field. -/
inductive SchemaEntry where
  /-- A type alone. -/
  | bare (type : String)
  /-- A type with metadata. -/
  | field (spec : FieldSpec)
  /-- Several values of what the inner entry says. -/
  | plural (inner : SchemaEntry)
deriving DecidableEq, Inhabited

namespace SchemaEntry

/-- What the entry says about one value. -/
def element : SchemaEntry → SchemaEntry
  | .plural inner => inner.element
  | entry => entry

/-- The field holds several values. -/
def isPlural : SchemaEntry → Bool
  | .plural _ => true
  | _ => false

/-- The metadata of one value, if there is any. -/
def spec? (e : SchemaEntry) : Option FieldSpec :=
  match e.element with
  | .field spec => some spec
  | _ => none

/-- The collection of the model that one value refers to. -/
def target? (e : SchemaEntry) : Option String := e.spec?.bind FieldSpec.target

/-- The type of one value. -/
def type? (e : SchemaEntry) : Option String :=
  match e.element with
  | .bare type => some type
  | .field spec => spec.type
  | .plural _ => none

/-- The entry for several values; an entry for several values stays as it is. -/
def toPlural : SchemaEntry → SchemaEntry
  | .plural inner => .plural inner
  | entry => .plural entry

/-- The entry without the outermost array. -/
def unwrap : SchemaEntry → SchemaEntry
  | .plural inner => inner
  | entry => entry

/-- The value that stands for an entry. -/
def toJson : SchemaEntry → Json
  | .bare type => .string type
  | .field spec => spec.toJson
  | .plural inner => .array [inner.toJson]

/-- The value that lists what an entry says. -/
def describe (e : SchemaEntry) : Json := .ofMembers
  [("plural", .bool e.isPlural), ("type", .ofString? e.type?), ("ref", .ofString? e.target?),
    ("spec", (e.spec?.map FieldSpec.toJson).getD .null), ("element", e.element.toJson),
    ("asPlural", e.toPlural.toJson)]

/-- Reads an entry. -/
def ofJson? : Json → Option SchemaEntry
  | .string type => some (.bare type)
  | .array [inner] => (ofJson? inner).map .plural
  | .object members => (FieldSpec.ofJson? (.object members)).map .field
  | _ => none

end SchemaEntry

/-- The fields that every model has, in order. -/
def implicitFields : List (String × SchemaEntry) :=
  [(idField, .field { type := some "string", readOnly := true }),
    (createdAtField, .field { type := some "Date", readOnly := true }),
    (updatedAtField, .field { type := some "Date" })]

/-- A reference of a model to another. -/
structure ReferenceInfo where
  /-- The collection of the other model. -/
  target : String
  /-- The field of the other model that refers back. -/
  reverse : Option String := none
deriving DecidableEq, Inhabited

/-- The value that stands for a reference. -/
def ReferenceInfo.toJson (r : ReferenceInfo) : Json := .ofMembers
  (("ref", .string r.target) :: FieldSpec.optionMember "$reverse" (r.reverse.map .string))

/-- A route that a model declares. -/
structure RouteDecl where
  /-- The verb, in lower case. -/
  verb : String
  /-- The path below the model's own, which begins with a slash. -/
  path : String
  /-- The method that serves the route. -/
  handler : String
deriving DecidableEq, Inhabited

/-- The value that stands for a route. -/
def RouteDecl.toJson (r : RouteDecl) : Json := .ofMembers
  [("method", .string r.verb), ("path", .string r.path), ("handler", .string r.handler)]

/-- Everything that is known about a model after compiling. -/
structure ModelSchema where
  /-- What is known about each field. -/
  prototype : KeyMap SchemaEntry := []
  /-- The fields that do not refer to models, the implicit ones first. -/
  properties : List String := []
  /-- The fields that hold several values. -/
  plurals : List String := []
  /-- The fields that refer to models. -/
  references : KeyMap ReferenceInfo := []
  /-- The methods of the class that can be called. -/
  statics : List String := []
  /-- The methods of the instances that can be called. -/
  methods : List String := []
  /-- The routes, in order. -/
  routes : List RouteDecl := []
  /-- The method that implements each hook. -/
  hooks : KeyMap String := []
deriving DecidableEq, Inhabited

namespace ModelSchema

/-- The schema with the fields that every model has and nothing else. -/
def initial : ModelSchema where
  prototype := KeyMap.ofPairs implicitFields
  properties := implicitFields.map Prod.fst

/-- The names of all fields: the properties, then the references in the order of their names. -/
def fieldNames (s : ModelSchema) : List String := s.properties ++ KeyMap.keys s.references

/-- The value that stands for a schema. -/
def toJson (s : ModelSchema) : Json := .ofMembers
  [("$prototype", .object (KeyMap.mapValues SchemaEntry.toJson s.prototype)),
    ("$properties", .ofStrings s.properties), ("$plurals", .ofStrings s.plurals),
    ("$references", .object (KeyMap.mapValues ReferenceInfo.toJson s.references)),
    ("$statics", .ofStrings s.statics), ("$methods", .ofStrings s.methods),
    ("$routes", .array (s.routes.map RouteDecl.toJson)),
    ("$hooks", .object (KeyMap.mapValues .string s.hooks))]

end ModelSchema

end ModelRest
