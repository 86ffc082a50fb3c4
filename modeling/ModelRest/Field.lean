import ModelRest.Schema.Entry
import ModelRest.Error

/-!
# Fields

What a factory knows about one field of its model: the parts of its schema entry laid out, and
whether it is shown. A field can be hidden from everyone, or from those instances of which a
predicate of the model's class holds.
-/

namespace ModelRest

/-- Whether a field is shown. -/
inductive FieldVisibility where
  /-- It is shown. -/
  | visible
  /-- It is never shown. -/
  | hidden
  /-- It is not shown where the predicate of this name holds of the values of the instance. -/
  | predicate (name : String) (hides : Object → Bool)
deriving Inhabited

/-- What a factory knows about one field. -/
structure Field where
  /-- The field's name. -/
  name : String
  /-- The type of one value. -/
  type : Option String := none
  /-- The collection of the model that values refer to. -/
  reference : Option String := none
  /-- The field holds several values. -/
  isPlural : Bool := false
  /-- The other model refers back. -/
  isReverse : Bool := false
  /-- The value is part of the record. -/
  embedded : Bool := false
  /-- Clients do not write the field. -/
  readOnly : Bool := false
  /-- Clients write the field only when a record is created. -/
  insertOnly : Bool := false
  /-- The value does not change after it was first given. -/
  immutable : Bool := false
  /-- No two records have the same value. -/
  unique : Bool := false
  /-- There must be a value. -/
  required : Bool := false
  /-- The field is indexed. -/
  index : Bool := false
  /-- The values that the field may have. -/
  allowed : Option (List Json) := none
  /-- The names of the validators that look after the field. -/
  tags : List String := []
  /-- Whether the field is shown. -/
  visibility : FieldVisibility := .visible
deriving Inhabited

namespace Field

/-- The field refers to another model. -/
def isReference (f : Field) : Bool := f.reference.isSome

/-- The field is shown for an instance with these values. -/
def isVisible (f : Field) (values : Object) : Bool :=
  match f.visibility with
  | .visible => true
  | .hidden => false
  | .predicate _ hides => !hides values

/-- Whether metadata alone hides a field. -/
def flagVisibility : Option Invisibility → FieldVisibility
  | some (.flag true) => .hidden
  | _ => .visible

/-- The field of a schema entry; a field hidden by a predicate is taken to be shown. -/
def ofEntry (name : String) (entry : SchemaEntry) (reference : Option ReferenceInfo) : Field :=
  let spec := entry.spec?.getD {}
  { name := name
    type := entry.type?
    reference := (reference.map ReferenceInfo.target).or spec.target
    isPlural := entry.isPlural
    isReverse := (reference.bind ReferenceInfo.reverse).isSome
    embedded := spec.embedded
    readOnly := spec.readOnly
    insertOnly := spec.insertOnly
    immutable := spec.immutable
    unique := spec.unique
    required := spec.required
    index := spec.index
    allowed := spec.allowed
    tags := spec.tags
    visibility := flagVisibility spec.invisible }

/-- The field of a schema entry of a model whose class has these predicates. -/
def resolve (model name : String) (entry : SchemaEntry) (reference : Option ReferenceInfo)
    (predicates : KeyMap (Object → Bool)) : Except ConfigError Field :=
  let field := ofEntry name entry reference
  match entry.spec?.bind FieldSpec.invisible with
  | some (.predicate predicate) =>
    match KeyMap.get? predicates predicate with
    | some hides => .ok { field with visibility := .predicate predicate hides }
    | none => .error (.unknownPredicate model name predicate)
  | _ => .ok field

/-! ### As JSON values -/

/-- The value that stands for the visibility of a field. -/
def visibilityJson : FieldVisibility → Json
  | .visible => .string "visible"
  | .hidden => .string "hidden"
  | .predicate name _ => .ofMembers [("predicate", .string name)]

/-- The value that stands for a field. -/
def toJson (f : Field) : Json := .ofMembers
  [("name", .string f.name), ("type", .ofString? f.type), ("reference", .ofString? f.reference),
    ("plural", .bool f.isPlural), ("isReference", .bool f.isReference),
    ("reverse", .bool f.isReverse), ("embedded", .bool f.embedded),
    ("readOnly", .bool f.readOnly), ("insertOnly", .bool f.insertOnly),
    ("immutable", .bool f.immutable), ("unique", .bool f.unique), ("required", .bool f.required),
    ("index", .bool f.index), ("enum", (f.allowed.map Json.array).getD .null),
    ("tags", .ofStrings f.tags), ("visibility", visibilityJson f.visibility)]

end Field

end ModelRest
