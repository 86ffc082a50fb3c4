import ModelRest.Json.Record

/-!
# Metadata of fields

What the decorators of a property say about it: seven flags, who may see it, which values it may
have, its type and the model it refers to, and whatever decorators unknown to this library say. The
metadata of a property declared again in a subclass is merged: a flag once set stays set, and every
other part that the later declaration gives replaces the earlier one. The metadata set on a field
also names the validators that look after it; `tags` lists those names.
-/

namespace ModelRest

/-- Whether a field is hidden from answers. -/
inductive Invisibility where
  /-- Hidden if `true`, and visible if `false`. -/
  | flag (hidden : Bool)
  /-- Hidden from those instances that the predicate of this name holds of. -/
  | predicate (name : String)
deriving DecidableEq, Inhabited

/-- The value that stands for an invisibility. -/
def Invisibility.toJson : Invisibility → Json
  | .flag hidden => .bool hidden
  | .predicate name => .string name

/-- Reads an invisibility. -/
def Invisibility.ofJson? : Json → Option Invisibility
  | .bool hidden => some (.flag hidden)
  | .string name => some (.predicate name)
  | _ => none

/-- The metadata of a field. -/
structure FieldSpec where
  /-- There must be a value. -/
  required : Bool := false
  /-- No two records have the same value. -/
  unique : Bool := false
  /-- The field is indexed. -/
  index : Bool := false
  /-- The value does not change after it was first given. -/
  immutable : Bool := false
  /-- Clients do not write the field. -/
  readOnly : Bool := false
  /-- Clients write the field only when a record is created. -/
  insertOnly : Bool := false
  /-- The value is part of the record. -/
  embedded : Bool := false
  /-- Whether the field is hidden. -/
  invisible : Option Invisibility := none
  /-- The values that the field may have. -/
  allowed : Option (List Json) := none
  /-- The type. -/
  type : Option String := none
  /-- The collection of the model referred to. -/
  target : Option String := none
  /-- What unknown decorators say, by their names. -/
  extra : KeyMap Json := []
  /-- What unknown decorators say is kept in the order of their names. -/
  extra_sorted : KeyMap.Sorted extra := by exact KeyMap.sorted_nil
deriving DecidableEq, Inhabited

namespace FieldSpec

/-- Metadata that says nothing but a type. -/
def typed (type : String) : FieldSpec := { type := some type }

/-- The metadata of a reference to a model, which is kept as the text of an identifier. -/
def reference (target : String) : FieldSpec := { type := some "string", target := some target }

/-- The metadata says nothing. -/
def isEmpty (s : FieldSpec) : Bool :=
  !s.required && !s.unique && !s.index && !s.immutable && !s.readOnly && !s.insertOnly &&
    !s.embedded && s.invisible.isNone && s.allowed.isNone && s.type.isNone && s.target.isNone &&
    s.extra.isEmpty

/-- The metadata with what a later declaration says. -/
def merge (s later : FieldSpec) : FieldSpec where
  required := s.required || later.required
  unique := s.unique || later.unique
  index := s.index || later.index
  immutable := s.immutable || later.immutable
  readOnly := s.readOnly || later.readOnly
  insertOnly := s.insertOnly || later.insertOnly
  embedded := s.embedded || later.embedded
  invisible := later.invisible.or s.invisible
  allowed := later.allowed.or s.allowed
  type := later.type.or s.type
  target := later.target.or s.target
  extra := KeyMap.union s.extra later.extra
  extra_sorted := s.extra_sorted.union later.extra

/-- The metadata with what one more unknown decorator says. -/
def addExtra (s : FieldSpec) (name : String) (v : Json) : FieldSpec :=
  { s with extra := KeyMap.insert s.extra name v, extra_sorted := s.extra_sorted.insert name v }

/-- The tags of the parts of this library, with whether each is set. -/
def flags (s : FieldSpec) : List (String × Bool) :=
  [("required", s.required), ("unique", s.unique), ("index", s.index), ("immutable", s.immutable),
    ("readOnly", s.readOnly), ("insertOnly", s.insertOnly), ("embedded", s.embedded),
    ("enum", s.allowed.isSome)]

/-- The tags that are set: first those of this library, then those of unknown decorators. -/
def tags (s : FieldSpec) : List String :=
  (s.flags.filter Prod.snd).map Prod.fst ++ KeyMap.keys s.extra

/-! ### As JSON values -/

/-- A member that is written only if its flag is set. -/
def flagMember (name : String) (set : Bool) : List (String × Json) :=
  if set then [(name, .bool true)] else []

/-- A member that is written only if it has a value. -/
def optionMember (name : String) (value : Option Json) : List (String × Json) :=
  match value with
  | some v => [(name, v)]
  | none => []

/-- The members that are written for the parts of this library. -/
def ownMembers (s : FieldSpec) : List (String × Json) :=
  flagMember "required" s.required ++ flagMember "unique" s.unique ++ flagMember "index" s.index ++
    flagMember "immutable" s.immutable ++ flagMember "readOnly" s.readOnly ++
    flagMember "insertOnly" s.insertOnly ++ flagMember "embedded" s.embedded ++
    optionMember "invisible" (s.invisible.map Invisibility.toJson) ++
    optionMember "enum" (s.allowed.map .array) ++ optionMember "type" (s.type.map .string) ++
    optionMember "ref" (s.target.map .string)

/-- The value that stands for the metadata. What unknown decorators say is written last, so a
decorator named like a part of this library covers that part. -/
def toJson (s : FieldSpec) : Json := .ofMembers (s.ownMembers ++ s.extra)

/-- The names of the parts of this library. -/
def ownNames : List String :=
  ["required", "unique", "index", "immutable", "readOnly", "insertOnly", "embedded", "invisible",
    "enum", "type", "ref"]

open Json (default? nullable?) in
/-- Reads metadata from an object. A member that is no part of this library is kept as what an
unknown decorator says. -/
def ofJson? : Json → Option FieldSpec
  | .object members => do
    let part (name : String) : Option Json := KeyMap.get? members name
    let flag (name : String) : Option Bool := default? false Json.bool? (part name)
    let required ← flag "required"
    let unique ← flag "unique"
    let index ← flag "index"
    let immutable ← flag "immutable"
    let readOnly ← flag "readOnly"
    let insertOnly ← flag "insertOnly"
    let embedded ← flag "embedded"
    let invisible ← default? none (nullable? Invisibility.ofJson?) (part "invisible")
    let allowed ← default? none (nullable? Json.array?) (part "enum")
    let type ← default? none (nullable? Json.string?) (part "type")
    let target ← default? none (nullable? Json.string?) (part "ref")
    pure
      { required := required, unique := unique, index := index, immutable := immutable,
        readOnly := readOnly, insertOnly := insertOnly, embedded := embedded,
        invisible := invisible, allowed := allowed, type := type, target := target,
        extra := KeyMap.ofPairs (members.filter fun p => !ownNames.contains p.1)
        extra_sorted := KeyMap.sorted_ofPairs _ }
  | _ => none

end FieldSpec

end ModelRest
