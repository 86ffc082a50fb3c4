import ModelRest.Error
import ModelRest.Json.Reader
import ModelRest.Json.Record
import ModelRest.Text.Span

/-!
# Request parameters

What a request says besides its body: which references to populate, which records to look for, and
how to write. The list of references has three notations: names separated by commas, an array of
such names, and an array of objects; a name may be followed by a point and the one property of the
other record that is wanted.
-/

namespace ModelRest

/-- A reference to populate. -/
structure Include where
  /-- The field that holds the reference. -/
  path : String
  /-- The one property of the other record that is wanted besides its identifier. -/
  select : Option String := none
deriving DecidableEq, Inhabited

namespace Include

/-- The value that stands for an include. -/
def toJson (i : Include) : Json := .ofMembers
  (("path", .string i.path) ::
    match i.select with
    | some select => [("select", .string select)]
    | none => [])

/-- Reads an include from a record. -/
def ofJson? (v : Json) : Option Include :=
  match Json.record? ["path", "select"] v with
  | some [path, select] => do
    let path ← Json.required? Json.string? path
    let select ← Json.default? none (Json.nullable? Json.string?) select
    pure { path := path, select := select }
  | _ => none

/-- Reads an include from a name: what follows the first point is selected. -/
def ofName (item : List Char) : Include :=
  match Text.splitFirst? '.' item with
  | some (path, c :: select) =>
    { path := String.ofList path, select := some (String.ofList (c :: select)) }
  | _ => { path := String.ofList (Text.dropEndWhile (· == '.') item) }

/-- Reads an include from an item of an array. -/
def ofItem? : Json → Except RequestError Include
  | .string s => .ok (ofName s.toList)
  | v =>
    match ofJson? v with
    | some i => .ok i
    | none => .error (.badRequest ("invalid include: " ++ malformedJson))

/-- Reads includes from names separated by commas; empty names are passed over. -/
def ofNames (text : List Char) : List Include :=
  (((Text.splitAll ',' text).map Text.trim).filter (!·.isEmpty)).map ofName

/-- Reads includes from a JSON value: the items of an array, or the value alone. -/
def ofValue (v : Json) : Except RequestError (List Include) :=
  match v with
  | .array items => items.mapM ofItem?
  | single => [single].mapM ofItem?

/-- The includes of a text. A text that begins with a bracket or a brace is a JSON value, any other
a list of names. -/
def parse (raw : String) : Except RequestError (List Include) :=
  let text := Text.trim raw.toList
  match text with
  | '[' :: _ | '\x7b' :: _ =>
    match Json.parse? (String.ofList text) with
    | some v => ofValue v
    | none => .error (.badRequest ("invalid includes: " ++ malformedJson))
  | _ => .ok (ofNames text)

end Include

/-- What a request says besides its body. -/
structure Parameters where
  /-- The references to populate. -/
  includes : List Include := []
  /-- The reference that the request is about. -/
  reference : Option String := none
  /-- Writing removes the values that are not given. -/
  deleteMissing : Bool := false
  /-- Writing may change values that clients do not write; no query says so. -/
  ignoreReadOnly : Bool := false
deriving DecidableEq, Inhabited

namespace Parameters

/-- How to populate a reference, if the request asks for it: the first include of the path. -/
def include? (p : Parameters) (path : String) : Option Include :=
  p.includes.find? fun i => i.path == path

/-- The texts that mean yes in a query. -/
def affirmative : List String := ["true", "1", ""]

/-- The parameters of a query. -/
def ofQuery (query : KeyMap String) : Except RequestError Parameters := do
  let includes ←
    match KeyMap.get? query "includes" with
    | some raw => Include.parse raw
    | none => pure []
  pure
    { includes := includes
      deleteMissing := (KeyMap.get? query "deleteMissing").any affirmative.contains }

/-- The records that a query looks for: those with these values in these fields. -/
def filterOf (query : KeyMap String) : Except RequestError Object :=
  match KeyMap.get? query "where" with
  | none => .ok []
  | some raw =>
    match Json.parse? raw with
    | some (.object filter) => .ok filter
    | some _ => .error (.badRequest "'where' must be a JSON object")
    | none => .error (.badRequest ("invalid 'where' filter: " ++ malformedJson))

/-- The value that stands for the parameters. -/
def toJson (p : Parameters) : Json := .ofMembers
  [("includes", .array (p.includes.map Include.toJson)), ("reference", .ofString? p.reference),
    ("deleteMissing", .bool p.deleteMissing), ("ignoreReadOnly", .bool p.ignoreReadOnly)]

open Json (record? default? nullable? list?) in
/-- Reads parameters from an object, each part of which may be absent. -/
def ofJson? : Json → Option Parameters
  | .object members => do
    let part (name : String) : Option Json := KeyMap.get? members name
    let includes ← default? [] (list? Include.ofJson?) (part "includes")
    let reference ← default? none (nullable? Json.string?) (part "reference")
    let deleteMissing ← default? false Json.bool? (part "deleteMissing")
    let ignoreReadOnly ← default? false Json.bool? (part "ignoreReadOnly")
    pure
      { includes := includes, reference := reference, deleteMissing := deleteMissing,
        ignoreReadOnly := ignoreReadOnly }
  | _ => none

end Parameters

end ModelRest
