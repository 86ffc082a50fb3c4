import ModelRest.Json.Basic

/-!
# Records as JSON values

A record is written as an object, whose members are its parts by name, or as an array of its parts
in order. Of an object, members that are no part are passed over and a part must not occur twice;
of an array, parts at the end may be missing. A tagged record says in one more part, which comes
first, which of several kinds it is of.
-/

namespace ModelRest.Json

/-- The value of a member that may be absent; nothing at all if the member occurs twice. -/
def single? (members : List (String × Json)) (name : String) : Option (Option Json) :=
  match members.filter (fun p => p.1 = name) with
  | [] => some none
  | [(_, v)] => some (some v)
  | _ => none

/-- The parts of a record with these names, each of which may be absent. -/
def record? (names : List String) : Json → Option (List (Option Json))
  | .object members => names.mapM (single? members)
  | .array items =>
    if items.length ≤ names.length then
      some (items.map some ++ List.replicate (names.length - items.length) none)
    else none
  | _ => none

/-- Reads a part that must be there. -/
def required? {α : Type} (read : Json → Option α) (part : Option Json) : Option α :=
  part.bind read

/-- Reads a part that has a value of its own when it is absent. -/
def default? {α : Type} (absent : α) (read : Json → Option α) : Option Json → Option α
  | none => some absent
  | some v => read v

/-- Reads a value that may be null. -/
def nullable? {α : Type} (read : Json → Option α) : Json → Option (Option α)
  | .null => some none
  | v => (read v).map some

/-- Reads an array item by item. -/
def list? {α : Type} (read : Json → Option α) (v : Json) : Option (List α) :=
  v.array?.bind (·.mapM read)

/-- The kind that a tag names. Within a record that is tagged itself, a tag may also be the place
of the kind among all kinds. -/
def kind? (within : Bool) (kinds : List String) : Json → Option String
  | .string s => if kinds.contains s then some s else none
  | .number (.natural n) => if within then kinds[n]? else none
  | _ => none

/-- The kind of a tagged record, and the record without its tag. -/
def tagged? (within : Bool) (kinds : List String) : Json → Option (String × Json)
  | .object members =>
    match single? members "kind" with
    | some (some tag) =>
      (kind? within kinds tag).map (·, .object (members.filter fun p => p.1 ≠ "kind"))
    | _ => none
  | .array (tag :: parts) => (kind? within kinds tag).map (·, .array parts)
  | _ => none

/-- Reads one of several names. It is written as a text, or as an object with the name as its only
member and nothing as the value: null or, within a tagged record, an empty object. -/
def choice? (within : Bool) (names : List String) : Json → Option String
  | .string s => if names.contains s then some s else none
  | .object [(s, .null)] => if names.contains s then some s else none
  | .object [(s, .object [])] => if within && names.contains s then some s else none
  | _ => none

end ModelRest.Json
