import ModelRest.Declaration.Basic
import ModelRest.Json.Record
import ModelRest.Json.Outline

/-!
# Declarations as JSON values

How model sources are written as JSON values and read back. Every part is written; when reading,
parts with a usual value may be absent. Items and members are tagged records of the kinds `class`
and `namespace`, `property` and `method`.
-/

namespace ModelRest

/-! ### Writing -/

/-- The value that stands for a decorator call. -/
def DecoratorCall.toJson (d : DecoratorCall) : Json :=
  .ofMembers [("name", .string d.name), ("args", .array d.args)]

/-- The name of a visibility. -/
def Visibility.name : Visibility → String
  | .pub => "public"
  | .prot => "protected"
  | .priv => "private"

/-- The name of an initializer. -/
def Initializer.name : Initializer → String
  | .expression => "expression"
  | .arrowFunction => "arrowFunction"

/-- The value that stands for a member. -/
def MemberDecl.toJson : MemberDecl → Json
  | .property p => .ofMembers
    [("kind", .string "property"), ("name", .string p.name), ("type", .string p.type),
      ("visibility", .string p.visibility.name),
      ("initializer", .ofString? (p.initializer.map Initializer.name)),
      ("decorators", .array (p.decorators.map DecoratorCall.toJson))]
  | .method m => .ofMembers
    [("kind", .string "method"), ("name", .string m.name), ("static", .bool m.isStatic),
      ("visibility", .string m.visibility.name),
      ("decorators", .array (m.decorators.map DecoratorCall.toJson))]

/-- The value that stands for a class, as an item. -/
def ClassDecl.toJson (c : ClassDecl) : Json := .ofMembers
  [("kind", .string "class"), ("name", .string c.name), ("exported", .bool c.exported),
    ("documentation", .string c.documentation), ("extends", .ofString? c.superclass),
    ("decorators", .array (c.decorators.map DecoratorCall.toJson)),
    ("members", .array (c.members.map MemberDecl.toJson))]

mutual

/-- The value that stands for an item. -/
def SourceItem.toJson : SourceItem → Json
  | .decl c => c.toJson
  | .space name items => .ofMembers
    [("kind", .string "namespace"), ("name", .string name),
      ("items", .array (SourceItem.listToJson items))]

/-- The values that stand for items. -/
def SourceItem.listToJson : List SourceItem → List Json
  | [] => []
  | item :: rest => item.toJson :: SourceItem.listToJson rest

end

/-- The value that stands for a model source. -/
def SourceFile.toJson (file : SourceFile) : Json :=
  .ofMembers [("path", .string file.path), ("items", .array (SourceItem.listToJson file.items))]

/-! ### Reading -/

open Json (record? required? default? nullable? list? tagged? choice?)

/-- Reads a decorator call. -/
def DecoratorCall.ofJson? (v : Json) : Option DecoratorCall :=
  match record? ["name", "args"] v with
  | some [name, args] => do
    let name ← required? Json.string? name
    let args ← default? [] Json.array? args
    pure { name := name, args := args }
  | _ => none

/-- Reads a visibility inside a member. -/
def Visibility.ofJson? (v : Json) : Option Visibility :=
  match choice? true ["public", "protected", "private"] v with
  | some "public" => some .pub
  | some "protected" => some .prot
  | some "private" => some .priv
  | _ => none

/-- Reads an initializer inside a member. -/
def Initializer.ofJson? (v : Json) : Option Initializer :=
  match choice? true ["expression", "arrowFunction"] v with
  | some "expression" => some .expression
  | some "arrowFunction" => some .arrowFunction
  | _ => none

/-- Reads a property from the parts after its tag. -/
def PropertyDecl.ofJson? (v : Json) : Option PropertyDecl :=
  match record? ["name", "type", "visibility", "initializer", "decorators"] v with
  | some [name, type, visibility, initializer, decorators] => do
    let name ← required? Json.string? name
    let type ← required? Json.string? type
    let visibility ← default? .pub Visibility.ofJson? visibility
    let initializer ← default? none (nullable? Initializer.ofJson?) initializer
    let decorators ← default? [] (list? DecoratorCall.ofJson?) decorators
    pure
      { name := name, type := type, visibility := visibility, initializer := initializer,
        decorators := decorators }
  | _ => none

/-- Reads a method from the parts after its tag. -/
def MethodDecl.ofJson? (v : Json) : Option MethodDecl :=
  match record? ["name", "static", "visibility", "decorators"] v with
  | some [name, isStatic, visibility, decorators] => do
    let name ← required? Json.string? name
    let isStatic ← default? false Json.bool? isStatic
    let visibility ← default? .pub Visibility.ofJson? visibility
    let decorators ← default? [] (list? DecoratorCall.ofJson?) decorators
    pure { name := name, isStatic := isStatic, visibility := visibility, decorators := decorators }
  | _ => none

/-- Reads a member. -/
def MemberDecl.ofJson? (within : Bool) (v : Json) : Option MemberDecl :=
  match tagged? within ["property", "method"] v with
  | some ("property", v) => (PropertyDecl.ofJson? v).map .property
  | some ("method", v) => (MethodDecl.ofJson? v).map .method
  | _ => none

/-- Reads a class; the flag says whether it is an item, and so tagged. -/
def ClassDecl.ofJson? (within : Bool) (v : Json) : Option ClassDecl :=
  match record? ["name", "exported", "documentation", "extends", "decorators", "members"] v with
  | some [name, exported, documentation, superclass, decorators, members] => do
    let name ← required? Json.string? name
    let exported ← default? true Json.bool? exported
    let documentation ← default? "" Json.string? documentation
    let superclass ← default? none (nullable? Json.string?) superclass
    let decorators ← default? [] (list? DecoratorCall.ofJson?) decorators
    let members ← default? [] (list? (MemberDecl.ofJson? within)) members
    pure
      { name := name, exported := exported, documentation := documentation,
        superclass := superclass, decorators := decorators, members := members }
  | _ => none

mutual

/-- Reads an item; the flag says whether it is inside a namespace. -/
def SourceItem.ofJson? (within : Bool) : Json → Option SourceItem
  | .object members =>
    match tagged? within ["class", "namespace"] (.object members) with
    | some ("class", v) => (ClassDecl.ofJson? true v).map .decl
    | some ("namespace", v) =>
      match record? ["name", "items"] v with
      | some [name, _] => do
        let name ← required? Json.string? name
        let items ← SourceItem.ofMembers? members
        pure (.space name items)
      | _ => none
    | _ => none
  | .array [tag, name, items] =>
    match tagged? within ["class", "namespace"] (.array [tag, name, items]) with
    | some ("class", v) => (ClassDecl.ofJson? true v).map .decl
    | some ("namespace", _) => do
      let name ← name.string?
      let items ← SourceItem.ofItems? items
      pure (.space name items)
    | _ => none
  | v =>
    match tagged? within ["class", "namespace"] v with
    | some ("class", v) => (ClassDecl.ofJson? true v).map .decl
    | some ("namespace", .array [name]) => name.string?.map (.space · [])
    | _ => none

/-- Reads the items of a namespace from its members. -/
def SourceItem.ofMembers? : List (String × Json) → Option (List SourceItem)
  | [] => some []
  | (k, v) :: rest => if k = "items" then SourceItem.ofItems? v else SourceItem.ofMembers? rest

/-- Reads the array of the items of a namespace. -/
def SourceItem.ofItems? : Json → Option (List SourceItem)
  | .array items => SourceItem.ofList? items
  | _ => none

/-- Reads the items of a namespace one by one. -/
def SourceItem.ofList? : List Json → Option (List SourceItem)
  | [] => some []
  | v :: rest => do
    let item ← SourceItem.ofJson? true v
    let items ← SourceItem.ofList? rest
    pure (item :: items)

end

/-- Reads a model source. -/
def SourceFile.ofJson? (v : Json) : Option SourceFile :=
  match record? ["path", "items"] v with
  | some [path, items] => do
    let path ← default? "" Json.string? path
    let items ← default? [] (list? (SourceItem.ofJson? false)) items
    pure { path := path, items := items }
  | _ => none

/-! ### Reading from text -/

/-- The call with canonical arguments. -/
def DecoratorCall.canonical (d : DecoratorCall) : DecoratorCall :=
  { d with args := Json.canonicalItems d.args }

/-- The member with canonical arguments of its decorators. -/
def MemberDecl.canonical : MemberDecl → MemberDecl
  | .property p => .property { p with decorators := p.decorators.map DecoratorCall.canonical }
  | .method m => .method { m with decorators := m.decorators.map DecoratorCall.canonical }

/-- The class with canonical arguments of all decorators. -/
def ClassDecl.canonical (c : ClassDecl) : ClassDecl :=
  { c with
    decorators := c.decorators.map DecoratorCall.canonical
    members := c.members.map MemberDecl.canonical }

mutual

/-- The item with canonical arguments of all decorators. -/
def SourceItem.canonical : SourceItem → SourceItem
  | .decl c => .decl c.canonical
  | .space name items => .space name (SourceItem.canonicalList items)

/-- The items with canonical arguments of all decorators. -/
def SourceItem.canonicalList : List SourceItem → List SourceItem
  | [] => []
  | item :: rest => item.canonical :: SourceItem.canonicalList rest

end

/-- Reads a model source from its text. Here a part that occurs twice is seen, and refused; of the
members of an argument the last of each name counts. -/
def SourceFile.parse? (text : String) : Option SourceFile := do
  let v ← Json.readRecord? ["path", "items"] text
  let file ← SourceFile.ofJson? v
  pure { file with items := SourceItem.canonicalList file.items }

end ModelRest
