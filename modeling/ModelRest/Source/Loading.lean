import ModelRest.Declaration.Basic
import ModelRest.ModelClass
import ModelRest.Decorator

/-!
# Loading

Pairs declarations with behaviour. Every declared class is kept under its name, for the subclasses
that may need it; a declaration that is exported and marked as a model is loaded if there is a class
of its name.
-/

namespace ModelRest

/-- The classes with behaviour, by name. -/
abbrev ClassTable := KeyMap ModelClass

/-- The table with one more class, in place of another of its name. -/
def ClassTable.provide (table : ClassTable) (c : ModelClass) : ClassTable :=
  KeyMap.insert table c.name c

/-- A declaration of a model with its behaviour. -/
structure LoadedModel where
  /-- The declaration. -/
  decl : ClassDecl
  /-- The behaviour. -/
  cls : ModelClass
  /-- Where the source was read from. -/
  source : String
deriving Inhabited

/-- What was loaded. -/
structure LoadedSources where
  /-- Every declared class, by name; of several classes of one name the last. -/
  classes : KeyMap ClassDecl := []
  /-- The models, in order. -/
  models : List LoadedModel := []
deriving Inhabited

namespace LoadedSources

/-- The declarations of several sources in order, each with where it is from. -/
def declarations (sources : List SourceFile) : List (String × ClassDecl) :=
  sources.flatMap fun file => file.classes.map (file.path, ·)

/-- The names of the classes that several sources declare, in order. -/
def classNames (sources : List SourceFile) : List String :=
  (declarations sources).map fun p => p.2.name

/-- What was loaded, with one more declaration. -/
def add (table : ClassTable) (l : LoadedSources) (p : String × ClassDecl) :
    Except ConfigError LoadedSources := do
  let decl := p.2
  let l := { l with classes := KeyMap.insert l.classes decl.name decl }
  if decl.exported then
    match ← classMetadata? decl with
    | none => pure l
    | some _ =>
      match KeyMap.get? table decl.name with
      | none => pure l
      | some cls =>
        pure { l with models := l.models ++ [{ decl := decl, cls := cls, source := p.1 }] }
  else pure l

/-- Loads several sources. -/
def load (sources : List SourceFile) (table : ClassTable) : Except ConfigError LoadedSources :=
  (declarations sources).foldlM (add table) {}

/-- The value that stands for what was loaded. -/
def toJson (l : LoadedSources) : Json := .ofMembers
  [("classes", .array (List.map (fun p => .ofMembers
      [("name", .string p.1), ("members", .number (.natural p.2.members.length)),
        ("extends", .ofString? p.2.superclass)]) l.classes)),
    ("models", .array (l.models.map fun m => .ofMembers
      [("name", .string m.decl.name), ("class", .string m.cls.name),
        ("source", .string m.source)]))]

end LoadedSources

end ModelRest
