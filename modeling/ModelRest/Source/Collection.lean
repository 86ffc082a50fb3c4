import ModelRest.Source.FileTree
import ModelRest.Declaration.Json

/-!
# Collecting sources

Model sources are collected in the order in which they are read: one by one, or all those below a
directory. A file that cannot be read ends the reading, and what was read before stays.
-/

namespace ModelRest

/-- A computation that collects sources and may fail; what it collected before stays collected. -/
abbrev SourceM := EStateM ConfigError (List SourceFile)

namespace SourceFile

open FileTree (joinPath isLongPath)

/-- The name is one of a model source: something, and then the ending `.json`. -/
def isSourceName (name : String) : Bool :=
  match Text.dropEnd? ['.', 'j', 's', 'o', 'n'] name.toList with
  | some (_ :: _) => true
  | _ => false

/-- Collects the source with this text from a path. A source that does not say where it is from is
from there. -/
def collect (path text : String) : SourceM Unit := do
  match SourceFile.parse? text with
  | none => throw (.malformed path)
  | some file =>
    modify (· ++ [if file.path = "" then { file with path := path } else file])

/-- Collects the source in a file. -/
def collectFile (tree : FileTree) (root path : String) : SourceM Unit :=
  match tree.find root path >>= FileTree.read with
  | .error fault => throw (.unreadable (joinPath root path) fault)
  | .ok text => collect (joinPath root path) text

mutual

/-- Collects what is at a path: the sources below a directory, or the source in a file whose name is
that of one. Answers how many there are. A directory whose path has too many bytes counts as a
file. -/
def collectTree (path : String) (isSource : Bool) (tree : FileTree) : SourceM Nat :=
  if isLongPath path then
    if isSource then throw (.unreadable path .nameTooLong) else pure 0
  else
    match tree with
    | .directory entries => collectEntries path entries
    | .file text => do
      if isSource then
        collect path text
        pure 1
      else pure 0

/-- Collects the sources among the entries of a directory and below them, in the order of the
names, and answers how many there are. -/
def collectEntries (path : String) : List (String × FileTree) → SourceM Nat
  | [] => pure 0
  | (name, tree) :: rest => do
    let below ← collectTree (joinPath path name) (isSourceName name) tree
    let others ← collectEntries path rest
    pure (below + others)

end

/-- Collects the sources below a directory, and answers how many there are. -/
def collectDirectory (tree : FileTree) (root path : String) : SourceM Nat :=
  match tree.find root path with
  | .error fault => throw (.unreadable (joinPath root path) fault)
  | .ok (.file _) => throw (.unreadable (joinPath root path) .notDirectory)
  | .ok (.directory entries) => collectEntries (joinPath root path) entries

end SourceFile

end ModelRest
