import ModelRest.Error
import ModelRest.Text.Span

/-!
# Trees of files

Files and directories as a value: a file has a text, a directory has entries in the order of their
names. A path is followed name by name from a directory; the empty name and a single point stay
where they are, and two points go back to the directory before. Nothing is known outside of a tree:
what is there counts as an empty directory. Names and paths may have a limited number of bytes.
-/

namespace ModelRest

/-- A file, or a directory and what is in it. -/
inductive FileTree where
  /-- A file with its text. -/
  | file (text : String)
  /-- A directory with its entries, by name. -/
  | directory (entries : List (String × FileTree))
deriving Inhabited

namespace FileTree

/-- The entries of a tree that is a directory. -/
def entries? : FileTree → Option (KeyMap FileTree)
  | .directory entries => some entries
  | .file _ => none

/-- The names of a path. -/
def names (path : String) : List String := (Text.splitAll '/' path.toList).map String.ofList

/-- Puts a file where a list of names leads, in directories that are made as they are needed. -/
def writeAt (tree : FileTree) (text : String) : List String → FileTree
  | [] => .file text
  | name :: rest =>
    let entries := tree.entries?.getD []
    let below := (KeyMap.get? entries name).getD (.directory [])
    .directory (KeyMap.insert entries name (below.writeAt text rest))

/-- Makes the directories that lead to a place. -/
def makeDirectories (tree : FileTree) : List String → FileTree
  | [] => tree
  | name :: rest =>
    let entries := tree.entries?.getD []
    let below := (KeyMap.get? entries name).getD (.directory [])
    .directory (KeyMap.insert entries name (below.makeDirectories rest))

/-- Puts a file at the end of a path. A directory that the path goes back from is made as well. -/
def write (tree : FileTree) (path text : String) : FileTree :=
  let steps := (names path).filter fun name => name ≠ "" ∧ name ≠ "."
  let (tree, place) := steps.foldl (fun (tree, place) name =>
    if name = ".." then (tree.makeDirectories place, place.dropLast)
    else (tree, place ++ [name])) (tree, [])
  tree.writeAt text place

/-- How many bytes a name may have. -/
def longestName : Nat := 255

/-- How many bytes a path may have, with its root as it is shown. -/
def longestPath : Nat := 4085

/-- The path has too many bytes. -/
def isLongPath (path : String) : Bool := longestPath < path.utf8ByteSize

/-- What is at the end of a path; the directories passed on the way come with the tree, the last
one first. -/
def follow (passed : List FileTree) (tree : FileTree) : List String → Except FileFault FileTree
  | [] => .ok tree
  | name :: rest =>
    match tree.entries? with
    | none => .error .notDirectory
    | some entries =>
      if name = "" ∨ name = "." then tree.follow passed rest
      else if name = ".." then
        match passed with
        | before :: passed => before.follow passed rest
        | [] => (FileTree.directory []).follow [] rest
      else if longestName < name.utf8ByteSize then .error .nameTooLong
      else
        match KeyMap.get? entries name with
        | some below => below.follow (tree :: passed) rest
        | none => .error .missing

/-- A path with a name after it; a name that begins with a slash is a path of its own. -/
def joinPath (path name : String) : String :=
  match name.toList, path.toList.getLast? with
  | '/' :: _, _ => name
  | _, some '/' => path ++ name
  | _, _ => path ++ "/" ++ name

/-- What is at the end of a path, of a tree that has a root. -/
def find (tree : FileTree) (root path : String) : Except FileFault FileTree :=
  if path.contains '\x00' then .error .nulByte
  else if isLongPath (joinPath root path) then .error .nameTooLong
  else if path.toList.head? = some '/' then (FileTree.directory []).follow [] (names path)
  else tree.follow [] (names path)

/-- The text of a file. -/
def read : FileTree → Except FileFault String
  | .file text => .ok text
  | .directory _ => .error .isDirectory

end FileTree

end ModelRest
