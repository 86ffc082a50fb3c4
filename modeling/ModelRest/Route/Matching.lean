import ModelRest.Route.Pattern
import ModelRest.Route.Table

/-!
# Matching paths

A request path is matched segment by segment with the paths of several routes. A segment that is the
literal text itself goes before a parameter, a parameter after more literal text goes before one
after less, and what does not lead to a match is taken back. A parameter takes any text, but as the
last segment only one that is not empty; a parameter for the rest of the path takes whatever is not
empty.
-/

namespace ModelRest

/-- A path that may still match. -/
structure Candidate where
  /-- The segments that were not matched yet. -/
  rest : List SegmentPattern
  /-- What each parameter took, the last one first. -/
  taken : List (List Char × List Char) := []
  /-- The whole path. -/
  path : String
deriving Inhabited

namespace Candidate

/-- What is left if the next segment is this text. -/
def exactly (segment : List Char) (c : Candidate) : Option Candidate :=
  match c.rest with
  | ⟨literal, .closed⟩ :: rest => if literal = segment then some { c with rest := rest } else none
  | _ => none

/-- What follows a literal text of a size at the beginning of a segment. -/
def afterLiteral? (size : Nat) (literal segment : List Char) : Option (List Char) :=
  if literal.length = size then Text.dropStart? literal segment else none

/-- What is left if a parameter after a literal text of a size takes the rest of this segment. The
flag says whether it is the last segment. -/
def piece (size : Nat) (segment : List Char) (isLast : Bool) (c : Candidate) : Option Candidate :=
  match c.rest with
  | ⟨literal, .piece name⟩ :: rest =>
    match afterLiteral? size literal segment with
    | some text =>
      if isLast ∧ text = [] then none
      else some { c with rest := rest, taken := (name, text) :: c.taken }
    | none => none
  | _ => none

/-- What is left if a parameter after a literal text of a size takes the rest of this segment and
those after it: nothing. -/
def tail (size : Nat) (segment : List Char) (rest : List (List Char)) (c : Candidate) :
    Option Candidate :=
  match c.rest with
  | [⟨literal, .tail name⟩] =>
    match (afterLiteral? size literal segment).map fun text => Text.join '/' (text :: rest) with
    | some (first :: more) =>
      some { c with rest := [], taken := (name, first :: more) :: c.taken }
    | _ => none
  | _ => none

/-- The candidate that matches, and goes before the others that do. -/
def choose : List Candidate → List (List Char) → Option Candidate
  | [], _ => none
  | cs, [] => cs.find? fun c => c.rest.isEmpty
  | cs, segment :: rest =>
    (choose (cs.filterMap (exactly segment)) rest).or
      ((List.range (segment.length + 1)).reverse.findSome? fun size =>
        (choose (cs.filterMap (piece size segment rest.isEmpty)) rest).or
          (cs.findSome? (tail size segment rest)))

end Candidate

namespace BoundRoute

variable {α : Type}

/-- The path of a route, before any of it is matched. -/
def candidate (r : BoundRoute α) : Candidate where
  rest := (Text.splitAll '/' r.path.toList).map SegmentPattern.ofSegment
  path := r.path

/-- The path among those of several routes that a request path leads to, with what its parameters
took. -/
def pathFor (routes : List (BoundRoute α)) (path : List Char) : Option Candidate :=
  Candidate.choose (routes.map candidate) (Text.splitAll '/' path)

end BoundRoute

end ModelRest
