import ModelRest.Route.Template

/-!
# Segment patterns

What a segment of a bound path stands for. It begins with a literal text, and may end with a
parameter in braces, which takes what is left of the segment of a request path; a parameter whose
name begins with a star takes what is left of the whole path. A brace that is doubled stands for
itself, in the literal text as in a name.
-/

namespace ModelRest

/-- What may follow the literal text of a segment. -/
inductive Slot where
  /-- Nothing. -/
  | closed
  /-- A parameter that takes what is left of the segment. -/
  | piece (name : List Char)
  /-- A parameter that takes what is left of the path. -/
  | tail (name : List Char)
deriving DecidableEq, Inhabited

/-- A segment of a bound path, as requests are matched with it. -/
structure SegmentPattern where
  /-- The text that it begins with. -/
  literal : List Char := []
  /-- What follows the text. -/
  slot : Slot := .closed
deriving DecidableEq, Inhabited

namespace SegmentPattern

/-- The pattern with one more character before its literal text. -/
def push (c : Char) (p : SegmentPattern) : SegmentPattern := { p with literal := c :: p.literal }

/-- The name of a parameter, up to the brace that closes it. -/
def readName : List Char → List Char
  | '\x7b' :: '\x7b' :: rest => '\x7b' :: readName rest
  | '\x7d' :: '\x7d' :: rest => '\x7d' :: readName rest
  | '\x7d' :: _ => []
  | c :: rest => c :: readName rest
  | [] => []

/-- The pattern that a segment of a bound path stands for. -/
def ofSegment : List Char → SegmentPattern
  | '\x7b' :: '\x7b' :: rest => (ofSegment rest).push '\x7b'
  | '\x7d' :: '\x7d' :: rest => (ofSegment rest).push '\x7d'
  | '\x7b' :: '*' :: rest => { slot := .tail (readName rest) }
  | '\x7b' :: rest => { slot := .piece (readName rest) }
  | c :: rest => (ofSegment rest).push c
  | [] => {}

end SegmentPattern

end ModelRest
