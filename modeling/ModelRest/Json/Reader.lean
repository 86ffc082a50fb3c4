import ModelRest.Json.Token

/-!
# Reading JSON

A text is read lexeme by lexeme. The reader keeps the containers that are open, innermost first,
and knows what may come next; a lexeme that may not come next ends the reading. The members of an
object are kept as they are written, so that a name may occur twice; `parse` puts them in order and
lets the last member of a name count. Containers are open to a depth of 127 at most.
-/

namespace ModelRest.Json

/-- A container that is open, with what it holds so far, the last part first. -/
inductive Frame where
  /-- A sequence. -/
  | items (before : List Json)
  /-- An object, and the name whose value comes next. -/
  | members (before : List (String × Json)) (name : String)
deriving Inhabited

/-- What may come next. -/
inductive Expected where
  /-- A value. -/
  | value
  /-- A value, or the end of a sequence just opened. -/
  | itemOrEnd
  /-- A name, or the end of an object just opened. -/
  | nameOrEnd
  /-- The name of the member after these. -/
  | name (before : List (String × Json))
  /-- The colon after this name. -/
  | colon (before : List (String × Json)) (name : String)
  /-- What follows a value that is complete: a comma or the end of the innermost container. -/
  | next (v : Json)
deriving Inhabited

/-- Where the reader stands. -/
structure ReaderState where
  /-- What may come next. -/
  expected : Expected
  /-- The containers that are open, innermost first. -/
  frames : List Frame
deriving Inhabited

/-- How many containers may be open at once. -/
def maxDepth : Nat := 127

namespace ReaderState

/-- The reader before the first lexeme. -/
def start : ReaderState := ⟨.value, []⟩

/-- Begins a value, if the lexeme begins one and no more containers are open than may be. -/
def beginValue (depth : Nat) (frames : List Frame) : Token → Option ReaderState
  | .scalar v => some ⟨.next v, frames⟩
  | .text s => some ⟨.next (.string s), frames⟩
  | .openArray => if frames.length < depth then some ⟨.itemOrEnd, frames⟩ else none
  | .openObject => if frames.length < depth then some ⟨.nameOrEnd, frames⟩ else none
  | _ => none

/-- Goes on after a complete value. -/
def afterValue (v : Json) : List Frame → Token → Option ReaderState
  | .items before :: frames, .comma => some ⟨.value, .items (v :: before) :: frames⟩
  | .items before :: frames, .closeArray => some ⟨.next (.array (v :: before).reverse), frames⟩
  | .members before name :: frames, .comma => some ⟨.name ((name, v) :: before), frames⟩
  | .members before name :: frames, .closeObject =>
    some ⟨.next (.object ((name, v) :: before).reverse), frames⟩
  | _, _ => none

/-- Takes one lexeme. -/
def step (depth : Nat) (state : ReaderState) (t : Token) : Option ReaderState :=
  match state.expected, t with
  | .value, t => beginValue depth state.frames t
  | .itemOrEnd, .closeArray => some ⟨.next (.array []), state.frames⟩
  | .itemOrEnd, t => beginValue depth (.items [] :: state.frames) t
  | .nameOrEnd, .closeObject => some ⟨.next (.object []), state.frames⟩
  | .nameOrEnd, .text s => some ⟨.colon [] s, state.frames⟩
  | .name before, .text s => some ⟨.colon before s, state.frames⟩
  | .colon before name, .colon => some ⟨.value, .members before name :: state.frames⟩
  | .next v, t => afterValue v state.frames t
  | _, _ => none

/-- The value read, if it is complete and no container is open. -/
def result : ReaderState → Option Json
  | ⟨.next v, []⟩ => some v
  | _ => none

end ReaderState

/-- The value of a sequence of lexemes in which containers are open to a depth at most. -/
def ofTokensWithin? (depth : Nat) (ts : List Token) : Option Json := do
  let state ← ts.foldlM (ReaderState.step depth) .start
  state.result

/-- The value of a sequence of lexemes. -/
def ofTokens? (ts : List Token) : Option Json := ofTokensWithin? maxDepth ts

/-- The value of a text, the members of its objects as they are written. -/
def read? (text : String) : Option Json := do
  let ts ← tokens text.toList
  ofTokens? ts

/-- The value of a text. -/
def parse? (text : String) : Option Json := (read? text).map canonical

end ModelRest.Json
