import ModelRest.Json.Reader

/-!
# Members that are passed over

A record written as an object may have members that are no part of it. Of the value of such a member
only the form counts: it may be open to any depth, and its texts and numbers need not stand for
anything. `outline` puts null in the place of these values, before the object is read.
-/

namespace ModelRest.Json

/-- The lexeme with something to stand for where it stands for nothing. -/
def Token.softened : Token → Token
  | .halvedText => .text ""
  | .hugeNumber => .scalar .null
  | t => t

/-- The lexemes have the form of a value. -/
def isForm (ts : List Token) : Bool := (ofTokensWithin? ts.length (ts.map Token.softened)).isSome

/-- The lexemes of the first value of a sequence in which so many containers are open, and those
after it. What is no value ends with its first lexeme or with the sequence. -/
def splitValue : Nat → List Token → List Token × List Token
  | _, [] => ([], [])
  | opened, t :: ts =>
    let opened :=
      match t with
      | .openArray => opened + 1
      | .openObject => opened + 1
      | .closeArray => opened - 1
      | .closeObject => opened - 1
      | _ => opened
    if opened = 0 then ([t], ts)
    else
      let (value, after) := splitValue opened ts
      (t :: value, after)

/-- Cutting off a value loses nothing. -/
theorem splitValue_append (opened : Nat) (ts : List Token) :
    (splitValue opened ts).1 ++ (splitValue opened ts).2 = ts := by
  fun_induction splitValue opened ts <;> simp_all

theorem splitValue_length (opened : Nat) (ts : List Token) :
    (splitValue opened ts).2.length ≤ ts.length := by
  have := congrArg List.length (splitValue_append opened ts)
  rw [List.length_append] at this
  omega

/-- What is read for the value of a member: the value of a part, and null for one passed over. -/
def outlineValue (names : List String) (name : String) (value : List Token) :
    Option (List Token) :=
  if names.contains name then some value
  else if isForm value then some [.scalar .null]
  else none

/-- The lexemes of the members of an object, with null for the values passed over. -/
def outlineMembers (names : List String) : List Token → Option (List Token)
  | .text name :: .colon :: ts =>
    match _h : splitValue 0 ts with
    | (value, .comma :: after) => do
      let value ← outlineValue names name value
      let members ← outlineMembers names after
      pure (.text name :: .colon :: (value ++ .comma :: members))
    | (value, after) => do
      let value ← outlineValue names name value
      pure (.text name :: .colon :: (value ++ after))
  | ts => some ts
termination_by ts => ts.length
decreasing_by
  have := splitValue_length 0 ts
  rw [_h] at this
  simp only [List.length_cons] at this ⊢
  omega

/-- The lexemes of a record with parts of these names, with null for the values passed over. -/
def outline (names : List String) : List Token → Option (List Token)
  | .openObject :: ts => (outlineMembers names ts).map (.openObject :: ·)
  | ts => some ts

/-- A record with parts of these names from its text, the members as they are written. -/
def readRecord? (names : List String) (text : String) : Option Json := do
  let ts ← tokens text.toList
  let ts ← outline names ts
  ofTokens? ts

end ModelRest.Json
