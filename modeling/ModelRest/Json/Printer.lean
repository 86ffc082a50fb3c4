import ModelRest.Json.Decimal

/-!
# Writing JSON

The compact text of a value: no blanks, members in the order they are kept. Only the quote, the
backslash and the control characters below the space are escaped.
-/

namespace ModelRest.Json

/-- The hexadecimal digit of a number below sixteen, in lower case. -/
def hexDigit (n : Nat) : Char := if n < 10 then Char.ofNat (48 + n) else Char.ofNat (87 + n)

/-- A character as it stands between quotes. -/
def escape (c : Char) : List Char :=
  if c = '"' then ['\\', '"']
  else if c = '\\' then ['\\', '\\']
  else if c = '\n' then ['\\', 'n']
  else if c = '\r' then ['\\', 'r']
  else if c = '\t' then ['\\', 't']
  else if c = '\x08' then ['\\', 'b']
  else if c = '\x0c' then ['\\', 'f']
  else if c.toNat < 0x20 then
    ['\\', 'u', '0', '0', hexDigit (c.toNat / 16), hexDigit (c.toNat % 16)]
  else [c]

/-- A text between quotes, before what follows it. -/
def printString (s : List Char) (rest : List Char) : List Char :=
  '"' :: s.foldr (fun c rest => escape c ++ rest) ('"' :: rest)

/-- The text of a number. -/
def numberText : Number → List Char
  | .natural n => Nat.toDigits 10 n
  | .negative n => '-' :: Nat.toDigits 10 (n + 1)
  | .double d => d.text

mutual

/-- The text of a value, before what follows it. -/
def print : Json → List Char → List Char
  | .null, rest => 'n' :: 'u' :: 'l' :: 'l' :: rest
  | .bool true, rest => 't' :: 'r' :: 'u' :: 'e' :: rest
  | .bool false, rest => 'f' :: 'a' :: 'l' :: 's' :: 'e' :: rest
  | .number n, rest => numberText n ++ rest
  | .string s, rest => printString s.toList rest
  | .array [], rest => '[' :: ']' :: rest
  | .array (v :: items), rest => '[' :: print v (printItems items (']' :: rest))
  | .object [], rest => '\x7b' :: '\x7d' :: rest
  | .object ((k, v) :: members), rest =>
    '\x7b' :: printString k.toList (':' :: print v (printMembers members ('\x7d' :: rest)))

/-- The items after the first, each after a comma. -/
def printItems : List Json → List Char → List Char
  | [], rest => rest
  | v :: items, rest => ',' :: print v (printItems items rest)

/-- The members after the first, each after a comma. -/
def printMembers : List (String × Json) → List Char → List Char
  | [], rest => rest
  | (k, v) :: members, rest =>
    ',' :: printString k.toList (':' :: print v (printMembers members rest))

end

/-- The text of a value. -/
def render (v : Json) : String := String.ofList (print v [])

end ModelRest.Json
