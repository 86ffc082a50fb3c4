import ModelRest.KeyMap
import ModelRest.Text.Span
import ModelRest.Text.Utf8

/-!
# Locators

A locator is a path and a query, perhaps after a scheme and the name of a server. The segments of a
path are decoded one by one, and must be texts then. A query holds pairs of a name and a value; a
plus stands for a blank, and bytes that are no text are replaced. Of several values of one name the
last counts.
-/

namespace ModelRest.Web

/-- The value of a hexadecimal digit. -/
def hexValue? (b : UInt8) : Option UInt8 :=
  if 0x30 ≤ b && b ≤ 0x39 then some (b - 0x30)
  else if 0x41 ≤ b && b ≤ 0x46 then some (b - 0x37)
  else if 0x61 ≤ b && b ≤ 0x66 then some (b - 0x57)
  else none

/-- Reads a byte from a percent sign and two hexadecimal digits; any other percent sign stands for
itself. -/
def percentDecode : List UInt8 → List UInt8
  | 0x25 :: high :: low :: rest =>
    match hexValue? high, hexValue? low with
    | some h, some l => (h * 16 + l) :: percentDecode rest
    | _, _ => 0x25 :: percentDecode (high :: low :: rest)
  | b :: rest => b :: percentDecode rest
  | [] => []

/-- A segment of a path, decoded; nothing if it is no text then. -/
def decodeSegment? (segment : List Char) : Option String :=
  (Text.ofUtf8? (percentDecode (Text.toUtf8 segment))).map String.ofList

/-- A name or a value of a query, decoded. -/
def decodeForm (text : List Char) : String :=
  let blanks := text.map fun c => if c = '+' then ' ' else c
  String.ofList (Text.ofUtf8Lossy (percentDecode (Text.toUtf8 blanks)))

/-- A pair of a query; a name alone has the empty value. -/
def formPair (pair : List Char) : String × String :=
  match Text.splitFirst? '=' pair with
  | some (name, value) => (decodeForm name, decodeForm value)
  | none => (decodeForm pair, "")

/-- The values of a query, by name. -/
def parseQuery (query : List Char) : KeyMap String :=
  KeyMap.ofPairs (((Text.splitAll '&' query).filter (!·.isEmpty)).map formPair)

/-- The character may stand in the name of a scheme. -/
def isSchemeChar (c : Char) : Bool := c.isAlphanum || c = '+' || c = '-' || c = '.'

/-- The character ends the name of a server. -/
def endsServer (c : Char) : Bool := c = '/' || c = '?' || c = '#'

/-- A locator without a scheme and the name of a server; its path is a slash then if there is
none. -/
def withoutServer (uri : List Char) : List Char :=
  match Text.splitFirst? ':' uri with
  | some (scheme, '/' :: '/' :: rest) =>
    if scheme.all isSchemeChar then
      match rest.dropWhile (!endsServer ·) with
      | '/' :: path => '/' :: path
      | rest => '/' :: rest
    else uri
  | _ => uri

/-- The path and the query of a locator, without what follows a number sign. -/
def splitUri (uri : List Char) : List Char × List Char :=
  let uri := (withoutServer uri).takeWhile (· != '#')
  match Text.splitFirst? '?' uri with
  | some (path, query) => (path, query)
  | none => (uri, [])

end ModelRest.Web
