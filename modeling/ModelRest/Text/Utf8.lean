/-!
# Bytes as characters

Reading a sequence of bytes in UTF-8. Bytes that stand for no character are skipped in the longest
pieces that begin a character without completing it, and each piece yields `none`. A strict reader
refuses a sequence with such a piece; a lenient one puts the replacement character in its place.
-/

namespace ModelRest.Text

/-- The byte continues a character begun by an earlier byte. -/
def isContinuation (b : UInt8) : Bool := 0x80 ≤ b && b ≤ 0xBF

/-- The last six bits of a continuing byte. -/
def continuationBits (b : UInt8) : Nat := b.toNat % 0x40

/-- How many bytes a character has that begins with this byte, and between which bounds the second
of them lies. -/
def leadByte (b : UInt8) : Option (Nat × UInt8 × UInt8) :=
  if 0xC2 ≤ b && b ≤ 0xDF then some (2, 0x80, 0xBF)
  else if b == 0xE0 then some (3, 0xA0, 0xBF)
  else if b == 0xED then some (3, 0x80, 0x9F)
  else if 0xE1 ≤ b && b ≤ 0xEF then some (3, 0x80, 0xBF)
  else if b == 0xF0 then some (4, 0x90, 0xBF)
  else if 0xF1 ≤ b && b ≤ 0xF3 then some (4, 0x80, 0xBF)
  else if b == 0xF4 then some (4, 0x80, 0x8F)
  else none

/-- The characters of a sequence of bytes, `none` for each piece that is no character. -/
def scalars : List UInt8 → List (Option Char)
  | [] => []
  | a :: rest =>
    if a < 0x80 then some (Char.ofNat a.toNat) :: scalars rest
    else
      match leadByte a with
      | none => none :: scalars rest
      | some (size, low, high) =>
        match rest with
        | [] => [none]
        | b :: rest₁ =>
          if low ≤ b && b ≤ high then
            if size = 2 then
              some (Char.ofNat (a.toNat % 0x20 * 0x40 + continuationBits b)) :: scalars rest₁
            else
              match rest₁ with
              | [] => [none]
              | c :: rest₂ =>
                if isContinuation c then
                  if size = 3 then
                    some (Char.ofNat ((a.toNat % 0x10 * 0x40 + continuationBits b) * 0x40 +
                      continuationBits c)) :: scalars rest₂
                  else
                    match rest₂ with
                    | [] => [none]
                    | d :: rest₃ =>
                      if isContinuation d then
                        some (Char.ofNat (((a.toNat % 0x08 * 0x40 + continuationBits b) * 0x40 +
                          continuationBits c) * 0x40 + continuationBits d)) :: scalars rest₃
                      else none :: scalars (d :: rest₃)
                else none :: scalars (c :: rest₂)
          else none :: scalars (b :: rest₁)

/-- The text of a sequence of bytes, if every byte is part of a character. -/
def ofUtf8? (bytes : List UInt8) : Option (List Char) := (scalars bytes).mapM id

/-- The text of a sequence of bytes, with the replacement character for every piece that is no
character. -/
def ofUtf8Lossy (bytes : List UInt8) : List Char :=
  (scalars bytes).map fun c => c.getD '\ufffd'

/-- The bytes of a text. -/
def toUtf8 (cs : List Char) : List UInt8 := cs.flatMap String.utf8EncodeChar

end ModelRest.Text
