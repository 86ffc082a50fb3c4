/-!
# Cutting texts

Operations on texts as lists of characters: trimming blank space, taking off a beginning or an end,
cutting at every occurrence of a character and at the first one. Blank space is what has the
Unicode property of that name; the zero-width space and the byte order mark do not have it.
-/

namespace ModelRest.Text

/-- The character is blank space. -/
def isBlank (c : Char) : Bool :=
  let n := c.toNat
  (0x09 ≤ n && n ≤ 0x0D) || n == 0x20 || n == 0x85 || n == 0xA0 || n == 0x1680 ||
    (0x2000 ≤ n && n ≤ 0x200A) || n == 0x2028 || n == 0x2029 || n == 0x202F || n == 0x205F ||
    n == 0x3000

/-- The text without the characters of a class at its end. -/
def dropEndWhile (p : Char → Bool) (cs : List Char) : List Char := (cs.reverse.dropWhile p).reverse

/-- The text without the characters of a class at both ends. -/
def trimBy (p : Char → Bool) (cs : List Char) : List Char := dropEndWhile p (cs.dropWhile p)

/-- The text without blank space at both ends. -/
def trim (cs : List Char) : List Char := trimBy isBlank cs

/-- What follows a given beginning, of a text that begins so. -/
def dropStart? : List Char → List Char → Option (List Char)
  | [], cs => some cs
  | _ :: _, [] => none
  | b :: begin, c :: cs => if b = c then dropStart? begin cs else none

/-- What precedes a given end, of a text that ends so. -/
def dropEnd? (ending cs : List Char) : Option (List Char) :=
  (dropStart? ending.reverse cs.reverse).map List.reverse

/-- The pieces between the occurrences of a character; there is one more piece than occurrences. -/
def splitAll (sep : Char) : List Char → List (List Char)
  | [] => [[]]
  | c :: cs =>
    if c = sep then [] :: splitAll sep cs
    else
      match splitAll sep cs with
      | [] => [[c]]
      | piece :: pieces => (c :: piece) :: pieces

/-- What precedes and what follows the first occurrence of a character. -/
def splitFirst? (sep : Char) : List Char → Option (List Char × List Char)
  | [] => none
  | c :: cs =>
    if c = sep then some ([], cs)
    else (splitFirst? sep cs).map fun (before, after) => (c :: before, after)

/-- The pieces with a character between each and the next. -/
def join (sep : Char) : List (List Char) → List Char
  | [] => []
  | [piece] => piece
  | piece :: rest => piece ++ sep :: join sep rest

theorem dropStart?_eq_some_iff {begin cs rest : List Char} :
    dropStart? begin cs = some rest ↔ cs = begin ++ rest := by
  induction begin generalizing cs with
  | nil => simp [dropStart?]
  | cons b begin ih =>
    cases cs with
    | nil => simp [dropStart?]
    | cons c cs =>
      by_cases h : b = c
      · simp [dropStart?, h, ih]
      · simp [dropStart?, h, Ne.symm h]

theorem dropEnd?_eq_some_iff {ending cs rest : List Char} :
    dropEnd? ending cs = some rest ↔ cs = rest ++ ending := by
  unfold dropEnd?
  rw [Option.map_eq_some_iff]
  constructor
  · rintro ⟨back, h, rfl⟩
    rw [dropStart?_eq_some_iff] at h
    rw [← cs.reverse_reverse, h, List.reverse_append, List.reverse_reverse]
  · rintro rfl
    exact ⟨rest.reverse, dropStart?_eq_some_iff.mpr List.reverse_append, List.reverse_reverse rest⟩

theorem splitAll_ne_nil (sep : Char) (cs : List Char) : splitAll sep cs ≠ [] := by
  cases cs with
  | nil => simp [splitAll]
  | cons c cs =>
    simp only [splitAll]
    split
    · simp
    · split <;> simp

/-- Cutting loses nothing: with the character put back between the pieces the text is back. -/
@[simp] theorem join_splitAll (sep : Char) (cs : List Char) : join sep (splitAll sep cs) = cs := by
  induction cs with
  | nil => rfl
  | cons c cs ih =>
    by_cases h : c = sep
    · subst h
      cases hs : splitAll c cs with
      | nil => exact absurd hs (splitAll_ne_nil c cs)
      | cons piece pieces =>
        rw [hs] at ih
        simp [splitAll, hs, join, ih]
    · cases hs : splitAll sep cs with
      | nil => exact absurd hs (splitAll_ne_nil sep cs)
      | cons piece pieces =>
        rw [hs] at ih
        cases pieces <;> simp_all [splitAll, join]

end ModelRest.Text
