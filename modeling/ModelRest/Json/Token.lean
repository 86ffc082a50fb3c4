import ModelRest.Json.Decimal

/-!
# The lexemes of JSON

A JSON text is cut into lexemes: brackets, braces, commas, colons, texts, and the values without
parts. Blank is the space, the tab, the line feed and the carriage return, and nothing else.
What follows a lexeme is shorter than the text it was scanned from, so cutting the whole text ends.
-/

namespace ModelRest.Json

/-- A lexeme. Two of them have the right form but stand for no value: where a value is needed they
are errors, and where it is passed over they are not. -/
inductive Token where
  /-- An opening brace. -/
  | openObject
  /-- A closing brace. -/
  | closeObject
  /-- An opening bracket. -/
  | openArray
  /-- A closing bracket. -/
  | closeArray
  /-- A comma. -/
  | comma
  /-- A colon. -/
  | colon
  /-- A text between quotes. -/
  | text (s : String)
  /-- A number, a truth value or null. -/
  | scalar (v : Json)
  /-- A text between quotes with half of a character in it. -/
  | halvedText
  /-- A number beyond all doubles. -/
  | hugeNumber
deriving Inhabited

/-- The character is blank. -/
def isSpace (c : Char) : Bool := c = ' ' || c = '\t' || c = '\n' || c = '\r'

/-! ### Texts -/

/-- The value of a hexadecimal digit. -/
def hexValue? (c : Char) : Option Nat :=
  let n := c.toNat
  if 48 ≤ n && n ≤ 57 then some (n - 48)
  else if 65 ≤ n && n ≤ 70 then some (n - 55)
  else if 97 ≤ n && n ≤ 102 then some (n - 87)
  else none

/-- The value of four hexadecimal digits. -/
def hexValue4? (a b c d : Char) : Option Nat := do
  let a ← hexValue? a
  let b ← hexValue? b
  let c ← hexValue? c
  let d ← hexValue? d
  pure (((a * 16 + b) * 16 + c) * 16 + d)

/-- The character that a letter after a backslash stands for. -/
def unescape? (c : Char) : Option Char :=
  if c = '"' then some '"'
  else if c = '\\' then some '\\'
  else if c = '/' then some '/'
  else if c = 'b' then some '\x08'
  else if c = 'f' then some '\x0c'
  else if c = 'n' then some '\n'
  else if c = 'r' then some '\r'
  else if c = 't' then some '\t'
  else none

/-- The number is the first half of a character outside the basic plane. -/
def isHighSurrogate (n : Nat) : Bool := 0xD800 ≤ n && n ≤ 0xDBFF

/-- The number is the second half of a character outside the basic plane. -/
def isLowSurrogate (n : Nat) : Bool := 0xDC00 ≤ n && n ≤ 0xDFFF

/-- Puts a character before a text that was read up to some rest. -/
def prepend (c : Char) (read : Option (List Char × List Char)) : Option (List Char × List Char) :=
  read.map fun p => (c :: p.1, p.2)

/-- The rest of a text after its opening quote, with what follows the closing quote. A character
below the space must be escaped, and halves of characters come in pairs. -/
def scanText : List Char → Option (List Char × List Char)
  | [] => none
  | '"' :: rest => some ([], rest)
  | '\\' :: 'u' :: a :: b :: c :: d :: rest =>
    match hexValue4? a b c d with
    | none => none
    | some high =>
      if isLowSurrogate high then none
      else if isHighSurrogate high then
        match rest with
        | '\\' :: 'u' :: e :: f :: g :: h :: rest =>
          match hexValue4? e f g h with
          | none => none
          | some low =>
            if isLowSurrogate low then
              prepend (Char.ofNat (0x10000 + (high - 0xD800) * 0x400 + (low - 0xDC00)))
                (scanText rest)
            else none
        | _ => none
      else prepend (Char.ofNat high) (scanText rest)
  | '\\' :: c :: rest =>
    match unescape? c with
    | none => none
    | some c => prepend c (scanText rest)
  | c :: rest => if c.toNat < 0x20 || c = '\\' then none else prepend c (scanText rest)

/-- What follows the closing quote of a text, whether or not it stands for characters. -/
def skipText : List Char → Option (List Char)
  | [] => none
  | '"' :: rest => some rest
  | '\\' :: 'u' :: a :: b :: c :: d :: rest =>
    if (hexValue4? a b c d).isSome then skipText rest else none
  | '\\' :: c :: rest => if (unescape? c).isSome then skipText rest else none
  | c :: rest => if c.toNat < 0x20 || c = '\\' then none else skipText rest

/-! ### Numbers -/

/-- The character is a decimal digit. -/
def isDigit (c : Char) : Bool := 48 ≤ c.toNat && c.toNat ≤ 57

/-- The leading digits of a text, and what follows them. -/
def scanDigits : List Char → List Nat × List Char
  | [] => ([], [])
  | c :: rest =>
    if isDigit c then
      let (digits, after) := scanDigits rest
      ((c.toNat - 48) :: digits, after)
    else ([], c :: rest)

/-- The digits of the fraction, which are at least one after a point; none without a point. -/
def scanFraction : List Char → Option (List Nat × List Char)
  | '.' :: rest =>
    match scanDigits rest with
    | ([], _) => none
    | (digits, after) => some (digits, after)
  | cs => some ([], cs)

/-- The number that digits write. -/
def digitsValue (digits : List Nat) : Nat := digits.foldl (fun n d => n * 10 + d) 0

/-- A power of ten without its sign: at least one digit. -/
def scanPower (sign : Int) (cs : List Char) : Option (Int × List Char) :=
  match scanDigits cs with
  | ([], _) => none
  | (digits, after) => some (sign * digitsValue digits, after)

/-- A power of ten after its letter. -/
def scanSignedPower : List Char → Option (Int × List Char)
  | '+' :: rest => scanPower 1 rest
  | '-' :: rest => scanPower (-1) rest
  | rest => scanPower 1 rest

/-- The power of ten that follows a letter `e`, which is zero without the letter. The flag says
whether the letter is there. -/
def scanExponent : List Char → Option ((Bool × Int) × List Char)
  | 'e' :: rest => (scanSignedPower rest).map fun p => ((true, p.1), p.2)
  | 'E' :: rest => (scanSignedPower rest).map fun p => ((true, p.1), p.2)
  | cs => some ((false, 0), cs)

/-- The value of a number from its parts. A whole number that fits its class stays whole; anything
else is a double, and must not be beyond all doubles. -/
def numberOf? (negative : Bool) (whole fraction : List Nat) (exponent : Bool × Int) :
    Option Number :=
  let (n, dropped) := Double.appendDigits 0 whole
  if fraction.isEmpty && !exponent.1 && dropped.isEmpty then
    if negative then
      if 0 < n && n ≤ 9223372036854775808 then some (.negative (n - 1))
      else (Double.ofDecimal? true n 0).map .double
    else some (.natural n)
  else
    let (m, left) := Double.appendDigits n fraction
    let scale : Int := dropped.length + left.length - fraction.length + exponent.2
    (Double.ofDecimal? negative m scale).map .double

/-- The lexeme of a number. -/
def numberToken : Option Number → Token
  | some n => .scalar (.number n)
  | none => .hugeNumber

/-- A number without its sign, and what follows it. A whole part of several digits does not begin
with zero. -/
def scanNumber (negative : Bool) (cs : List Char) : Option (Token × List Char) :=
  match scanDigits cs with
  | ([], _) => none
  | (d :: digits, rest₁) =>
    if d = 0 && !digits.isEmpty then none
    else
      match scanFraction rest₁ with
      | none => none
      | some (fraction, rest₂) =>
        match scanExponent rest₂ with
        | none => none
        | some (exponent, rest₃) =>
          some (numberToken (numberOf? negative (d :: digits) fraction exponent), rest₃)

/-! ### What follows is shorter -/

/-- What follows is not changed by a function of what was read. -/
theorem exists_of_map_fst {α β : Type} {f : α → β} {read : Option (α × List Char)} {b : β}
    {rest : List Char} (h : read.map (fun p => (f p.1, p.2)) = some (b, rest)) :
    ∃ a, read = some (a, rest) := by
  obtain ⟨⟨a, after⟩, h, e⟩ := Option.map_eq_some_iff.mp h
  simp only [Prod.mk.injEq] at e
  exact ⟨a, by rw [h, e.2]⟩

theorem prepend_eq_some_iff {c : Char} {read : Option (List Char × List Char)}
    {s rest : List Char} :
    prepend c read = some (s, rest) ↔ ∃ s', read = some (s', rest) ∧ s = c :: s' := by
  unfold prepend
  rw [Option.map_eq_some_iff]
  constructor
  · rintro ⟨⟨s', rest'⟩, h, e⟩
    cases e
    exact ⟨s', h, rfl⟩
  · rintro ⟨s', h, rfl⟩
    exact ⟨_, h, rfl⟩

theorem scanText_length {cs s rest : List Char} (h : scanText cs = some (s, rest)) :
    rest.length < cs.length := by
  fun_induction scanText cs generalizing s rest with
  | case2 rest => simp_all
  | case6 | case9 | case11 | case13 =>
    next ih =>
    obtain ⟨s', h, -⟩ := prepend_eq_some_iff.mp h
    have := ih h
    simp only [List.length_cons]
    omega
  | _ => exact absurd h (by simp)

theorem skipText_length {cs rest : List Char} (h : skipText cs = some rest) :
    rest.length < cs.length := by
  fun_induction skipText cs generalizing rest with
  | case2 rest => simp_all
  | case3 | case5 | case8 =>
    next ih =>
    have := ih h
    simp only [List.length_cons]
    omega
  | _ => exact absurd h (by simp)

theorem scanDigits_length (cs : List Char) : (scanDigits cs).2.length ≤ cs.length := by
  fun_induction scanDigits cs <;> grind

theorem scanDigits_length_lt {cs rest : List Char} {d : Nat} {digits : List Nat}
    (h : scanDigits cs = (d :: digits, rest)) : rest.length < cs.length := by
  cases cs with
  | nil => simp [scanDigits] at h
  | cons c cs => grind [scanDigits, scanDigits_length]

theorem scanFraction_length {cs rest : List Char} {digits : List Nat}
    (h : scanFraction cs = some (digits, rest)) : rest.length ≤ cs.length := by
  unfold scanFraction at h
  grind [scanDigits_length]

theorem scanPower_length {sign value : Int} {cs rest : List Char}
    (h : scanPower sign cs = some (value, rest)) : rest.length ≤ cs.length := by
  unfold scanPower at h
  grind [scanDigits_length]

theorem scanSignedPower_length {value : Int} {cs rest : List Char}
    (h : scanSignedPower cs = some (value, rest)) : rest.length ≤ cs.length := by
  unfold scanSignedPower at h
  split at h
  · exact Nat.le_succ_of_le (scanPower_length h)
  · exact Nat.le_succ_of_le (scanPower_length h)
  · exact scanPower_length h

theorem scanExponent_length {cs rest : List Char} {exponent : Bool × Int}
    (h : scanExponent cs = some (exponent, rest)) : rest.length ≤ cs.length := by
  unfold scanExponent at h
  split at h
  · obtain ⟨p, h⟩ := exists_of_map_fst (β := Bool × Int) h
    exact Nat.le_succ_of_le (scanSignedPower_length h)
  · obtain ⟨p, h⟩ := exists_of_map_fst (β := Bool × Int) h
    exact Nat.le_succ_of_le (scanSignedPower_length h)
  · grind

theorem scanNumber_length {negative : Bool} {cs rest : List Char} {t : Token}
    (h : scanNumber negative cs = some (t, rest)) : rest.length < cs.length := by
  unfold scanNumber at h
  split at h
  · simp at h
  · next d digits rest₁ hd =>
    split at h
    · simp at h
    · split at h
      · simp at h
      · next fraction rest₂ hf =>
        split at h
        · simp at h
        · next exponent rest₃ he =>
          obtain ⟨-, rfl⟩ := Prod.mk.inj (Option.some.inj h)
          have h₁ := scanDigits_length_lt hd
          have h₂ := scanFraction_length hf
          have h₃ := scanExponent_length he
          omega

/-! ### All lexemes -/

/-- What follows a given word, of a text that begins with it. -/
def dropWord? : List Char → List Char → Option (List Char)
  | [], cs => some cs
  | _ :: _, [] => none
  | w :: word, c :: cs => if w = c then dropWord? word cs else none

theorem dropWord?_length {word cs rest : List Char} (h : dropWord? word cs = some rest) :
    rest.length + word.length = cs.length := by
  fun_induction dropWord? word cs <;> grind

/-- The lexeme that a character is by itself. -/
def punctuation? (c : Char) : Option Token :=
  if c = '\x7b' then some .openObject
  else if c = '\x7d' then some .closeObject
  else if c = '[' then some .openArray
  else if c = ']' then some .closeArray
  else if c = ',' then some .comma
  else if c = ':' then some .colon
  else none

/-- The rest of the word that begins with a character, and the value that the word stands for. -/
def word? (c : Char) : Option (List Char × Json) :=
  if c = 'n' then some (['u', 'l', 'l'], .null)
  else if c = 't' then some (['r', 'u', 'e'], .bool true)
  else if c = 'f' then some (['a', 'l', 's', 'e'], .bool false)
  else none

/-- The lexeme at the beginning of a text that does not begin with a blank, and what follows it. -/
def scanToken (c : Char) (rest : List Char) : Option (Token × List Char) :=
  match punctuation? c, word? c with
  | some t, _ => some (t, rest)
  | none, some (word, v) => (dropWord? word rest).map fun after => (.scalar v, after)
  | none, none =>
    if c = '"' then
      match scanText rest with
      | some (s, after) => some (.text (String.ofList s), after)
      | none => (skipText rest).map fun after => (.halvedText, after)
    else if c = '-' then scanNumber true rest
    else if isDigit c then scanNumber false (c :: rest)
    else none

theorem scanToken_length {c : Char} {rest after : List Char} {t : Token}
    (h : scanToken c rest = some (t, after)) : after.length < (c :: rest).length := by
  unfold scanToken at h
  split at h
  · obtain ⟨-, rfl⟩ := Prod.mk.inj (Option.some.inj h)
    exact Nat.lt_succ_self _
  · obtain ⟨r, hr, e⟩ := Option.map_eq_some_iff.mp h
    obtain ⟨-, rfl⟩ := Prod.mk.inj e
    have := dropWord?_length hr
    simp only [List.length_cons]
    omega
  · split at h
    · split at h
      · next s after' hs =>
        obtain ⟨-, rfl⟩ := Prod.mk.inj (Option.some.inj h)
        exact Nat.lt_succ_of_lt (scanText_length hs)
      · obtain ⟨r, hr, e⟩ := Option.map_eq_some_iff.mp h
        obtain ⟨-, rfl⟩ := Prod.mk.inj e
        exact Nat.lt_succ_of_lt (skipText_length hr)
    · split at h
      · exact Nat.lt_succ_of_lt (scanNumber_length h)
      · split at h
        · exact scanNumber_length h
        · exact absurd h (by simp)

/-- All lexemes of a text, if it is made of lexemes and blanks. -/
def tokens (cs : List Char) : Option (List Token) :=
  match cs with
  | [] => some []
  | c :: rest =>
    if isSpace c then tokens rest
    else
      match _h : scanToken c rest with
      | none => none
      | some (t, after) => (tokens after).map (t :: ·)
termination_by cs.length
decreasing_by
  · simp
  · exact scanToken_length _h

end ModelRest.Json
