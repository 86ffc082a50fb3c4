import ModelRest.Json.Printer
import ModelRest.Json.Reader
import ModelRest.Proofs.Spans

/-!
# Texts of JSON values

Blank space around a JSON text may be left out without changing its value, also such blank space as
JSON does not know: no lexeme begins with a blank (`scanToken_of_isBlank`), and each lexeme ends
before the blanks that are at the end of the text (`scanToken_of_concat`). This is `parse?_trim`.

A value that is written is read again if it is made of texts, arrays and objects (`Legible`). Texts
are read character by character as they are escaped, and containers as far as they may be nested:
`Legible.parse?_render`.
-/

namespace ModelRest.Json

open Text (isBlank)

/-! ### Texts end with a quote -/

/-- Most characters stand for themselves. -/
theorem scanText_cons {c : Char} (hquote : c ≠ '"')
    (hlow : ¬(decide (c.toNat < 0x20) || decide (c = '\\')) = true) (cs : List Char) :
    scanText (c :: cs) = prepend c (scanText cs) := by
  have hslash : c ≠ '\\' := fun hc => hlow (by simp [hc])
  rw [scanText, if_neg hlow]
  all_goals simp [hquote, hslash]

/-- What is read of a text ends with its quote, and does not depend on what follows. -/
theorem scanText_local {cs s after : List Char} (h : scanText cs = some (s, after)) :
    ∃ used, cs = used ++ '"' :: after ∧
      ∀ other, scanText (used ++ '"' :: other) = some (s, other) := by
  fun_induction scanText cs generalizing s after with
  | case2 rest =>
    cases h
    exact ⟨[], rfl, fun _ => rfl⟩
  | case6 a b c d high hhigh hlow hsur e f g k rest low hlow' hsur' ih =>
    obtain ⟨s', hrest, rfl⟩ := prepend_eq_some_iff.mp h
    obtain ⟨used, rfl, hused⟩ := ih hrest
    refine ⟨'\\' :: 'u' :: a :: b :: c :: d :: '\\' :: 'u' :: e :: f :: g :: k :: used, rfl,
      fun other => ?_⟩
    simp [scanText, hhigh, hlow, hsur, hlow', hsur', hused, prepend]
  | case9 a b c d rest high hhigh hlow hsur ih =>
    obtain ⟨s', hrest, rfl⟩ := prepend_eq_some_iff.mp h
    obtain ⟨used, rfl, hused⟩ := ih hrest
    refine ⟨'\\' :: 'u' :: a :: b :: c :: d :: used, rfl, fun other => ?_⟩
    simp [scanText, hhigh, hlow, hsur, hused, prepend]
  | case11 c rest hno c' hc ih =>
    obtain ⟨s', hrest, rfl⟩ := prepend_eq_some_iff.mp h
    obtain ⟨used, rfl, hused⟩ := ih hrest
    refine ⟨'\\' :: c :: used, rfl, fun other => ?_⟩
    have hu : c ≠ 'u' := by
      rintro rfl
      cases hc
    simp [scanText, hu, hc, hused, prepend]
  | case13 c rest hquote hno hno' hlow ih =>
    obtain ⟨s', hrest, rfl⟩ := prepend_eq_some_iff.mp h
    obtain ⟨used, rfl, hused⟩ := ih hrest
    refine ⟨c :: used, rfl, fun other => ?_⟩
    rw [List.cons_append, scanText_cons hquote hlow, hused]
    rfl
  | _ => cases h

theorem skipText_local {cs after : List Char} (h : skipText cs = some after) :
    ∃ used, cs = used ++ '"' :: after ∧ ∀ other, skipText (used ++ '"' :: other) = some other := by
  fun_induction skipText cs generalizing after with
  | case2 rest =>
    cases h
    exact ⟨[], rfl, fun _ => rfl⟩
  | case3 a b c d rest hhex ih =>
    obtain ⟨used, rfl, hused⟩ := ih h
    refine ⟨'\\' :: 'u' :: a :: b :: c :: d :: used, rfl, fun other => ?_⟩
    simp [skipText, hhex, hused]
  | case5 c rest hno hc ih =>
    obtain ⟨used, rfl, hused⟩ := ih h
    refine ⟨'\\' :: c :: used, rfl, fun other => ?_⟩
    have hu : c ≠ 'u' := by
      rintro rfl
      cases hc
    simp [skipText, hu, hc, hused]
  | case8 c rest hquote hno hno' hlow ih =>
    obtain ⟨used, rfl, hused⟩ := ih h
    refine ⟨c :: used, rfl, fun other => ?_⟩
    have hslash : c ≠ '\\' := fun hc => hlow (by simp [hc])
    rw [List.cons_append, skipText, if_neg hlow, hused]
    · exact hquote
    all_goals simp [hslash]
  | _ => cases h

/-- If the last character is another one, then it comes after this one. -/
theorem exists_of_concat_eq {b q : Char} (hne : b ≠ q) {rest used after : List Char}
    (h : rest ++ [b] = used ++ q :: after) :
    ∃ after', after = after' ++ [b] ∧ rest = used ++ q :: after' := by
  rcases List.eq_nil_or_concat after with rfl | ⟨after', last, rfl⟩
  · exact absurd (List.append_inj' h rfl).2 (by simpa using hne)
  · rw [List.concat_eq_append, ← List.cons_append, ← List.append_assoc] at h
    obtain ⟨hrest, hlast⟩ := List.append_inj' h rfl
    cases hlast
    exact ⟨after', List.concat_eq_append .., hrest⟩

/-! ### Lexemes end before blanks -/

section Blank

variable {b : Char} (hb : isBlank b = true)

include hb

theorem toNat_of_isBlank : b.toNat ≤ 0x20 ∨ 0x85 ≤ b.toNat := by
  simp only [isBlank, Bool.or_eq_true, Bool.and_eq_true, decide_eq_true_eq, beq_iff_eq] at hb
  omega

theorem ne_of_isBlank {d : Char} (hd : isBlank d = false) : b ≠ d := by
  rintro rfl
  rw [hb] at hd
  cases hd

theorem isDigit_of_isBlank : isDigit b = false := by
  have := toNat_of_isBlank hb
  simp only [isDigit, Bool.and_eq_false_iff, decide_eq_false_iff_not]
  omega

theorem scanDigits_concat (cs : List Char) :
    scanDigits (cs ++ [b]) = ((scanDigits cs).1, (scanDigits cs).2 ++ [b]) := by
  induction cs with
  | nil => simp [scanDigits, isDigit_of_isBlank hb]
  | cons c cs ih =>
    simp only [List.cons_append, scanDigits, ih]
    split <;> rfl

theorem scanFraction_concat (cs : List Char) :
    scanFraction (cs ++ [b]) = (scanFraction cs).map fun p => (p.1, p.2 ++ [b]) := by
  cases cs with
  | nil => simp [scanFraction, ne_of_isBlank hb (d := '.') (by decide)]
  | cons c cs =>
    by_cases hc : c = '.'
    · subst hc
      simp only [List.cons_append, scanFraction, scanDigits_concat hb]
      rcases scanDigits cs with ⟨_ | ⟨d, ds⟩, after⟩ <;> rfl
    · simp [scanFraction, hc]

theorem scanPower_concat (sign : Int) (cs : List Char) :
    scanPower sign (cs ++ [b]) = (scanPower sign cs).map fun p => (p.1, p.2 ++ [b]) := by
  unfold scanPower
  rw [scanDigits_concat hb]
  rcases scanDigits cs with ⟨_ | ⟨d, ds⟩, after⟩ <;> rfl

theorem scanSignedPower_concat (cs : List Char) :
    scanSignedPower (cs ++ [b]) = (scanSignedPower cs).map fun p => (p.1, p.2 ++ [b]) := by
  cases cs with
  | nil =>
    have hp := scanPower_concat hb 1 []
    simpa [scanSignedPower, ne_of_isBlank hb (d := '+') (by decide),
      ne_of_isBlank hb (d := '-') (by decide)] using hp
  | cons c cs =>
    by_cases hplus : c = '+'
    · subst hplus
      exact scanPower_concat hb 1 cs
    by_cases hminus : c = '-'
    · subst hminus
      exact scanPower_concat hb (-1) cs
    have hp := scanPower_concat hb 1 (c :: cs)
    simpa [scanSignedPower, hplus, hminus] using hp

theorem scanExponent_concat (cs : List Char) :
    scanExponent (cs ++ [b]) = (scanExponent cs).map fun p => (p.1, p.2 ++ [b]) := by
  cases cs with
  | nil => simp [scanExponent, ne_of_isBlank hb (d := 'e') (by decide),
      ne_of_isBlank hb (d := 'E') (by decide)]
  | cons c cs =>
    by_cases he : c = 'e'
    · subst he
      simp [scanExponent, scanSignedPower_concat hb, Function.comp_def]
    by_cases hE : c = 'E'
    · subst hE
      simp [scanExponent, scanSignedPower_concat hb, Function.comp_def]
    simp [scanExponent, he, hE]

theorem scanNumber_concat (negative : Bool) (cs : List Char) :
    scanNumber negative (cs ++ [b]) = (scanNumber negative cs).map fun p => (p.1, p.2 ++ [b]) := by
  unfold scanNumber
  rw [scanDigits_concat hb]
  rcases scanDigits cs with ⟨_ | ⟨d, ds⟩, after⟩
  · rfl
  dsimp only
  split
  · rfl
  rw [scanFraction_concat hb]
  cases scanFraction after with
  | none => rfl
  | some p =>
    obtain ⟨fraction, after⟩ := p
    simp only [Option.map_some, scanExponent_concat hb]
    cases scanExponent after <;> rfl

omit hb in
theorem dropWord?_concat {word : List Char} (hword : b ∉ word) (cs : List Char) :
    dropWord? word (cs ++ [b]) = (dropWord? word cs).map (· ++ [b]) := by
  induction word generalizing cs with
  | nil => rfl
  | cons w word ih =>
    obtain ⟨hw, hword⟩ := not_or.mp (mt List.mem_cons.mpr hword)
    cases cs with
    | nil => simp [dropWord?, Ne.symm hw]
    | cons c cs =>
      simp only [List.cons_append, dropWord?, ih hword]
      split <;> rfl

theorem not_mem_word {c : Char} {word : List Char} {v : Json} (h : word? c = some (word, v)) :
    b ∉ word := by
  have hletters : word.any isBlank = false := by
    unfold word? at h
    split at h
    · cases h
      rfl
    split at h
    · cases h
      rfl
    split at h
    · cases h
      rfl
    · cases h
  intro hmem
  rw [List.any_eq_true.mpr ⟨b, hmem, hb⟩] at hletters
  cases hletters

/-- A lexeme ends before the blank. -/
theorem scanToken_of_concat {c : Char} {rest after : List Char} {t : Token}
    (h : scanToken c (rest ++ [b]) = some (t, after)) :
    ∃ after', after = after' ++ [b] ∧ scanToken c rest = some (t, after') := by
  have hquote := ne_of_isBlank hb (d := '"') (by decide)
  have hmap : ∀ {read : Option (Token × List Char)},
      read.map (fun p => (p.1, p.2 ++ [b])) = some (t, after) →
        ∃ after', after = after' ++ [b] ∧ read = some (t, after') := by
    intro read h
    obtain ⟨⟨t', after'⟩, rfl, he⟩ := Option.map_eq_some_iff.mp h
    cases he
    exact ⟨after', rfl, rfl⟩
  unfold scanToken at h ⊢
  cases hp : punctuation? c with
  | some p =>
    simp only [hp] at h ⊢
    cases h
    exact ⟨rest, rfl, rfl⟩
  | none =>
    cases hw : word? c with
    | some w =>
      obtain ⟨word, v⟩ := w
      simp only [hp, hw, dropWord?_concat (not_mem_word hb hw), Option.map_map] at h ⊢
      refine hmap (Eq.trans ?_ h)
      rw [Option.map_map]
      rfl
    | none =>
      simp only [hp, hw] at h ⊢
      split at h
      · split at h
        · rename_i s after' hs
          obtain ⟨used, hused, hlocal⟩ := scanText_local hs
          obtain ⟨rest', rfl, rfl⟩ := exists_of_concat_eq hquote hused
          cases h
          rw [if_pos ‹_›, hlocal]
          exact ⟨rest', rfl, rfl⟩
        · rename_i hs
          obtain ⟨skipped, hskip, he⟩ := Option.map_eq_some_iff.mp h
          obtain ⟨used, hused, hlocal⟩ := skipText_local hskip
          obtain ⟨rest', rfl, rfl⟩ := exists_of_concat_eq hquote hused
          cases he
          rw [if_pos ‹_›, hlocal]
          cases hs' : scanText (used ++ '"' :: rest') with
          | none => exact ⟨rest', rfl, rfl⟩
          | some p =>
            obtain ⟨s, after'⟩ := p
            obtain ⟨used', hused', hlocal'⟩ := scanText_local hs'
            rw [hused', List.append_assoc, List.cons_append, hlocal'] at hs
            cases hs
      · rename_i hc
        rw [if_neg hc]
        split at h
        · rw [if_pos ‹_›]
          exact hmap ((scanNumber_concat hb true rest).symm.trans h)
        · rw [if_neg ‹_›]
          split at h
          · rw [if_pos ‹_›]
            exact hmap ((scanNumber_concat hb false (c :: rest)).symm.trans h)
          · cases h

end Blank

/-! ### Blanks around lexemes -/

theorem tokens_cons_of_isSpace {c : Char} (hc : isSpace c = true) (rest : List Char) :
    tokens (c :: rest) = tokens rest := by
  rw [tokens, if_pos hc]

theorem tokens_cons_of_scanToken {c : Char} (hc : isSpace c = false) {rest after : List Char}
    {t : Token} (h : scanToken c rest = some (t, after)) :
    tokens (c :: rest) = (tokens after).map (t :: ·) := by
  rw [tokens, hc, if_neg Bool.false_ne_true]
  split
  · rename_i hno
    cases h.symm.trans hno
  · rename_i hsome
    cases h.symm.trans hsome
    rfl

theorem tokens_cons_eq_some {c : Char} (hc : isSpace c = false) {rest : List Char}
    {ts : List Token} (h : tokens (c :: rest) = some ts) : ∃ t after ts',
      scanToken c rest = some (t, after) ∧ tokens after = some ts' ∧ ts = t :: ts' := by
  cases hs : scanToken c rest with
  | none =>
    rw [tokens, hc, if_neg Bool.false_ne_true] at h
    split at h
    · cases h
    · rename_i hsome
      cases hs.symm.trans hsome
  | some p =>
    obtain ⟨t, after⟩ := p
    rw [tokens_cons_of_scanToken hc hs] at h
    obtain ⟨ts', hts, rfl⟩ := Option.map_eq_some_iff.mp h
    exact ⟨t, after, ts', rfl, hts, rfl⟩

section Blank

variable {b : Char} (hb : isBlank b = true)

include hb

theorem scanToken_of_isBlank (rest : List Char) : scanToken b rest = none := by
  have hpunctuation : punctuation? b = none := by
    unfold punctuation?
    repeat rw [if_neg (ne_of_isBlank hb (by decide))]
  have hword : word? b = none := by
    unfold word?
    repeat rw [if_neg (ne_of_isBlank hb (by decide))]
  unfold scanToken
  rw [hpunctuation, hword, isDigit_of_isBlank hb]
  simp [ne_of_isBlank hb (d := '"') (by decide), ne_of_isBlank hb (d := '-') (by decide)]

/-- A blank before lexemes may be left out. -/
theorem tokens_of_cons {cs : List Char} {ts : List Token} (h : tokens (b :: cs) = some ts) :
    tokens cs = some ts := by
  cases hs : isSpace b with
  | true => rwa [tokens_cons_of_isSpace hs] at h
  | false =>
    obtain ⟨t, after, ts', hscan, -⟩ := tokens_cons_eq_some hs h
    rw [scanToken_of_isBlank hb] at hscan
    cases hscan

/-- A blank after lexemes may be left out. -/
theorem tokens_of_concat {cs : List Char} {ts : List Token} (h : tokens (cs ++ [b]) = some ts) :
    tokens cs = some ts := by
  induction hn : cs.length using Nat.strongRecOn generalizing cs ts with
  | _ n ih =>
    cases cs with
    | nil => exact tokens_of_cons hb h
    | cons c rest =>
      rw [List.cons_append] at h
      cases hs : isSpace c with
      | true =>
        rw [tokens_cons_of_isSpace hs] at h ⊢
        exact ih _ (by simp [← hn]) h rfl
      | false =>
        obtain ⟨t, after, ts', hscan, hts, rfl⟩ := tokens_cons_eq_some hs h
        obtain ⟨after', rfl, hscan'⟩ := scanToken_of_concat hb hscan
        rw [tokens_cons_of_scanToken hs hscan',
          ih _ (hn ▸ scanToken_length hscan') hts rfl]
        rfl

end Blank

/-- **Blank space around a JSON text may be left out**, also such as JSON does not allow there. -/
theorem parse?_trim {text : String} {v : Json} (h : parse? text = some v) :
    parse? (String.ofList (Text.trim text.toList)) = some v := by
  obtain ⟨r, hread, rfl⟩ := Option.map_eq_some_iff.mp h
  obtain ⟨ts, hts, hr⟩ := Option.bind_eq_some_iff.mp hread
  have htrim : tokens (Text.trim text.toList) = some ts :=
    @Text.trimBy_preserves isBlank _ (fun cs => tokens cs = some ts)
      (fun _ _ hb => tokens_of_cons hb) (fun _ _ hb => tokens_of_concat hb) hts
  unfold parse? read?
  rw [String.toList_ofList, htrim]
  exact congrArg (Option.map canonical) hr

/-! ### Arrays begin with a bracket -/

theorem isSpace_of_not_isBlank {c : Char} (h : isBlank c = false) : isSpace c = false := by
  have hne : ∀ {d : Char}, isBlank d = true → c ≠ d := by
    rintro d hd rfl
    rw [hd] at h
    cases h
  have hspace : c ≠ ' ' := hne rfl
  have htab : c ≠ '\t' := hne rfl
  have hline : c ≠ '\n' := hne rfl
  have hreturn : c ≠ '\r' := hne rfl
  simp [isSpace, hspace, htab, hline, hreturn]

theorem numberToken_cases (n : Option Number) :
    numberToken n = .hugeNumber ∨ ∃ n', numberToken n = .scalar (.number n') := by
  cases n with
  | none => exact .inl rfl
  | some n => exact .inr ⟨n, rfl⟩

theorem exists_numberToken {negative : Bool} {cs after : List Char} {t : Token}
    (h : scanNumber negative cs = some (t, after)) : ∃ n, t = numberToken n := by
  unfold scanNumber at h
  split at h
  · cases h
  split at h
  · cases h
  split at h
  · cases h
  split at h
  · cases h
  · cases h
    exact ⟨_, rfl⟩

/-- What the lexeme at the beginning of a text is: one that opens a container begins with the
bracket or the brace, and one that stands for a value by itself stands for no array. -/
theorem scanToken_begins {c : Char} {rest after : List Char} {t : Token}
    (h : scanToken c rest = some (t, after)) : (t = .openArray → c = '[') ∧
      (t = .openObject → c = '\x7b') ∧ ∀ v, t = .scalar v → v.array? = none := by
  have hnumber : ∀ {negative cs}, scanNumber negative cs = some (t, after) →
      (t = .openArray → c = '[') ∧ (t = .openObject → c = '\x7b') ∧
        ∀ v, t = .scalar v → v.array? = none := by
    intro negative cs h
    obtain ⟨n, rfl⟩ := exists_numberToken h
    rcases numberToken_cases n with hn | ⟨n', hn⟩ <;> rw [hn] <;> simp [array?]
  unfold scanToken at h
  cases hp : punctuation? c with
  | some p =>
    simp only [hp] at h
    cases h
    grind [punctuation?]
  | none =>
    cases hw : word? c with
    | some w =>
      obtain ⟨word, v⟩ := w
      simp only [hp, hw] at h
      obtain ⟨after', -, he⟩ := Option.map_eq_some_iff.mp h
      cases he
      grind [word?, array?]
    | none =>
      simp only [hp, hw] at h
      split at h
      · split at h
        · cases h
          simp
        · obtain ⟨after', -, he⟩ := Option.map_eq_some_iff.mp h
          cases he
          simp
      split at h
      · exact hnumber h
      split at h
      · exact hnumber h
      · cases h

theorem parse?_nil : parse? (String.ofList []) = none := by
  unfold parse? read?
  rw [String.toList_ofList, tokens]
  rfl

/-- The text of an array begins with a bracket; that it begins with a brace is not excluded here. -/
theorem begins_of_parse? {c : Char} {rest : List Char} {items : List Json}
    (hc : isSpace c = false) (h : parse? (String.ofList (c :: rest)) = some (.array items)) :
    c = '[' ∨ c = '\x7b' := by
  obtain ⟨r, hread, hr⟩ := Option.map_eq_some_iff.mp h
  obtain ⟨ts, hts, hvalue⟩ := Option.bind_eq_some_iff.mp hread
  rw [String.toList_ofList] at hts
  obtain ⟨t, after, more, hscan, -, rfl⟩ := tokens_cons_eq_some hc hts
  obtain ⟨harray, hobject, hscalar⟩ := scanToken_begins hscan
  obtain ⟨state, hstate, hresult⟩ := Option.bind_eq_some_iff.mp hvalue
  rw [List.foldlM_cons] at hstate
  obtain ⟨first, hfirst, hmore⟩ := Option.bind_eq_some_iff.mp hstate
  have hfirst' : ReaderState.beginValue maxDepth [] t = some first := hfirst
  have hsome : r.array? ≠ none := by
    cases r with
    | array items => exact nofun
    | null | bool | number | string | object => cases hr
  -- a value without parts is the whole text
  have hdone : ∀ v, first = ⟨.next v, []⟩ → v = r := by
    rintro v rfl
    cases more with
    | nil =>
      cases hmore
      exact Option.some.inj hresult
    | cons t' more =>
      rw [List.foldlM_cons] at hmore
      obtain ⟨second, hsecond, -⟩ := Option.bind_eq_some_iff.mp hmore
      cases t' <;> cases hsecond
  cases t with
  | openArray => exact .inl (harray rfl)
  | openObject => exact .inr (hobject rfl)
  | scalar v =>
    cases hfirst'
    exact absurd (hdone v rfl ▸ hscalar v rfl) hsome
  | text s =>
    cases hfirst'
    exact absurd (hdone (.string s) rfl ▸ rfl) hsome
  | _ => cases hfirst'

/-! ### Values written and read -/

theorem hexValue4?_control {n : Nat} (h : n < 0x20) :
    hexValue4? '0' '0' (hexDigit (n / 16)) (hexDigit (n % 16)) = some n := by
  revert n
  decide

/-- A character is read where it is written. -/
theorem scanText_escape (c : Char) (cs : List Char) :
    scanText (escape c ++ cs) = prepend c (scanText cs) := by
  unfold escape
  by_cases h₁ : c = '"'
  · subst h₁; simp [scanText, unescape?]
  by_cases h₂ : c = '\\'
  · subst h₂; simp [scanText, unescape?]
  by_cases h₃ : c = '\n'
  · subst h₃; simp [scanText, unescape?]
  by_cases h₄ : c = '\r'
  · subst h₄; simp [scanText, unescape?]
  by_cases h₅ : c = '\t'
  · subst h₅; simp [scanText, unescape?]
  by_cases h₆ : c = '\x08'
  · subst h₆; simp [scanText, unescape?]
  by_cases h₇ : c = '\x0c'
  · subst h₇; simp [scanText, unescape?]
  by_cases hlow : c.toNat < 0x20
  · have hno : isLowSurrogate c.toNat = false ∧ isHighSurrogate c.toNat = false := by
      simp only [isLowSurrogate, isHighSurrogate, Bool.and_eq_false_iff, decide_eq_false_iff_not]
      omega
    simp [h₁, h₂, h₃, h₄, h₅, h₆, h₇, hlow, scanText, hexValue4?_control hlow, hno.1, hno.2]
  · simp only [h₁, h₂, h₃, h₄, h₅, h₆, h₇, hlow, if_false, List.singleton_append]
    exact scanText_cons h₁ (by simp [h₂, hlow]) cs

theorem scanText_print (s rest : List Char) :
    scanText (s.foldr (fun c rest => escape c ++ rest) ('"' :: rest)) = some (s, rest) := by
  induction s with
  | nil => simp [scanText]
  | cons c s ih =>
    rw [List.foldr_cons, scanText_escape, ih]
    rfl

theorem tokens_printString (s : String) (rest : List Char) :
    tokens (printString s.toList rest) = (tokens rest).map (.text s :: ·) := by
  refine tokens_cons_of_scanToken rfl ?_
  have hscan := scanText_print s.toList rest
  simp only [scanToken, hscan, String.ofList_toList]
  rfl

theorem tokens_cons_of_punctuation? {c : Char} {t : Token} (h : punctuation? c = some t)
    (hc : isSpace c = false) (rest : List Char) :
    tokens (c :: rest) = (tokens rest).map (t :: ·) := by
  refine tokens_cons_of_scanToken hc ?_
  unfold scanToken
  rw [h]

section Run

variable {state next : ReaderState} {rest : List Token}

/-- Reading goes on where a lexeme leads to. -/
theorem foldlM_cons_of_step {t : Token} (h : ReaderState.step maxDepth state t = some next) :
    (t :: rest).foldlM (ReaderState.step maxDepth) state =
      rest.foldlM (ReaderState.step maxDepth) next := by
  rw [List.foldlM_cons, h, Option.bind_eq_bind, Option.bind_some]

/-- Reading goes on where the first lexemes lead to. -/
theorem foldlM_append_of_eq_some {first : List Token}
    (h : first.foldlM (ReaderState.step maxDepth) state = some next) :
    (first ++ rest).foldlM (ReaderState.step maxDepth) state =
      rest.foldlM (ReaderState.step maxDepth) next := by
  rw [List.foldlM_append, h, Option.bind_eq_bind, Option.bind_some]

/-- A container may be opened as long as not too many are open. -/
theorem step_openArray {frames : List Frame} (h : frames.length < maxDepth) :
    ReaderState.step maxDepth ⟨.value, frames⟩ .openArray = some ⟨.itemOrEnd, frames⟩ :=
  if_pos h

theorem step_openObject {frames : List Frame} (h : frames.length < maxDepth) :
    ReaderState.step maxDepth ⟨.value, frames⟩ .openObject = some ⟨.nameOrEnd, frames⟩ :=
  if_pos h

end Run

/-- The value is read where it is written, if so many more containers may be open. -/
def Legible (depth : Nat) (v : Json) : Prop :=
  ∃ ts, (∀ rest, tokens (print v rest) = (tokens rest).map (ts ++ ·)) ∧
    ∀ frames, frames.length + depth ≤ maxDepth →
      ts.foldlM (ReaderState.step maxDepth) ⟨.value, frames⟩ = some ⟨.next v, frames⟩

theorem legible_string (s : String) : Legible 0 (.string s) :=
  ⟨[.text s], fun rest => tokens_printString s rest, fun _ _ => rfl⟩

/-- The items after the first are read up to the end of the array. -/
theorem exists_items {depth : Nat} {items : List Json} (h : ∀ v ∈ items, Legible depth v) :
    ∃ ts, (∀ rest, tokens (printItems items (']' :: rest)) = (tokens rest).map (ts ++ ·)) ∧
      ∀ frames before v, frames.length + (depth + 1) ≤ maxDepth →
        ts.foldlM (ReaderState.step maxDepth) ⟨.next v, .items before :: frames⟩ =
          some ⟨.next (.array ((v :: before).reverse ++ items)), frames⟩ := by
  induction items with
  | nil =>
    refine ⟨[.closeArray], fun rest => tokens_cons_of_punctuation? rfl rfl rest, ?_⟩
    intro frames before v _
    rw [List.append_nil]
    rfl
  | cons w items ih =>
    obtain ⟨⟨ts, htokens, hread⟩, hitems⟩ := List.forall_mem_cons.mp h
    obtain ⟨more, hmore, hrest⟩ := ih hitems
    refine ⟨.comma :: (ts ++ more), fun rest => ?_, fun frames before v hdepth => ?_⟩
    · rw [printItems, tokens_cons_of_punctuation? (t := .comma) rfl rfl, htokens, hmore]
      simp [Function.comp_def]
    · have hcomma : ReaderState.step maxDepth ⟨.next v, .items before :: frames⟩ .comma =
          some ⟨.value, .items (v :: before) :: frames⟩ := rfl
      have hinner : (Frame.items (v :: before) :: frames).length + depth ≤ maxDepth := by
        rw [List.length_cons]
        omega
      rw [foldlM_cons_of_step hcomma, foldlM_append_of_eq_some (hread _ hinner),
        hrest _ _ _ hdepth]
      simp

/-- A value is also read as the first item of an array. -/
theorem foldlM_itemOrEnd {ts : List Token} {frames : List Frame} {v : Json}
    (h : ts.foldlM (ReaderState.step maxDepth) ⟨.value, .items [] :: frames⟩ =
      some ⟨.next v, .items [] :: frames⟩) :
    ts.foldlM (ReaderState.step maxDepth) ⟨.itemOrEnd, frames⟩ =
      some ⟨.next v, .items [] :: frames⟩ := by
  cases ts with
  | nil => cases h
  | cons t ts =>
    rw [List.foldlM_cons] at h ⊢
    have hstep : ReaderState.step maxDepth ⟨.value, .items [] :: frames⟩ t =
        ReaderState.beginValue maxDepth (.items [] :: frames) t := rfl
    cases t with
    | closeArray => cases h
    | _ => exact h

theorem legible_array {depth : Nat} {items : List Json} (h : ∀ v ∈ items, Legible depth v) :
    Legible (depth + 1) (.array items) := by
  cases items with
  | nil =>
    refine ⟨[.openArray, .closeArray], fun rest => ?_, fun frames hdepth => ?_⟩
    · rw [print, tokens_cons_of_punctuation? (t := .openArray) rfl rfl,
        tokens_cons_of_punctuation? (t := .closeArray) rfl rfl, Option.map_map]
      rfl
    · rw [foldlM_cons_of_step (step_openArray (by omega))]
      rfl
  | cons v items =>
    obtain ⟨⟨ts, htokens, hread⟩, hitems⟩ := List.forall_mem_cons.mp h
    obtain ⟨more, hmore, hrest⟩ := exists_items hitems
    refine ⟨.openArray :: (ts ++ more), fun rest => ?_, fun frames hdepth => ?_⟩
    · rw [print, tokens_cons_of_punctuation? (t := .openArray) rfl rfl, htokens, hmore]
      simp [Function.comp_def]
    · have hinner : (Frame.items [] :: frames).length + depth ≤ maxDepth := by
        rw [List.length_cons]
        omega
      rw [foldlM_cons_of_step (step_openArray (by omega)),
        foldlM_append_of_eq_some (foldlM_itemOrEnd (hread _ hinner)), hrest _ _ _ hdepth]
      rfl

/-- The members after the first are read up to the end of the object. -/
theorem exists_members {depth : Nat} {members : List (String × Json)}
    (h : ∀ p ∈ members, Legible depth p.2) :
    ∃ ts, (∀ rest, tokens (printMembers members ('\x7d' :: rest)) =
        (tokens rest).map (ts ++ ·)) ∧
      ∀ frames before name v, frames.length + (depth + 1) ≤ maxDepth →
        ts.foldlM (ReaderState.step maxDepth) ⟨.next v, .members before name :: frames⟩ =
          some ⟨.next (.object (((name, v) :: before).reverse ++ members)), frames⟩ := by
  induction members with
  | nil =>
    refine ⟨[.closeObject], fun rest => tokens_cons_of_punctuation? rfl rfl rest, ?_⟩
    intro frames before name v _
    rw [List.append_nil]
    rfl
  | cons p members ih =>
    obtain ⟨key, w⟩ := p
    obtain ⟨⟨ts, htokens, hread⟩, hmembers⟩ := List.forall_mem_cons.mp h
    obtain ⟨more, hmore, hrest⟩ := ih hmembers
    refine ⟨.comma :: .text key :: .colon :: (ts ++ more), fun rest => ?_,
      fun frames before name v hdepth => ?_⟩
    · rw [printMembers, tokens_cons_of_punctuation? (t := .comma) rfl rfl, tokens_printString,
        tokens_cons_of_punctuation? (t := .colon) rfl rfl, htokens, hmore]
      simp [Function.comp_def]
    · have hnext : ∀ ts, List.foldlM (ReaderState.step maxDepth)
          ⟨.next v, .members before name :: frames⟩ (.comma :: .text key :: .colon :: ts) =
          ts.foldlM (ReaderState.step maxDepth)
            ⟨.value, .members ((name, v) :: before) key :: frames⟩ := fun _ => rfl
      have hinner : (Frame.members ((name, v) :: before) key :: frames).length + depth ≤
          maxDepth := by
        rw [List.length_cons]
        omega
      rw [hnext, foldlM_append_of_eq_some (hread _ hinner), hrest _ _ _ _ hdepth]
      simp

theorem legible_object {depth : Nat} {members : List (String × Json)}
    (h : ∀ p ∈ members, Legible depth p.2) : Legible (depth + 1) (.object members) := by
  cases members with
  | nil =>
    refine ⟨[.openObject, .closeObject], fun rest => ?_, fun frames hdepth => ?_⟩
    · rw [print, tokens_cons_of_punctuation? (t := .openObject) rfl rfl,
        tokens_cons_of_punctuation? (t := .closeObject) rfl rfl, Option.map_map]
      rfl
    · rw [foldlM_cons_of_step (step_openObject (by omega))]
      rfl
  | cons p members =>
    obtain ⟨key, v⟩ := p
    obtain ⟨⟨ts, htokens, hread⟩, hmembers⟩ := List.forall_mem_cons.mp h
    obtain ⟨more, hmore, hrest⟩ := exists_members hmembers
    refine ⟨.openObject :: .text key :: .colon :: (ts ++ more), fun rest => ?_,
      fun frames hdepth => ?_⟩
    · rw [print, tokens_cons_of_punctuation? (t := .openObject) rfl rfl, tokens_printString,
        tokens_cons_of_punctuation? (t := .colon) rfl rfl, htokens, hmore]
      simp [Function.comp_def]
    · have hnext : ∀ ts, List.foldlM (ReaderState.step maxDepth) ⟨.nameOrEnd, frames⟩
          (.text key :: .colon :: ts) =
          ts.foldlM (ReaderState.step maxDepth) ⟨.value, .members [] key :: frames⟩ :=
        fun _ => rfl
      have hinner : (Frame.members [] key :: frames).length + depth ≤ maxDepth := by
        rw [List.length_cons]
        omega
      rw [foldlM_cons_of_step (step_openObject (by omega)), hnext,
        foldlM_append_of_eq_some (hread _ hinner), hrest _ _ _ _ hdepth]
      rfl

/-- **A value that is legible is read from its text.** -/
theorem Legible.parse?_render {depth : Nat} {v : Json} (h : Legible depth v)
    (hdepth : depth ≤ maxDepth) : parse? (render v) = some (canonical v) := by
  obtain ⟨ts, htokens, hread⟩ := h
  have hts : tokens (print v []) = some ts := by
    rw [htokens, tokens]
    simp
  have hvalue : ofTokens? ts = some v := by
    unfold ofTokens? ofTokensWithin? ReaderState.start
    rw [hread [] (by simpa using hdepth)]
    rfl
  unfold parse? read? render
  rw [String.toList_ofList, hts, Option.bind_eq_bind, Option.bind_some, hvalue, Option.map_some]

/-- An array of canonical values is canonical. -/
theorem canonical_array {items : List Json} (h : ∀ v ∈ items, canonical v = v) :
    canonical (.array items) = .array items := by
  have hitems : canonicalItems items = items := by
    induction items with
    | nil => rfl
    | cons v items ih =>
      obtain ⟨hv, hitems⟩ := List.forall_mem_cons.mp h
      rw [canonicalItems, hv, ih hitems]
  rw [canonical, hitems]

end ModelRest.Json
