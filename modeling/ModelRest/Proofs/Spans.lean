import Mathlib.Data.List.DropRight
import ModelRest.Text.Span

/-!
# Cut and trimmed texts

A text that is put together from pieces is cut into these pieces again (`splitAll_join`), and a text
with blank space around it is trimmed to what it was (`trimBy_append`). What does not change when a
character is taken off at an end does not change by trimming (`trimBy_preserves`); so it does not
matter whether a list is trimmed before it is cut into its items (`items_trim`).
-/

namespace ModelRest.Text

variable {sep : Char} {p : Char → Bool} {cs before after : List Char}

/-! ### Cutting -/

/-- A text that is made of two with the character between them is cut there. -/
theorem splitAll_append (before after : List Char) :
    splitAll sep (before ++ sep :: after) = splitAll sep before ++ splitAll sep after := by
  induction before with
  | nil => simp [splitAll]
  | cons c before ih =>
    by_cases hc : c = sep
    · simp [splitAll, hc, ih]
    · cases hs : splitAll sep before with
      | nil => exact absurd hs (splitAll_ne_nil sep before)
      | cons piece pieces => simp [splitAll, hc, ih, hs]

theorem join_append {pieces more : List (List Char)} (hp : pieces ≠ []) (hm : more ≠ []) :
    join sep (pieces ++ more) = join sep pieces ++ sep :: join sep more := by
  induction pieces with
  | nil => exact absurd rfl hp
  | cons piece pieces ih =>
    cases pieces with
    | nil =>
      cases more with
      | nil => exact absurd rfl hm
      | cons first more => rfl
    | cons next pieces =>
      have hrest := ih (by simp)
      simp only [List.cons_append] at hrest ⊢
      simp [join, hrest]

theorem splitAll_of_not_mem (h : sep ∉ cs) : splitAll sep cs = [cs] := by
  induction cs with
  | nil => rfl
  | cons c cs ih =>
    obtain ⟨hc, hcs⟩ := not_or.mp (mt List.mem_cons.mpr h)
    simp [splitAll, Ne.symm hc, ih hcs]

/-- Pieces without the character are found again between its occurrences. -/
theorem splitAll_join {pieces : List (List Char)} (hne : pieces ≠ [])
    (h : ∀ piece ∈ pieces, sep ∉ piece) : splitAll sep (join sep pieces) = pieces := by
  induction pieces with
  | nil => exact absurd rfl hne
  | cons piece pieces ih =>
    obtain ⟨hpiece, hrest⟩ := List.forall_mem_cons.mp h
    cases pieces with
    | nil => exact splitAll_of_not_mem hpiece
    | cons next pieces =>
      have hjoin : join sep (piece :: next :: pieces) = piece ++ sep :: join sep (next :: pieces) :=
        rfl
      rw [hjoin, splitAll_append, splitAll_of_not_mem hpiece, ih (by simp) hrest,
        List.singleton_append]

/-- The character is in none of the pieces between its occurrences. -/
theorem not_mem_of_mem_splitAll {piece : List Char} (h : piece ∈ splitAll sep cs) : sep ∉ piece := by
  induction cs generalizing piece with
  | nil =>
    rw [List.mem_singleton.mp h]
    exact List.not_mem_nil
  | cons c cs ih =>
    by_cases hc : c = sep
    · rw [splitAll, if_pos hc] at h
      rcases List.mem_cons.mp h with rfl | h
      · exact List.not_mem_nil
      · exact ih h
    · cases hs : splitAll sep cs with
      | nil => exact absurd hs (splitAll_ne_nil sep cs)
      | cons first pieces =>
        rw [hs] at ih
        rw [splitAll, if_neg hc, hs] at h
        rcases List.mem_cons.mp h with rfl | h
        · exact fun hmem => (List.mem_cons.mp hmem).elim (Ne.symm hc) (ih (List.mem_cons_self ..))
        · exact ih (List.mem_cons_of_mem _ h)

/-- One more character at the end is one more at the end of the last piece. -/
theorem exists_splitAll_concat {c : Char} (hc : c ≠ sep) (cs : List Char) :
    ∃ first last, splitAll sep cs = first ++ [last] ∧
      splitAll sep (cs ++ [c]) = first ++ [last ++ [c]] := by
  induction cs with
  | nil => exact ⟨[], [], rfl, by simp [splitAll, hc]⟩
  | cons d cs ih =>
    obtain ⟨first, last, hcs, hconcat⟩ := ih
    by_cases hd : d = sep
    · exact ⟨[] :: first, last, by simp [splitAll, hd, hcs], by simp [splitAll, hd, hconcat]⟩
    · cases first with
      | nil => exact ⟨[], d :: last, by simp [splitAll, hd, hcs], by simp [splitAll, hd, hconcat]⟩
      | cons piece first =>
        exact ⟨(d :: piece) :: first, last, by simp [splitAll, hd, hcs],
          by simp [splitAll, hd, hconcat]⟩

theorem splitFirst?_append (h : sep ∉ before) :
    splitFirst? sep (before ++ sep :: after) = some (before, after) := by
  induction before with
  | nil => simp [splitFirst?]
  | cons c before ih =>
    obtain ⟨hc, hbefore⟩ := not_or.mp (mt List.mem_cons.mpr h)
    simp [splitFirst?, Ne.symm hc, ih hbefore]

theorem splitFirst?_of_not_mem (h : sep ∉ cs) : splitFirst? sep cs = none := by
  induction cs with
  | nil => rfl
  | cons c cs ih =>
    obtain ⟨hc, hcs⟩ := not_or.mp (mt List.mem_cons.mpr h)
    simp [splitFirst?, Ne.symm hc, ih hcs]

/-! ### Trimming -/

theorem dropEndWhile_concat (cs : List Char) (c : Char) :
    dropEndWhile p (cs ++ [c]) = if p c then dropEndWhile p cs else cs ++ [c] :=
  List.rdropWhile_concat ..

/-- The text neither begins nor ends with a character of the class. -/
def Trimmed (p : Char → Bool) (cs : List Char) : Prop :=
  (∀ c, cs.head? = some c → p c = false) ∧ ∀ c, cs.getLast? = some c → p c = false

theorem dropEndWhile_of_getLast? (h : ∀ c, cs.getLast? = some c → p c = false) :
    dropEndWhile p cs = cs := by
  rcases List.eq_nil_or_concat cs with rfl | ⟨first, last, rfl⟩
  · rfl
  · rw [List.concat_eq_append] at h ⊢
    rw [dropEndWhile_concat, h last (by simp)]
    rfl

theorem dropWhile_of_head? (h : ∀ c, cs.head? = some c → p c = false) : cs.dropWhile p = cs := by
  cases cs with
  | nil => rfl
  | cons c cs => rw [List.dropWhile_cons, h c rfl, if_neg Bool.false_ne_true]

theorem Trimmed.trimBy_eq (h : Trimmed p cs) : trimBy p cs = cs := by
  rw [trimBy, dropWhile_of_head? h.1, dropEndWhile_of_getLast? h.2]

/-- A trimmed text begins like the text without the characters of the class at its beginning. -/
theorem head?_dropWhile_of_trimBy {c : Char} (h : (trimBy p cs).head? = some c) :
    (cs.dropWhile p).head? = some c := by
  obtain ⟨rest, hrest⟩ : trimBy p cs <+: cs.dropWhile p := List.rdropWhile_prefix ..
  rw [← hrest, List.head?_append, h]
  rfl

theorem not_of_head?_trimBy {c : Char} (h : (trimBy p cs).head? = some c) : p c = false := by
  have hhead := List.head?_dropWhile_not p cs
  rwa [head?_dropWhile_of_trimBy h] at hhead

/-- What stays true when a character is taken off at an end stays true by trimming. -/
theorem trimBy_preserves {holds : List Char → Prop}
    (hcons : ∀ c cs, p c = true → holds (c :: cs) → holds cs)
    (hconcat : ∀ c cs, p c = true → holds (cs ++ [c]) → holds cs) (h : holds cs) :
    holds (trimBy p cs) := by
  have hstart : ∀ cs, holds cs → holds (cs.dropWhile p) := by
    intro cs h
    induction cs with
    | nil => exact h
    | cons c cs ih =>
      rw [List.dropWhile_cons]
      split
      · rename_i hc
        exact ih (hcons c cs hc h)
      · exact h
  have hend : ∀ cs, holds cs → holds (dropEndWhile p cs) := by
    intro cs h
    induction cs using List.reverseRecOn with
    | nil => exact h
    | append_singleton cs c ih =>
      rw [dropEndWhile_concat]
      split
      · rename_i hc
        exact ih (hconcat c cs hc h)
      · exact h
  exact hend _ (hstart cs h)

theorem trimBy_cons {c : Char} (hc : p c = true) (cs : List Char) :
    trimBy p (c :: cs) = trimBy p cs := by
  rw [trimBy, List.dropWhile_cons, if_pos hc, trimBy]

theorem trimBy_concat {c : Char} (hc : p c = true) (cs : List Char) :
    trimBy p (cs ++ [c]) = trimBy p cs := by
  unfold trimBy
  rw [List.dropWhile_append]
  cases hcs : cs.dropWhile p with
  | nil => simp [hc]
  | cons d ds =>
    rw [List.isEmpty_cons, if_neg Bool.false_ne_true, dropEndWhile_concat, if_pos hc]

/-- A text with characters of the class around it is trimmed to what it was. -/
theorem trimBy_append (hbefore : ∀ c ∈ before, p c = true) (hafter : ∀ c ∈ after, p c = true)
    (h : Trimmed p cs) : trimBy p (before ++ cs ++ after) = cs := by
  induction after using List.reverseRecOn with
  | nil =>
    induction before with
    | nil => rw [List.nil_append, List.append_nil, h.trimBy_eq]
    | cons c before ih =>
      obtain ⟨hc, hbefore⟩ := List.forall_mem_cons.mp hbefore
      rw [List.cons_append, List.cons_append, trimBy_cons hc, ih hbefore]
  | append_singleton after c ih =>
    rw [List.forall_mem_append] at hafter
    rw [← List.append_assoc, trimBy_concat (hafter.2 c (by simp)), ih hafter.1]

/-! ### Items -/

/-- The items of a list: the pieces between the separators, trimmed, but for the empty ones. -/
def items (sep : Char) (text : List Char) : List (List Char) :=
  ((splitAll sep text).map trim).filter (!·.isEmpty)

variable {c : Char}

theorem items_cons (hc : isBlank c = true) (hne : c ≠ sep) (cs : List Char) :
    items sep (c :: cs) = items sep cs := by
  cases hs : splitAll sep cs with
  | nil => exact absurd hs (splitAll_ne_nil sep cs)
  | cons piece pieces =>
    have hcons : splitAll sep (c :: cs) = (c :: piece) :: pieces := by simp [splitAll, hne, hs]
    have htrim : trim (c :: piece) = trim piece := trimBy_cons hc piece
    rw [items, items, hcons, hs, List.map_cons, List.map_cons, htrim]

theorem items_concat (hc : isBlank c = true) (hne : c ≠ sep) (cs : List Char) :
    items sep (cs ++ [c]) = items sep cs := by
  obtain ⟨first, last, hcs, hconcat⟩ := exists_splitAll_concat hne cs
  have htrim : trim (last ++ [c]) = trim last := trimBy_concat hc last
  rw [items, items, hconcat, hcs, List.map_append, List.map_append, List.map_singleton,
    List.map_singleton, htrim]

/-- It does not matter whether a list is trimmed before it is cut. -/
theorem items_trim (hsep : isBlank sep = false) (cs : List Char) :
    items sep (trim cs) = items sep cs := by
  have hne : ∀ c, isBlank c = true → c ≠ sep := by
    rintro c hc rfl
    rw [hsep] at hc
    cases hc
  have hcons : ∀ c text, isBlank c = true →
      items sep (c :: text) = items sep cs → items sep text = items sep cs :=
    fun c text hc h => (items_cons hc (hne c hc) text).symm.trans h
  have hconcat : ∀ c text, isBlank c = true →
      items sep (text ++ [c]) = items sep cs → items sep text = items sep cs :=
    fun c text hc h => (items_concat hc (hne c hc) text).symm.trans h
  exact @trimBy_preserves isBlank cs (fun text => items sep text = items sep cs) hcons hconcat rfl

end ModelRest.Text
