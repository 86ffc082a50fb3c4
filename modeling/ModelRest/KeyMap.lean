/-!
# Maps keyed by text

A map from names to values is a list of pairs kept in the code-point order of the names. Objects of
JSON values, the fields of a schema and the tables of names all are such maps. The main statements
say how looking a name up sees each operation, `get?_insert`, `get?_erase` and `get?_union`, and that
maps in order are known by what they give, `Sorted.eq_of_get?`.
-/

namespace ModelRest

/-- A map from names to values, as a list of pairs in the order of the names. -/
abbrev KeyMap (α : Type) := List (String × α)

namespace KeyMap

variable {α β : Type}

/-- The value kept under a name. -/
def get? : KeyMap α → String → Option α
  | [], _ => none
  | (k, v) :: rest, key => if k = key then some v else get? rest key

/-- Whether a name has a value. -/
def contains (m : KeyMap α) (key : String) : Bool := (get? m key).isSome

/-- Puts a value under a name, in place of the value the name had before. -/
def insert : KeyMap α → String → α → KeyMap α
  | [], key, value => [(key, value)]
  | (k, v) :: rest, key, value =>
    if k = key then (key, value) :: rest
    else if key < k then (key, value) :: (k, v) :: rest
    else (k, v) :: insert rest key value

/-- Removes a name and its value. -/
def erase : KeyMap α → String → KeyMap α
  | [], _ => []
  | (k, v) :: rest, key => if k = key then erase rest key else (k, v) :: erase rest key

/-- The names, in order. -/
def keys (m : KeyMap α) : List String := List.map Prod.fst m

/-- Puts every pair of a list into a map, from left to right: the last value of a name stays. -/
def union (m : KeyMap α) (pairs : List (String × α)) : KeyMap α :=
  pairs.foldl (fun m p => insert m p.1 p.2) m

/-- The map of a list of pairs; of several values of one name the last counts. -/
def ofPairs (pairs : List (String × α)) : KeyMap α := union [] pairs

/-- Replaces every value by a function of it. -/
def mapValues (f : α → β) (m : KeyMap α) : KeyMap β := List.map (fun p => (p.1, f p.2)) m

/-- Puts a value under a name, or removes the name when there is none. -/
def set (m : KeyMap α) (key : String) : Option α → KeyMap α
  | some value => insert m key value
  | none => erase m key

/-- The names are in strictly increasing order, so that no name occurs twice. -/
def Sorted (m : KeyMap α) : Prop := List.Pairwise (fun p q => p.1 < q.1) m

/-! ### Looking up -/

@[simp] theorem get?_nil (key : String) : get? ([] : KeyMap α) key = none := rfl

theorem get?_cons (k : String) (v : α) (rest : KeyMap α) (key : String) :
    get? ((k, v) :: rest) key = if k = key then some v else get? rest key := rfl

@[simp] theorem get?_insert_self (m : KeyMap α) (key : String) (value : α) :
    get? (insert m key value) key = some value := by
  induction m with
  | nil => simp [insert, get?]
  | cons p rest ih =>
    obtain ⟨k, v⟩ := p
    by_cases h : k = key
    · simp [insert, h, get?]
    · by_cases hlt : key < k
      · simp [insert, h, hlt, get?]
      · simp [insert, h, hlt, get?, ih]

theorem get?_insert_of_ne (m : KeyMap α) {key other : String} (value : α) (h : key ≠ other) :
    get? (insert m key value) other = get? m other := by
  induction m with
  | nil => simp [insert, get?, h]
  | cons p rest ih =>
    obtain ⟨k, v⟩ := p
    by_cases hk : k = key
    · subst hk
      simp [insert, get?, h]
    · by_cases hlt : key < k
      · simp [insert, hk, hlt, get?, h]
      · simp [insert, hk, hlt, get?, ih]

theorem get?_insert (m : KeyMap α) (key other : String) (value : α) :
    get? (insert m key value) other = if key = other then some value else get? m other := by
  by_cases h : key = other
  · subst h; simp
  · simp [h, get?_insert_of_ne m value h]

@[simp] theorem get?_erase_self (m : KeyMap α) (key : String) : get? (erase m key) key = none := by
  induction m with
  | nil => rfl
  | cons p rest ih =>
    obtain ⟨k, v⟩ := p
    by_cases h : k = key
    · simpa [erase, h] using ih
    · simpa [erase, h, get?] using ih

theorem get?_erase_of_ne (m : KeyMap α) {key other : String} (h : key ≠ other) :
    get? (erase m key) other = get? m other := by
  induction m with
  | nil => rfl
  | cons p rest ih =>
    obtain ⟨k, v⟩ := p
    by_cases hk : k = key
    · subst hk
      simp [erase, get?, h, ih]
    · simp [erase, hk, get?, ih]

theorem get?_erase (m : KeyMap α) (key other : String) :
    get? (erase m key) other = if key = other then none else get? m other := by
  by_cases h : key = other
  · subst h; simp
  · simp [h, get?_erase_of_ne m h]

theorem mem_of_get? {m : KeyMap α} {key : String} {value : α} (h : get? m key = some value) :
    (key, value) ∈ m := by
  induction m with
  | nil => simp at h
  | cons p rest ih =>
    obtain ⟨k, v⟩ := p
    by_cases hk : k = key
    · simp [get?, hk] at h
      simp [hk, h]
    · simp [get?, hk] at h
      exact List.mem_cons_of_mem _ (ih h)

/-! ### Order -/

/-- The names after an insertion: the new one and those that were there. -/
theorem mem_keys_insert (m : KeyMap α) (key other : String) (value : α) :
    other ∈ keys (insert m key value) ↔ other = key ∨ other ∈ keys m := by
  induction m with
  | nil => simp [insert, keys]
  | cons p rest ih =>
    obtain ⟨k, v⟩ := p
    simp only [keys] at ih ⊢
    by_cases hk : k = key
    · simp [insert, hk]
    · by_cases hlt : key < k
      · simp [insert, hk, hlt]
      · simp only [insert, hk, hlt, if_false, List.map_cons, List.mem_cons, ih]
        grind

theorem sorted_nil : Sorted ([] : KeyMap α) := List.Pairwise.nil

theorem mem_of_mem_erase {m : KeyMap α} {key : String} {p : String × α} (h : p ∈ erase m key) :
    p ∈ m := by
  induction m with
  | nil => simp [erase] at h
  | cons q rest ih =>
    obtain ⟨k, v⟩ := q
    by_cases hk : k = key
    · simp only [erase, hk, if_true] at h
      exact List.mem_cons_of_mem _ (ih h)
    · simp only [erase, hk, if_false, List.mem_cons] at h
      rcases h with rfl | h
      · exact List.mem_cons_self
      · exact List.mem_cons_of_mem _ (ih h)

theorem Sorted.erase {m : KeyMap α} (h : Sorted m) (key : String) : Sorted (KeyMap.erase m key) := by
  induction m with
  | nil => exact sorted_nil
  | cons p rest ih =>
    obtain ⟨k, v⟩ := p
    obtain ⟨hd, tl⟩ := List.pairwise_cons.mp h
    by_cases hk : k = key
    · simpa [KeyMap.erase, hk] using ih tl
    · simp only [KeyMap.erase, hk, if_false]
      exact List.pairwise_cons.mpr ⟨fun q hq => hd q (mem_of_mem_erase hq), ih tl⟩

theorem mem_insert {m : KeyMap α} {key : String} {value : α} {p : String × α}
    (h : p ∈ insert m key value) : p = (key, value) ∨ p ∈ m := by
  induction m with
  | nil => simpa [insert] using h
  | cons q rest ih =>
    obtain ⟨k, v⟩ := q
    by_cases hk : k = key
    · simp only [insert, hk, if_true, List.mem_cons] at h
      exact h.imp_right (List.mem_cons_of_mem _)
    · by_cases hlt : key < k
      · simpa [insert, hk, hlt] using h
      · simp only [insert, hk, hlt, if_false, List.mem_cons] at h ⊢
        rcases h with h | h
        · exact .inr (.inl h)
        · exact (ih h).imp_right .inr

theorem Sorted.insert {m : KeyMap α} (h : Sorted m) (key : String) (value : α) :
    Sorted (KeyMap.insert m key value) := by
  induction m with
  | nil => exact List.pairwise_singleton _ _
  | cons p rest ih =>
    obtain ⟨k, v⟩ := p
    obtain ⟨hd, tl⟩ := List.pairwise_cons.mp h
    by_cases hk : k = key
    · subst hk
      simp only [KeyMap.insert, if_true]
      exact List.pairwise_cons.mpr ⟨hd, tl⟩
    · by_cases hlt : key < k
      · simp only [KeyMap.insert, hk, hlt, if_false, if_true]
        refine List.pairwise_cons.mpr ⟨fun q hq => ?_, h⟩
        rcases List.mem_cons.mp hq with rfl | hq
        · exact hlt
        · exact String.lt_trans hlt (hd q hq)
      · simp only [KeyMap.insert, hk, hlt, if_false]
        refine List.pairwise_cons.mpr ⟨fun q hq => ?_, ih tl⟩
        rcases mem_insert hq with rfl | hq
        · exact Std.lt_of_le_of_ne (String.not_lt.mp hlt) hk
        · exact hd q hq

theorem Sorted.union {m : KeyMap α} (h : Sorted m) (pairs : List (String × α)) :
    Sorted (KeyMap.union m pairs) := by
  induction pairs generalizing m with
  | nil => exact h
  | cons p rest ih => exact ih (h.insert p.1 p.2)

theorem sorted_ofPairs (pairs : List (String × α)) : Sorted (ofPairs pairs) :=
  sorted_nil.union pairs

/-! ### Maps in order -/

/-- A name before all names of a map has no value. -/
theorem get?_eq_none_of_lt {m : KeyMap α} {key : String} (h : ∀ p ∈ m, key < p.1) :
    get? m key = none := by
  induction m with
  | nil => rfl
  | cons p rest ih =>
    obtain ⟨k, v⟩ := p
    have hk : k ≠ key := fun e => String.lt_irrefl key (by simpa [e] using h (k, v) (by simp))
    simpa [get?, hk] using ih fun q hq => h q (List.mem_cons_of_mem _ hq)

/-- Putting the pairs of a map over another map: the later values go before the earlier ones. -/
theorem get?_union (m : KeyMap α) {later : KeyMap α} (h : Sorted later) (key : String) :
    get? (union m later) key = (get? later key).or (get? m key) := by
  induction later generalizing m with
  | nil => simp [union]
  | cons p rest ih =>
    obtain ⟨k, v⟩ := p
    obtain ⟨hd, tl⟩ := List.pairwise_cons.mp h
    have := ih (insert m k v) tl
    simp only [union, List.foldl_cons] at this ⊢
    rw [this, get?_insert, get?_cons]
    by_cases hk : k = key
    · subst hk
      simp [get?_eq_none_of_lt hd]
    · simp [hk]

/-- **Extensionality**: maps in order that give every name the same value are the same. -/
theorem Sorted.eq_of_get? {m n : KeyMap α} (hm : Sorted m) (hn : Sorted n)
    (h : ∀ key, get? m key = get? n key) : m = n := by
  induction m generalizing n with
  | nil =>
    cases n with
    | nil => rfl
    | cons q rest =>
      obtain ⟨l, w⟩ := q
      simpa [get?] using h l
  | cons p rest ih =>
    obtain ⟨k, v⟩ := p
    obtain ⟨hd, tl⟩ := List.pairwise_cons.mp hm
    cases n with
    | nil => simpa [get?] using h k
    | cons q others =>
      obtain ⟨l, w⟩ := q
      obtain ⟨hd', tl'⟩ := List.pairwise_cons.mp hn
      have hkl : k = l := by
        by_cases hlt : k < l
        · have hnone : get? ((l, w) :: others) k = none :=
            get?_eq_none_of_lt fun q hq => by
              rcases List.mem_cons.mp hq with rfl | hq
              · exact hlt
              · exact String.lt_trans hlt (hd' q hq)
          have := h k
          rw [hnone] at this
          simp [get?] at this
        · by_cases hgt : l < k
          · have hnone : get? ((k, v) :: rest) l = none :=
              get?_eq_none_of_lt fun q hq => by
                rcases List.mem_cons.mp hq with rfl | hq
                · exact hgt
                · exact String.lt_trans hgt (hd q hq)
            have := h l
            rw [hnone] at this
            simp [get?] at this
          · exact String.le_antisymm (String.not_lt.mp hgt) (String.not_lt.mp hlt)
      subst hkl
      have hvw : v = w := by simpa [get?] using h k
      subst hvw
      congr 1
      refine ih tl tl' fun key => ?_
      by_cases hk : k = key
      · subst hk
        rw [get?_eq_none_of_lt hd, get?_eq_none_of_lt hd']
      · simpa [get?, hk] using h key

end KeyMap

end ModelRest
