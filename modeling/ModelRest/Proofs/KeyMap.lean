import ModelRest.KeyMap
import Mathlib.Data.List.Perm.Basic
import Mathlib.Data.List.Nodup
import Mathlib.Data.List.Induction

/-!
# Maps made from pairs

What a map made from a list of pairs gives, when no name occurs twice among the pairs. The main
statement is that the order of the pairs does not matter then, `ofPairs_perm`. At the end, what each
operation does to a map as a list: one pair comes, changes or goes, and the others stay.
-/

namespace ModelRest.KeyMap

variable {α : Type}

theorem contains_insert (m : KeyMap α) (key other : String) (value : α) :
    contains (insert m key value) other = (key == other || contains m other) := by
  unfold contains
  rw [get?_insert]
  by_cases h : key = other <;> simp [h]

theorem mem_keys_iff {m : KeyMap α} {key : String} : key ∈ keys m ↔ contains m key = true := by
  induction m with
  | nil => simp [keys, contains]
  | cons p rest ih =>
    unfold keys contains at ih ⊢
    rw [List.map_cons, List.mem_cons, get?_cons, ih]
    by_cases h : p.1 = key
    · simp [h]
    · simp [h, Ne.symm h]

theorem mem_keys_union {m : KeyMap α} {pairs : List (String × α)} {key : String} :
    key ∈ keys (union m pairs) ↔ key ∈ pairs.map Prod.fst ∨ key ∈ keys m := by
  induction pairs generalizing m with
  | nil => simp [union]
  | cons p rest ih =>
    show key ∈ keys (union (insert m p.1 p.2) rest) ↔ _
    rw [ih, mem_keys_insert, List.map_cons, List.mem_cons, or_left_comm, or_assoc]

/-- The names of a map made from pairs are those of the pairs. -/
theorem mem_keys_ofPairs {pairs : List (String × α)} {key : String} :
    key ∈ keys (ofPairs pairs) ↔ key ∈ pairs.map Prod.fst :=
  mem_keys_union.trans (or_iff_left List.not_mem_nil)

/-- The names of a map in order are different. -/
theorem Sorted.nodup_keys {m : KeyMap α} (h : Sorted m) : (keys m).Nodup := by
  refine List.pairwise_map.mpr (h.imp ?_)
  intro p q hlt he
  rw [he] at hlt
  exact String.lt_irrefl q.1 hlt

/-- A name has what the pairs that come first say, or else the others. -/
theorem get?_append (m n : KeyMap α) (key : String) :
    get? (m ++ n) key = (get? m key).or (get? n key) := by
  induction m with
  | nil => rfl
  | cons p rest ih =>
    rw [List.cons_append, get?_cons, get?_cons, ih]
    split <;> rfl

theorem get?_filter (m : KeyMap α) (keep : String → Bool) (key : String) :
    get? (m.filter fun p => keep p.1) key = if keep key = true then get? m key else none := by
  induction m with
  | nil => exact (ite_self _).symm
  | cons p rest ih =>
    obtain ⟨k, v⟩ := p
    rw [List.filter_cons, get?_cons]
    dsimp only
    by_cases hk : k = key
    · subst hk
      cases hkeep : keep k with
      | true => rw [if_pos rfl, get?_cons, if_pos rfl, if_pos rfl, if_pos rfl]
      | false => simpa [hkeep] using ih
    · rw [if_neg hk, ← ih]
      split
      · rw [get?_cons, if_neg hk]
      · rfl

theorem get?_set (m : KeyMap α) (key other : String) (value : Option α) :
    get? (set m key value) other = if key = other then value else get? m other := by
  cases value with
  | some v => exact get?_insert m key other v
  | none => exact get?_erase m key other

theorem mem_of_mem_union {m : KeyMap α} {pairs : List (String × α)} {p : String × α}
    (h : p ∈ union m pairs) : p ∈ pairs ∨ p ∈ m := by
  induction pairs generalizing m with
  | nil => exact .inr h
  | cons q rest ih =>
    rcases ih h with h | h
    · exact .inl (List.mem_cons_of_mem _ h)
    · rcases mem_insert h with rfl | h
      · exact .inl (List.mem_cons_self ..)
      · exact .inr h

theorem mem_of_mem_ofPairs {pairs : List (String × α)} {p : String × α} (h : p ∈ ofPairs pairs) :
    p ∈ pairs := by
  rcases mem_of_mem_union h with h | h
  · exact h
  · cases h

/-- Of several values of one name the last counts. -/
theorem get?_union_eq (m : KeyMap α) (pairs : List (String × α)) (key : String) :
    get? (union m pairs) key =
      ((pairs.reverse.find? fun p => p.1 == key).map Prod.snd).or (get? m key) := by
  induction pairs using List.reverseRecOn with
  | nil => rfl
  | append_singleton pairs p ih =>
    have hlast : union m (pairs ++ [p]) = insert (union m pairs) p.1 p.2 := by
      simp [union]
    rw [hlast, get?_insert, ih, List.reverse_append, List.reverse_singleton, List.singleton_append]
    by_cases h : p.1 = key
    · rw [if_pos h, List.find?_cons_of_pos (by simpa using h)]
      rfl
    · rw [if_neg h, List.find?_cons_of_neg (by simpa using h)]

theorem get?_ofPairs (pairs : List (String × α)) (key : String) :
    get? (ofPairs pairs) key = (pairs.reverse.find? fun p => p.1 == key).map Prod.snd := by
  rw [ofPairs, get?_union_eq]
  exact Option.or_none

/-- What a name has is said by the last pair of the name. -/
theorem get?_ofPairs_eq_some_iff_append {pairs : List (String × α)} {key : String} {value : α} :
    get? (ofPairs pairs) key = some value ↔
      ∃ before after, pairs = before ++ (key, value) :: after ∧ ∀ p ∈ after, p.1 ≠ key := by
  rw [get?_ofPairs, Option.map_eq_some_iff]
  constructor
  · rintro ⟨⟨k, v⟩, hfind, rfl⟩
    obtain ⟨hk, after, before, hpairs, hafter⟩ := List.find?_eq_some_iff_append.mp hfind
    obtain rfl : k = key := by simpa using hk
    refine ⟨before.reverse, after.reverse, ?_, fun p hp => ?_⟩
    · rw [List.reverse_eq_iff.mp hpairs]
      simp
    · simpa using hafter p (List.mem_reverse.mp hp)
  · rintro ⟨before, after, rfl, hafter⟩
    refine ⟨(key, value), List.find?_eq_some_iff_append.mpr ⟨by simp, after.reverse,
      before.reverse, by simp, fun p hp => ?_⟩, rfl⟩
    simpa using hafter p (List.mem_reverse.mp hp)

/-- Of a map restricted to some names only those are left. -/
theorem get?_ofPairs_filterMap {m : KeyMap α} {names : List String} {key : String} {value : α} :
    get? (ofPairs (names.filterMap fun name => (get? m name).map (name, ·))) key = some value ↔
      key ∈ names ∧ get? m key = some value := by
  have hpairs : ∀ p : String × α, p ∈ names.filterMap (fun name => (get? m name).map (name, ·)) ↔
      p.1 ∈ names ∧ get? m p.1 = some p.2 := by
    rintro ⟨name, v⟩
    simp only [List.mem_filterMap, Option.map_eq_some_iff, Prod.mk.injEq]
    constructor
    · rintro ⟨name, hn, v, hv, rfl, rfl⟩
      exact ⟨hn, hv⟩
    · rintro ⟨hn, hv⟩
      exact ⟨name, hn, v, hv, rfl, rfl⟩
  rw [get?_ofPairs, Option.map_eq_some_iff]
  constructor
  · rintro ⟨p, hp, rfl⟩
    have hname : p.1 = key := by simpa using List.find?_some hp
    rw [← hname]
    exact (hpairs p).mp (List.mem_reverse.mp (List.mem_of_find?_eq_some hp))
  · intro hv
    have hmem := List.mem_reverse.mpr ((hpairs (key, value)).mpr hv)
    cases hfound : List.find? (fun p : String × α => p.1 == key) _ with
    | none => exact absurd (beq_self_eq_true key) (List.find?_eq_none.mp hfound _ hmem)
    | some p =>
      have hname : p.1 = key := by
        simpa using List.find?_some (p := fun q : String × α => q.1 == key) hfound
      obtain ⟨-, hvalue⟩ := (hpairs p).mp (List.mem_reverse.mp (List.mem_of_find?_eq_some hfound))
      rw [hname, hv.2] at hvalue
      exact ⟨p, rfl, (Option.some.inj hvalue).symm⟩

/-- The pairs come before the map they are put into. -/
theorem get?_union_eq_some_iff {pairs : List (String × α)} (hn : (pairs.map Prod.fst).Nodup)
    (m : KeyMap α) (key : String) (value : α) :
    get? (union m pairs) key = some value ↔
      (key, value) ∈ pairs ∨ key ∉ pairs.map Prod.fst ∧ get? m key = some value := by
  induction pairs generalizing m with
  | nil => simp [union]
  | cons p rest ih =>
    obtain ⟨k, v⟩ := p
    rw [List.map_cons, List.nodup_cons] at hn
    have := ih hn.2 (insert m k v)
    simp only [union, List.foldl_cons] at this ⊢
    rw [this, get?_insert]
    by_cases hk : k = key
    · subst hk
      have hmem : ∀ w, (k, w) ∉ rest := fun w hw => hn.1 (List.mem_map.mpr ⟨(k, w), hw, rfl⟩)
      simp only [if_true, Option.some.injEq, hn.1, not_false_eq_true, true_and, hmem, false_or,
        List.map_cons, List.mem_cons, not_true_eq_false, false_and, or_false,
        Prod.mk.injEq]
      exact eq_comm
    · simp [hk, Ne.symm hk]

/-- A map made from pairs of different names gives what the pairs say. -/
theorem get?_ofPairs_eq_some_iff {pairs : List (String × α)} (hn : (pairs.map Prod.fst).Nodup)
    (key : String) (value : α) :
    get? (ofPairs pairs) key = some value ↔ (key, value) ∈ pairs := by
  rw [ofPairs, get?_union_eq_some_iff hn]
  simp

/-- It gives what the pairs give as they stand. -/
theorem get?_ofPairs_of_nodup {pairs : List (String × α)} (hn : (pairs.map Prod.fst).Nodup)
    (key : String) : get? (ofPairs pairs) key = get? pairs key := by
  refine Option.ext fun value => ?_
  rw [get?_ofPairs_eq_some_iff hn]
  constructor
  · intro hmem
    have hkey : key ∈ keys pairs := List.mem_map.mpr ⟨_, hmem, rfl⟩
    obtain ⟨v, hv⟩ := Option.isSome_iff_exists.mp (mem_keys_iff.mp hkey)
    -- the name is in one pair only
    have hsame : (key, v) = (key, value) := List.inj_on_of_nodup_map hn (mem_of_get? hv) hmem rfl
    rw [hv, (Prod.mk.inj hsame).2]
  · exact mem_of_get?

/-- A map in order is made from its own pairs. -/
theorem Sorted.ofPairs_eq {m : KeyMap α} (h : Sorted m) : ofPairs m = m :=
  (sorted_ofPairs m).eq_of_get? h (get?_ofPairs_of_nodup h.nodup_keys)

/-- **The order of pairs of different names does not matter.** -/
theorem ofPairs_perm {pairs others : List (String × α)} (h : pairs.Perm others)
    (hn : (pairs.map Prod.fst).Nodup) : ofPairs pairs = ofPairs others := by
  refine (sorted_ofPairs pairs).eq_of_get? (sorted_ofPairs others) fun key => ?_
  refine Option.ext fun value => ?_
  rw [get?_ofPairs_eq_some_iff hn, get?_ofPairs_eq_some_iff ((h.map Prod.fst).nodup hn)]
  exact h.mem_iff

/-! ### Maps as lists -/

/-- A name has the value that it is listed with. -/
theorem Sorted.get?_eq_some_iff {m : KeyMap α} (h : Sorted m) {key : String} {value : α} :
    get? m key = some value ↔ (key, value) ∈ m := by
  refine ⟨mem_of_get?, fun hmem => ?_⟩
  induction m with
  | nil => cases hmem
  | cons p rest ih =>
    obtain ⟨hlt, hrest⟩ := List.pairwise_cons.mp h
    rw [get?_cons]
    rcases List.mem_cons.mp hmem with rfl | hmem
    · exact if_pos rfl
    · rw [if_neg fun he => ?_]
      · exact ih hrest hmem
      · have hself := hlt _ hmem
        rw [he] at hself
        exact String.lt_irrefl key hself

/-- A new name is listed besides those that were there. -/
theorem insert_perm {m : KeyMap α} {key : String} (h : contains m key = false) (value : α) :
    (insert m key value).Perm ((key, value) :: m) := by
  induction m with
  | nil => exact .refl _
  | cons p rest ih =>
    obtain ⟨k, v⟩ := p
    unfold contains at h ih
    rw [get?_cons] at h
    by_cases hk : k = key
    · simp [hk] at h
    · rw [if_neg hk] at h
      unfold insert
      rw [if_neg hk]
      split
      · exact .refl _
      · exact ((ih h).cons _).trans (.swap ..)

/-- A name that is there keeps its place. -/
theorem Sorted.insert_eq_map {m : KeyMap α} (h : Sorted m) {key : String}
    (hc : contains m key = true) (value : α) :
    KeyMap.insert m key value = m.map fun p => if p.1 = key then (key, value) else p := by
  induction m with
  | nil => simp [contains] at hc
  | cons p rest ih =>
    obtain ⟨hlt, hrest⟩ := List.pairwise_cons.mp h
    obtain ⟨k, v⟩ := p
    unfold contains at hc ih
    rw [get?_cons] at hc
    unfold KeyMap.insert
    rw [List.map_cons]
    by_cases hk : k = key
    · subst hk
      have hsame : rest.map (fun p => if p.1 = k then (k, value) else p) = rest := by
        conv_rhs => rw [← List.map_id rest]
        refine List.map_congr_left fun p hp => if_neg fun he => ?_
        have hself : k < p.1 := hlt p hp
        rw [he] at hself
        exact String.lt_irrefl k hself
      simp [hsame]
    · rw [if_neg hk] at hc
      obtain ⟨w, hw⟩ := Option.isSome_iff_exists.mp hc
      have hle : ¬key < k := fun hlt' =>
        String.lt_irrefl k (String.lt_trans (hlt _ (mem_of_get? hw)) hlt')
      rw [if_neg hk, if_neg hle, if_neg hk, ih hrest hc]

theorem erase_eq_filter (m : KeyMap α) (key : String) :
    erase m key = m.filter fun p => p.1 ≠ key := by
  induction m with
  | nil => rfl
  | cons p rest ih =>
    obtain ⟨k, v⟩ := p
    unfold erase
    by_cases hk : k = key
    · simp [hk, ih]
    · simp [hk, ih]

end ModelRest.KeyMap
