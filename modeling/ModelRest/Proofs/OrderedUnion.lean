import ModelRest.Proofs.NormalForm

/-!
# Ordered unions of items

A reference to several records keeps its items in an order, and items that are added to it come
after those that it has, unless an equal one is among them. Equality of values is an equivalence
(`Json.same_trans`) that keeps the size of a value and whether it is populated, so adding items one
by one makes the union (`Reference.append_eq_union`). They are added to the items of an array,
though, and not to a value that stands alone, and a null that is given alone is added as well;
`Reference.map_append_eq_union_iff` says when the union of all identifiers comes out nevertheless,
also after the items are simplified once more.
-/

namespace ModelRest

/-! ### Equal values -/

theorem Double.same_trans {a b c : Double} (h : a.same b = true) (h' : b.same c = true) :
    a.same c = true := by
  unfold same at *
  grind

theorem Number.same_refl (a : Number) : a.same a = true := by
  cases a <;> simp [same, Double.same]

theorem Number.same_trans {a b c : Number} (h : a.same b = true) (h' : b.same c = true) :
    a.same c = true := by
  cases a with
  | double a =>
    cases b with
    | double b =>
      cases c with
      | double c => exact Double.same_trans h h'
      | _ => cases h'
    | _ => cases h
  | natural a | negative a => cases b <;> cases c <;> simp_all [same]

namespace Json

mutual

/-- How many values a value is made of. -/
def size : Json → Nat
  | .array items => sizeItems items + 1
  | .object members => sizeMembers members + 1
  | .null | .bool _ | .number _ | .string _ => 1

/-- How many values the items are made of. -/
def sizeItems : List Json → Nat
  | [] => 0
  | v :: rest => size v + sizeItems rest

/-- How many values the members are made of. -/
def sizeMembers : List (String × Json) → Nat
  | [] => 0
  | (_, v) :: rest => size v + sizeMembers rest

end

mutual

theorem same_refl : ∀ a : Json, same a a = true
  | .null => rfl
  | .bool a => by simp [same]
  | .number a => a.same_refl
  | .string a => by simp [same]
  | .array as => sameItems_refl as
  | .object as => sameMembers_refl as

theorem sameItems_refl : ∀ as : List Json, sameItems as as = true
  | [] => rfl
  | a :: as => by simp [sameItems, same_refl a, sameItems_refl as]

theorem sameMembers_refl : ∀ as : List (String × Json), sameMembers as as = true
  | [] => rfl
  | (k, a) :: as => by simp [sameMembers, same_refl a, sameMembers_refl as]

end

mutual

theorem same_trans : ∀ {a b c : Json}, same a b = true → same b c = true → same a c = true
  | .null, b, c, h, h' => by
    rw [same_null_iff.mp h] at h'
    exact h'
  | .bool a, b, c, h, h' => by
    cases b <;> cases c <;> simp_all [same]
  | .number a, b, c, h, h' => by
    cases b with
    | number b =>
      cases c with
      | number c => exact Number.same_trans h h'
      | _ => cases h'
    | _ => cases h
  | .string a, b, c, h, h' => by
    cases b <;> cases c <;> simp_all [same]
  | .array as, b, c, h, h' => by
    cases b with
    | array bs =>
      cases c with
      | array cs => exact sameItems_trans h h'
      | _ => cases h'
    | _ => cases h
  | .object as, b, c, h, h' => by
    cases b with
    | object bs =>
      cases c with
      | object cs => exact sameMembers_trans h h'
      | _ => cases h'
    | _ => cases h

theorem sameItems_trans : ∀ {as bs cs : List Json}, sameItems as bs = true →
    sameItems bs cs = true → sameItems as cs = true
  | [], [], _, _, h' => h'
  | a :: as, b :: bs, c :: cs, h, h' => by
    simp only [sameItems, Bool.and_eq_true] at h h' ⊢
    exact ⟨same_trans h.1 h'.1, sameItems_trans h.2 h'.2⟩

theorem sameMembers_trans : ∀ {as bs cs : List (String × Json)}, sameMembers as bs = true →
    sameMembers bs cs = true → sameMembers as cs = true
  | [], [], _, _, h' => h'
  | (k, a) :: as, (l, b) :: bs, (m, c) :: cs, h, h' => by
    simp only [sameMembers, Bool.and_eq_true, beq_iff_eq] at h h' ⊢
    exact ⟨⟨h.1.1.trans h'.1.1, same_trans h.1.2 h'.1.2⟩, sameMembers_trans h.2 h'.2⟩

end

mutual

theorem size_eq_of_same : ∀ {a b : Json}, same a b = true → size a = size b
  | .null, b, h => by rw [same_null_iff.mp h]
  | .bool _, b, h => by cases b <;> first | cases h | rfl
  | .number _, b, h => by cases b <;> first | cases h | rfl
  | .string _, b, h => by cases b <;> first | cases h | rfl
  | .array as, b, h => by
    cases b with
    | array bs => rw [size, size, sizeItems_eq_of_same h]
    | _ => cases h
  | .object as, b, h => by
    cases b with
    | object bs => rw [size, size, sizeMembers_eq_of_same h]
    | _ => cases h

theorem sizeItems_eq_of_same : ∀ {as bs : List Json}, sameItems as bs = true →
    sizeItems as = sizeItems bs
  | [], [], _ => rfl
  | a :: as, b :: bs, h => by
    simp only [sameItems, Bool.and_eq_true] at h
    rw [sizeItems, sizeItems, size_eq_of_same h.1, sizeItems_eq_of_same h.2]

theorem sizeMembers_eq_of_same : ∀ {as bs : List (String × Json)}, sameMembers as bs = true →
    sizeMembers as = sizeMembers bs
  | [], [], _ => rfl
  | (k, a) :: as, (l, b) :: bs, h => by
    simp only [sameMembers, Bool.and_eq_true] at h
    rw [sizeMembers, sizeMembers, size_eq_of_same h.1.2, sizeMembers_eq_of_same h.2]

end

/-- Members of one name are equal, in equal objects. -/
theorem sameOption_get? : ∀ {as bs : List (String × Json)}, sameMembers as bs = true →
    ∀ name, sameOption (KeyMap.get? as name) (KeyMap.get? bs name) = true
  | [], [], _, _ => rfl
  | (k, a) :: as, (l, b) :: bs, h, name => by
    simp only [sameMembers, Bool.and_eq_true, beq_iff_eq] at h
    obtain ⟨⟨rfl, hab⟩, hrest⟩ := h
    rw [KeyMap.get?_cons, KeyMap.get?_cons]
    split
    · exact hab
    · exact sameOption_get? hrest name

theorem size_pos (v : Json) : 0 < v.size := by
  cases v <;> simp [size]

/-- A member is smaller than its object. -/
theorem size_lt_of_member? {v w : Json} {name : String} (h : v.member? name = some w) :
    size w < size v := by
  cases v with
  | object members =>
    have hmem : (name, w) ∈ members := KeyMap.mem_of_get? h
    have hle : size w ≤ sizeMembers members := by
      clear h
      induction members with
      | nil => cases hmem
      | cons p rest ih =>
        obtain ⟨k, v⟩ := p
        rw [sizeMembers]
        rcases List.mem_cons.mp hmem with heq | hmem
        · cases heq
          omega
        · have := ih hmem
          omega
    rw [size]
    omega
  | null | bool | number | string | array => cases h

end Json

namespace Reference

/-- Equal values are populated alike. -/
theorem IsPopulated.of_same {v w : Json} (hsame : Json.same v w = true) (h : IsPopulated v) :
    IsPopulated w := by
  obtain ⟨id, hid, hnull⟩ := h
  cases v with
  | object as =>
    cases w with
    | object bs =>
      have hopt := Json.sameOption_get? hsame idField
      rw [show KeyMap.get? as idField = some id from hid] at hopt
      cases hget : KeyMap.get? bs idField with
      | none =>
        rw [hget] at hopt
        cases hopt
      | some id' =>
        rw [hget] at hopt
        refine ⟨id', hget, fun hnull' => hnull ?_⟩
        rw [hnull', Json.sameOption, Json.same_comm] at hopt
        exact Json.same_null_iff.mp hopt
    | _ => cases hsame
  | null | bool | number | string | array => cases hid

/-- Simplifying a value makes it smaller, unless it leaves it as it is. -/
theorem size_simplifyOne (v : Json) : simplifyOne v = v ∨ (simplifyOne v).size < v.size := by
  by_cases h : IsPopulated v
  · obtain ⟨id, hid, hnull⟩ := h
    have hsimple : simplifyOne v = id := by
      unfold simplifyOne
      rw [hid]
      cases id <;> first | rfl | exact absurd rfl hnull
    rw [hsimple]
    exact .inr (Json.size_lt_of_member? hid)
  · exact .inl (simplifyOne_eq_self_iff.mpr h)

/-! ### Adding items -/

/-- A value equal to this one is among the items. -/
def holds (items : List Json) (v : Json) : Bool := items.any (Json.same v)

/-- The items without those that come again. -/
def firsts : List Json → List Json
  | [] => []
  | v :: rest => v :: (firsts rest).filter fun w => !Json.same v w

/-- The items, and then those of more items that do not occur before, each once and in their
order. -/
def union (items more : List Json) : List Json := items ++ (firsts more).filter (!holds items ·)

/-- The identifiers that a value stands for: the items of an array, or the value alone unless it is
null. -/
def identifiers : Option Json → List Json
  | none => []
  | some .null => []
  | some (.array items) => items
  | some v => [v]

theorem holds_null_iff {items : List Json} : holds items .null = true ↔ .null ∈ items := by
  unfold holds
  simp only [List.any_eq_true, Json.same_null_iff]
  exact ⟨fun ⟨_, hmem, he⟩ => he ▸ hmem, fun hmem => ⟨_, hmem, rfl⟩⟩

theorem append_cons (items more : List Json) (v : Json) : append items (v :: more) =
    append (if holds items v then items else items ++ [v]) more := rfl

/-- Whether a value is among the items does not depend on which of several equal values it is. -/
theorem holds_eq_of_same (items : List Json) {v w : Json} (h : Json.same v w = true) :
    holds items v = holds items w := by
  have h' : Json.same w v = true := by rwa [Json.same_comm]
  unfold holds
  congr 1
  funext u
  exact Bool.eq_iff_iff.mpr ⟨Json.same_trans h', Json.same_trans h⟩

theorem holds_append (items more : List Json) (v : Json) :
    holds (items ++ more) v = (holds items v || holds more v) := List.any_append

/-- **Adding items one by one** makes the union. -/
theorem append_eq_union (items more : List Json) : append items more = union items more := by
  induction more generalizing items with
  | nil => exact (List.append_nil items).symm
  | cons v rest ih =>
    rw [append_cons, ih]
    unfold union
    rw [firsts, List.filter_cons, List.filter_filter]
    cases hv : holds items v with
    | true =>
      -- what equals the value is among the items as well
      have hsame : ∀ w, (!holds items w && !Json.same v w) = !holds items w := by
        intro w
        cases hw : Json.same v w with
        | true => rw [← holds_eq_of_same items hw, hv, Bool.not_true, Bool.false_and]
        | false => rw [Bool.not_false, Bool.and_true]
      simp [hsame]
    | false =>
      have hsame : ∀ w, (!holds (items ++ [v]) w) = (!holds items w && !Json.same v w) := by
        intro w
        rw [holds_append, Bool.not_or, Json.same_comm v w]
        simp [holds]
      simp [hsame]

/-- A value that is there, or is added, is among the items afterwards. -/
theorem holds_append_of_mem {items more : List Json} {v : Json} (h : v ∈ items ∨ v ∈ more) :
    holds (append items more) v = true := by
  rcases h with h | h
  · have hmem := (prefix_append items more).subset h
    exact List.any_eq_true.mpr ⟨v, hmem, Json.same_refl v⟩
  · induction more generalizing items with
    | nil => cases h
    | cons w rest ih =>
      rw [append_cons]
      rcases List.mem_cons.mp h with rfl | h
      · -- an equal value is among the items before the rest is added
        have hthere : holds (if holds items v then items else items ++ [v]) v = true := by
          cases hv : holds items v with
          | true => exact hv
          | false => simp [holds, Json.same_refl]
        obtain ⟨w, hw, hsame⟩ := List.any_eq_true.mp hthere
        exact List.any_eq_true.mpr ⟨w, (prefix_append _ rest).subset hw, hsame⟩
      · exact ih h

/-- Nothing is added exactly if every item is among those that are there. -/
theorem append_eq_self_iff {items more : List Json} :
    append items more = items ↔ ∀ v ∈ more, holds items v = true := by
  induction more with
  | nil => simp [append]
  | cons v rest ih =>
    rw [append_cons, List.forall_mem_cons]
    cases hv : holds items v with
    | true => simpa using ih
    | false =>
      have hlonger : append (items ++ [v]) rest ≠ items := by
        intro he
        have hle := (prefix_append (items ++ [v]) rest).length_le
        rw [he, List.length_append, List.length_singleton] at hle
        omega
      simpa using hlonger

/-! ### Items that are simplified afterwards -/

section

variable {change : Json → Json} {items : List Json}

/-- Items that become smaller or stay, and are as large together as before, have all stayed. -/
theorem forall_eq_of_sizeItems_le (hc : ∀ v, change v = v ∨ (change v).size < v.size)
    (h : Json.sizeItems items ≤ Json.sizeItems (items.map change)) :
    ∀ w ∈ items, change w = w := by
  have hle : ∀ items, Json.sizeItems (items.map change) ≤ Json.sizeItems items := by
    intro items
    induction items with
    | nil => exact Nat.le_refl _
    | cons v rest ih =>
      rw [List.map_cons, Json.sizeItems, Json.sizeItems]
      rcases hc v with hv | hv
      · rw [hv]
        omega
      · omega
  induction items with
  | nil => nofun
  | cons v rest ih =>
    have hrest := hle rest
    rw [List.map_cons, Json.sizeItems, Json.sizeItems] at h
    rcases hc v with hv | hv
    · rw [hv] at h
      exact List.forall_mem_cons.mpr ⟨hv, ih (by omega)⟩
    · omega

theorem sizeItems_filter (keep : Json → Bool) (items : List Json) : Json.sizeItems items =
    Json.sizeItems (items.filter keep) + Json.sizeItems (items.filter (!keep ·)) := by
  induction items with
  | nil => rfl
  | cons v rest ih => cases hv : keep v <;> simp [hv, Json.sizeItems, ih] <;> omega

/-- If one value has come to the front in place of those equal to it, every item has stayed. -/
theorem forall_eq_of_map_eq_cons (hc : ∀ v, change v = v ∨ (change v).size < v.size) {v : Json}
    (h : items.map change = v :: items.filter (!Json.same v ·)) : ∀ w ∈ items, change w = w := by
  have hsplit := sizeItems_filter (Json.same v) items
  have hlength : (items.filter (Json.same v)).length = 1 := by
    have hall := congrArg List.length h
    have hparts := List.length_eq_length_filter_add (l := items) (Json.same v)
    rw [List.length_map, List.length_cons] at hall
    omega
  obtain ⟨u, hu⟩ := List.length_eq_one_iff.mp hlength
  have hsame : Json.same v u = true := by
    have hmem : u ∈ items.filter (Json.same v) := by rw [hu]; exact List.mem_singleton.mpr rfl
    exact (List.mem_filter.mp hmem).2
  -- so nothing became smaller
  refine forall_eq_of_sizeItems_le hc ?_
  rw [h, hsplit, hu, Json.sizeItems, Json.sizeItems, Json.sizeItems, Json.size_eq_of_same hsame]
  omega

theorem map_eq_self_iff : items.map change = items ↔ ∀ w ∈ items, change w = w := by
  induction items with
  | nil => simp
  | cons v rest ih => simp [ih]

/-- Adding items and changing all of them leaves what was there exactly if each of the items is
there already, and what is there does not change. -/
theorem map_append_eq_self_iff {more : List Json} : (append items more).map change = items ↔
    (∀ v ∈ more, holds items v = true) ∧ ∀ w ∈ items, change w = w := by
  constructor
  · intro h
    have hlength := congrArg List.length h
    rw [List.length_map] at hlength
    have hsame := ((prefix_append items more).eq_of_length hlength.symm).symm
    rw [hsame] at h
    exact ⟨append_eq_self_iff.mp hsame, map_eq_self_iff.mp h⟩
  · rintro ⟨hthere, hkept⟩
    rw [append_eq_self_iff.mpr hthere]
    exact map_eq_self_iff.mpr hkept

/-- Where there was one value, the union begins with it. -/
theorem map_firsts_eq_union_iff (hc : ∀ v, change v = v ∨ (change v).size < v.size) {v : Json}
    {more : List Json} : (firsts more).map change = union [v] more ↔
      more.head? = some v ∧ ∀ w ∈ firsts more, change w = w := by
  have hunion : union [v] more = v :: (firsts more).filter (!Json.same v ·) := by
    have hholds : ∀ w, holds [v] w = Json.same v w := by
      intro w
      rw [Json.same_comm v w]
      simp [holds]
    simp [union, hholds]
  rw [hunion]
  constructor
  · intro h
    have hstay := forall_eq_of_map_eq_cons hc h
    refine ⟨?_, hstay⟩
    rw [map_eq_self_iff.mpr hstay] at h
    cases more with
    | nil => cases h
    | cons w rest =>
      rw [firsts] at h
      exact congrArg some (List.cons.inj h).1
  · rintro ⟨hhead, hstay⟩
    rw [map_eq_self_iff.mpr hstay]
    cases more with
    | nil => cases hhead
    | cons w rest =>
      cases hhead
      simp [firsts, Json.same_refl]

end

theorem append_nil (more : List Json) : append [] more = firsts more := by
  rw [append_eq_union]
  simp [union, holds]

/-- A value that stands alone. -/
def IsSingle (v : Json) : Prop := v ≠ .null ∧ v.array? = none

theorem identifiers_of_single {v : Json} (h : IsSingle v) : identifiers (some v) = [v] := by
  cases v with
  | null => exact absurd rfl h.1
  | array => cases h.2
  | bool | number | string | object => rfl

theorem kept_of_single {v : Json} (h : IsSingle v) : kept (some v) = [] := by
  cases v with
  | array => cases h.2
  | null | bool | number | string | object => rfl

/-- The items of an array are kept, and of anything else but a value that stands alone there are
none. -/
theorem identifiers_eq_kept {old : Option Json} (h : ∀ v, old = some v → ¬IsSingle v) :
    identifiers old = kept old := by
  cases old with
  | none => rfl
  | some v =>
    cases v with
    | null | array => rfl
    | bool | number | string | object => exact absurd ⟨nofun, rfl⟩ (h _ rfl)

theorem identifiers_some_eq_items {given : Json} (h : given ≠ .null) :
    identifiers (some given) = items given := by
  cases given with
  | null => exact absurd rfl h
  | bool | number | string | array | object => rfl

/-- **When adding what is given makes the union** of all identifiers, after the items are changed
once more: a value that stands alone must be given again, before the others, because it is not kept;
null must not be given alone, unless it is an item already; and no item may be changed. -/
theorem map_append_eq_union_iff {change : Json → Json}
    (hc : ∀ v, change v = v ∨ (change v).size < v.size) (old : Option Json) (given : Json) :
    (append (kept old) (items given)).map change =
        union (identifiers old) (identifiers (some given)) ↔
      (∀ v, old = some v → IsSingle v → (items given).head? = some v) ∧
      (given = .null → .null ∈ kept old) ∧
      ∀ w ∈ append (kept old) (items given), change w = w := by
  by_cases hsingle : ∃ v, old = some v ∧ IsSingle v
  · obtain ⟨v, rfl, hv⟩ := hsingle
    have hhead : (∀ w, some v = some w → IsSingle w → (items given).head? = some w) ↔
        (items given).head? = some v := by
      constructor
      · exact fun h => h v rfl hv
      · rintro h w he -
        rw [h, he]
    rw [hhead, kept_of_single hv, identifiers_of_single hv, append_nil]
    by_cases hnull : given = .null
    · -- the null comes in the place of the value
      subst hnull
      have hne : change .null ≠ v := by
        rcases hc .null with hstay | hless
        · rw [hstay]
          exact Ne.symm hv.1
        · have := (change .null).size_pos
          rw [Json.size] at hless
          omega
      simp [items, firsts, identifiers, union, hne]
    · rw [identifiers_some_eq_items hnull, map_firsts_eq_union_iff hc]
      simp [hnull]
  · have hno : ∀ v, old = some v → ¬IsSingle v := fun v he hv => hsingle ⟨v, he, hv⟩
    have hvacuous : ∀ v, old = some v → IsSingle v → (items given).head? = some v :=
      fun v he hv => (hno v he hv).elim
    rw [identifiers_eq_kept hno, and_iff_right hvacuous]
    by_cases hnull : given = .null
    · subst hnull
      have hunion : union (kept old) (identifiers (some .null)) = kept old := List.append_nil _
      rw [hunion, map_append_eq_self_iff]
      simp only [items, List.forall_mem_singleton, holds_null_iff, forall_const]
      refine and_congr_right fun hmem => ?_
      rw [append_eq_self_iff.mpr (List.forall_mem_singleton.mpr (holds_null_iff.mpr hmem))]
    · rw [identifiers_some_eq_items hnull, ← append_eq_union, map_eq_self_iff]
      simp [hnull]

end Reference

end ModelRest
