import ModelRest.Proofs.Inheritance

/-!
# Merged metadata

The metadata of a field is merged declaration by declaration, from the root of a chain of classes
down. Merging is associative and idempotent, metadata that says nothing is neutral, and what is
merged has the tags of both parts: `FieldSpec.merge_lawful`. So a chain of any length can be cut
anywhere and merged from its parts, and it loses no tag.

A tag of this library stands for a switch, which is on after a merge exactly if it was on in one of
both parts (`FieldSpec.isOn_merge`); the other tags are the names of unknown decorators. What the
laws mean for compiled models is `SchemaEntry.Gathers.mem_tags_iff`: the entry of a field has the
tags of all its declarations.
-/

namespace ModelRest

/-! ### Maps put over each other -/

namespace KeyMap

variable {α : Type} {m n k : KeyMap α}

theorem Sorted.union_assoc (hm : Sorted m) (hn : Sorted n) (hk : Sorted k) :
    KeyMap.union (KeyMap.union m n) k = KeyMap.union m (KeyMap.union n k) := by
  refine ((hm.union n).union k).eq_of_get? (hm.union _) fun key => ?_
  rw [get?_union _ hk, get?_union _ hn, get?_union _ (hn.union k), get?_union _ hk, Option.or_assoc]

theorem Sorted.union_self (hm : Sorted m) : KeyMap.union m m = m := by
  refine (hm.union m).eq_of_get? hm fun key => ?_
  rw [get?_union _ hm, Option.or_self]

end KeyMap

namespace FieldSpec

variable {s s' : FieldSpec} {tag : String} {specs : List FieldSpec}

/-! ### The laws of merging -/

theorem merge_assoc (a b c : FieldSpec) : (a.merge b).merge c = a.merge (b.merge c) := by
  have hextra := a.extra_sorted.union_assoc b.extra_sorted c.extra_sorted
  cases a
  cases b
  cases c
  simp only [merge] at hextra ⊢
  simp [hextra, Bool.or_assoc, Option.or_assoc]

theorem merge_self (a : FieldSpec) : a.merge a = a := by
  have hextra := a.extra_sorted.union_self
  cases a
  simp only [merge] at hextra ⊢
  simp [hextra]

instance : Std.Associative merge := ⟨merge_assoc⟩

/-! ### Tags -/

/-- The tags of the parts of this library, each with its switch. -/
def tagSwitches : List (String × (FieldSpec → Bool)) :=
  [("required", FieldSpec.required), ("unique", FieldSpec.unique), ("index", FieldSpec.index),
    ("immutable", FieldSpec.immutable), ("readOnly", FieldSpec.readOnly),
    ("insertOnly", FieldSpec.insertOnly), ("embedded", FieldSpec.embedded),
    ("enum", fun s => s.allowed.isSome)]

/-- A switch is on after a merge if it was on in one of both parts. -/
theorem isOn_merge {p : String × (FieldSpec → Bool)} (h : p ∈ tagSwitches) (a b : FieldSpec) :
    p.2 (a.merge b) = (p.2 a || p.2 b) := by
  simp only [tagSwitches, List.mem_cons, List.not_mem_nil, or_false] at h
  rcases h with rfl | rfl | rfl | rfl | rfl | rfl | rfl | rfl <;> simp [merge, Bool.or_comm]

/-- A tag is that of a switch that is on, or the name of an unknown decorator. -/
theorem mem_tags_iff :
    tag ∈ s.tags ↔ (∃ p ∈ tagSwitches, p.1 = tag ∧ p.2 s = true) ∨ tag ∈ KeyMap.keys s.extra := by
  have hflags : s.flags = tagSwitches.map fun p => (p.1, p.2 s) := rfl
  rw [tags, List.mem_append, hflags]
  refine or_congr_left ?_
  simp only [List.mem_map, List.mem_filter]
  constructor
  · rintro ⟨_, ⟨⟨p, hp, rfl⟩, hon⟩, rfl⟩
    exact ⟨p, hp, rfl, hon⟩
  · rintro ⟨p, hp, rfl, hon⟩
    exact ⟨_, ⟨⟨p, hp, rfl⟩, hon⟩, rfl⟩

/-- **No tag is lost**: merged metadata has the tags of both parts, and no others. -/
theorem mem_tags_merge (a b : FieldSpec) :
    tag ∈ (a.merge b).tags ↔ tag ∈ a.tags ∨ tag ∈ b.tags := by
  have hswitches : (∃ p ∈ tagSwitches, p.1 = tag ∧ p.2 (a.merge b) = true) ↔
      (∃ p ∈ tagSwitches, p.1 = tag ∧ p.2 a = true) ∨
        ∃ p ∈ tagSwitches, p.1 = tag ∧ p.2 b = true := by
    rw [← exists_or]
    refine exists_congr fun p => ?_
    rw [← and_or_left, ← and_or_left]
    refine and_congr_right fun hp => and_congr_right fun _ => ?_
    rw [isOn_merge hp, Bool.or_eq_true]
  have hextra : tag ∈ KeyMap.keys (a.merge b).extra ↔
      tag ∈ KeyMap.keys a.extra ∨ tag ∈ KeyMap.keys b.extra :=
    KeyMap.mem_keys_union.trans or_comm
  rw [mem_tags_iff, mem_tags_iff, mem_tags_iff, hswitches, hextra, or_or_or_comm]

/-! ### Chains of declarations -/

/-- The metadata of several declarations, merged one after the other. -/
def mergeAll (specs : List FieldSpec) : FieldSpec := specs.foldl merge {}

theorem mergeAll_concat (specs : List FieldSpec) (s : FieldSpec) :
    mergeAll (specs ++ [s]) = (mergeAll specs).merge s := List.foldl_concat ..

/-- A chain that is cut in two is merged from both parts. -/
theorem mergeAll_append (specs later : List FieldSpec) :
    mergeAll (specs ++ later) = (mergeAll specs).merge (mergeAll later) :=
  calc mergeAll (specs ++ later)
      = later.foldl merge (mergeAll specs) := List.foldl_append
    _ = later.foldl merge ((mergeAll specs).merge {}) := by rw [merge_empty]
    _ = (mergeAll specs).merge (mergeAll later) := List.foldl_assoc

/-- A chain has the tags of all its declarations, and no others. -/
theorem mem_tags_mergeAll : tag ∈ (mergeAll specs).tags ↔ ∃ s ∈ specs, tag ∈ s.tags := by
  induction specs using List.reverseRecOn with
  | nil => simp [mergeAll, tags, flags, KeyMap.keys]
  | append_singleton specs s ih =>
    rw [mergeAll_concat, mem_tags_merge, ih]
    simp [or_and_right, exists_or]

/-- **Merging is lawful.** It is associative and idempotent, metadata that says nothing is neutral
on both sides, and no tag is lost and none comes up. So a chain of declarations of any length can be
cut anywhere and merged from its parts, and it has the tags of all its declarations. -/
theorem merge_lawful :
    (∀ a b c : FieldSpec, (a.merge b).merge c = a.merge (b.merge c)) ∧
    (∀ a : FieldSpec, merge {} a = a ∧ a.merge {} = a ∧ a.merge a = a) ∧
    (∀ (a b : FieldSpec) (tag : String), tag ∈ (a.merge b).tags ↔ tag ∈ a.tags ∨ tag ∈ b.tags) ∧
    ∀ specs later : List FieldSpec,
      mergeAll (specs ++ later) = (mergeAll specs).merge (mergeAll later) ∧
      ∀ tag, tag ∈ (mergeAll specs).tags ↔ ∃ s ∈ specs, tag ∈ s.tags :=
  ⟨merge_assoc, fun a => ⟨empty_merge a, merge_empty a, merge_self a⟩,
    fun a b _ => mem_tags_merge a b,
    fun specs later => ⟨mergeAll_append specs later, fun _ => mem_tags_mergeAll⟩⟩

/-! ### Compiled models -/

theorem collects_mergeAll (ds : List Declared) :
    (mergeAll (ds.map fun d => d.said.spec)).Collects ds := by
  induction ds using List.reverseRecOn with
  | nil => exact collects_nil
  | append_singleton ds d ih =>
    refine ih.append ?_
    rw [List.map_append, List.map_singleton, mergeAll_concat]

/-- What declarations say altogether is one metadata, type and target aside. -/
theorem Collects.untyped_eq {ds : List Declared} (h : s.Collects ds) (h' : s'.Collects ds) :
    s.untyped = s'.untyped := by
  have hflags : ∀ flag ∈ switches, flag s = flag s' := fun flag hmem =>
    (h.flags flag hmem).trans (h'.flags flag hmem).symm
  have hinvisible := h.invisible.trans h'.invisible.symm
  have hallowed := h.allowed.trans h'.allowed.symm
  have hextra : s.extra = s'.extra := s.extra_sorted.eq_of_get? s'.extra_sorted fun key =>
    (h.extra key).trans (h'.extra key).symm
  simp only [switches, List.forall_mem_cons, List.not_mem_nil, false_imp_iff, implies_true,
    and_true] at hflags
  cases s
  cases s'
  simp_all [untyped]

end FieldSpec

/-- The metadata of an entry is that of all its declarations, merged, type and target aside. -/
theorem SchemaEntry.Gathers.untyped_metadata {e : SchemaEntry} {ds : List Declared}
    (h : e.Gathers ds) : e.metadata.untyped =
      (FieldSpec.mergeAll (ds.map fun d => d.said.spec)).untyped :=
  h.metadata.untyped_eq (FieldSpec.collects_mergeAll ds)

/-- **An entry has the tags of all its declarations**, and no others. -/
theorem SchemaEntry.Gathers.mem_tags_iff {e : SchemaEntry} {ds : List Declared} (h : e.Gathers ds)
    {tag : String} : tag ∈ e.metadata.tags ↔ ∃ d ∈ ds, tag ∈ d.said.spec.tags := by
  -- the tags do not depend on type and target
  have huntyped : ∀ s : FieldSpec, s.untyped.tags = s.tags := fun _ => rfl
  rw [← huntyped, h.untyped_metadata, huntyped, FieldSpec.mem_tags_mergeAll]
  simp

end ModelRest
