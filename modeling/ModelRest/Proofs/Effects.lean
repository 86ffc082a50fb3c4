import Mathlib.Data.List.Perm.Basic

/-!
# Computations one after the other

Two kinds of computations occur in the library: those that answer or fail, and those that besides
change a state. For both, this module says when a computation made of others succeeds, and what it
then answers: `mapM_eq_ok_iff` for a list of independent computations, `bind_eq_ok_iff` and
`bind_eq_error_iff` for two computations on a state. That a computation changes nothing (`Keeps`), or
fails in one way only (`FailsOnly`), follows from the same of its parts.
-/

namespace ModelRest

/-! ### Computations that answer or fail -/

section Answers

variable {ε α β : Type}

theorem exists_left_of_forall₂ {rel : α → β → Prop} {xs : List α} {ys : List β}
    (h : List.Forall₂ rel xs ys) {y : β} (hy : y ∈ ys) : ∃ x ∈ xs, rel x y := by
  induction h with
  | nil => cases hy
  | @cons a b xs ys hab _ ih =>
    rcases List.mem_cons.mp hy with rfl | hy
    · exact ⟨a, List.mem_cons_self .., hab⟩
    · obtain ⟨x, hx, hr⟩ := ih hy
      exact ⟨x, List.mem_cons_of_mem _ hx, hr⟩

theorem exists_right_of_forall₂ {rel : α → β → Prop} {xs : List α} {ys : List β}
    (h : List.Forall₂ rel xs ys) {x : α} (hx : x ∈ xs) : ∃ y ∈ ys, rel x y :=
  exists_left_of_forall₂ h.flip hx

/-- Lists agree in what their related elements agree in. -/
theorem forall₂_map_eq {γ : Type} {rel : α → β → Prop} {xs : List α} {ys : List β} {f : α → γ}
    {g : β → γ} (h : List.Forall₂ rel xs ys) (hfg : ∀ x y, rel x y → g y = f x) :
    ys.map g = xs.map f := by
  induction h with
  | nil => rfl
  | cons hxy _ ih => rw [List.map_cons, List.map_cons, hfg _ _ hxy, ih]

/-- What is made of some of the things listed has the names of things listed. -/
theorem filterMap_map_sublist {γ : Type} {f : α → γ} {g : β → γ} {xs : List α}
    {os : List (Option β)} (h : List.Forall₂ (fun x o => ∀ y, o = some y → g y = f x) xs os) :
    ((os.filterMap id).map g).Sublist (xs.map f) := by
  induction h with
  | nil => exact .slnil
  | @cons x o xs os ho _ ih =>
    cases o with
    | none => exact ih.cons (f x)
    | some y =>
      have hg : g y = f x := ho y rfl
      have hmap : ((some y :: os).filterMap id).map g = g y :: (os.filterMap id).map g := rfl
      rw [hmap, hg]
      exact ih.cons_cons (f x)

/-- What is related is related after picking, if it is picked on both sides or on none. -/
theorem forall₂_filterMap {γ δ : Type} {rel : α → β → Prop} {rel' : γ → δ → Prop}
    {f : α → Option γ} {g : β → Option δ} (hfg : ∀ a b, rel a b → Option.Rel rel' (f a) (g b))
    {xs : List α} {ys : List β} (h : List.Forall₂ rel xs ys) :
    List.Forall₂ rel' (xs.filterMap f) (ys.filterMap g) := by
  induction h with
  | nil => exact .nil
  | @cons a b _ _ hab _ ih =>
    have hpick := hfg a b hab
    rw [List.filterMap_cons, List.filterMap_cons]
    generalize f a = x at hpick
    generalize g b = y at hpick
    cases hpick with
    | some hxy => exact .cons hxy ih
    | none => exact ih

/-- Elements that are each related to something make a list that is. -/
theorem exists_forall₂ {rel : α → β → Prop} {xs : List α} (h : ∀ x ∈ xs, ∃ y, rel x y) :
    ∃ ys, List.Forall₂ rel xs ys := by
  induction xs with
  | nil => exact ⟨[], .nil⟩
  | cons x xs ih =>
    obtain ⟨y, hy⟩ := h x (List.mem_cons_self ..)
    obtain ⟨ys, hys⟩ := ih fun x hx => h x (List.mem_cons_of_mem _ hx)
    exact ⟨y :: ys, .cons hy hys⟩

/-- A list is cut where a related one is. -/
theorem forall₂_split {rel : α → β → Prop} {before after : List α} {x : α} {ys : List β}
    (h : List.Forall₂ rel (before ++ x :: after) ys) : ∃ ys₁ y ys₂, ys = ys₁ ++ y :: ys₂ ∧
      List.Forall₂ rel before ys₁ ∧ rel x y ∧ List.Forall₂ rel after ys₂ := by
  induction before generalizing ys with
  | nil =>
    cases h with
    | cons hy hafter => exact ⟨[], _, _, rfl, .nil, hy, hafter⟩
  | cons z before ih =>
    cases h with
    | cons hz h =>
      obtain ⟨ys₁, y, ys₂, rfl, hbefore, hy, hafter⟩ := ih h
      exact ⟨_ :: ys₁, y, ys₂, rfl, .cons hz hbefore, hy, hafter⟩

theorem andThen_eq_ok_iff {x : Except ε α} {f : α → Except ε β} {b : β} :
    (x >>= f) = .ok b ↔ ∃ a, x = .ok a ∧ f a = .ok b := by
  cases x <;> simp [bind, Except.bind]

theorem andThen_eq_error_iff {x : Except ε α} {f : α → Except ε β} {e : ε} :
    (x >>= f) = .error e ↔ x = .error e ∨ ∃ a, x = .ok a ∧ f a = .error e := by
  cases x <;> simp [bind, Except.bind]

/-- Independent computations all succeed when each does. -/
theorem mapM_eq_ok_iff (f : α → Except ε β) (xs : List α) (ys : List β) :
    xs.mapM f = .ok ys ↔ List.Forall₂ (fun x y => f x = .ok y) xs ys := by
  induction xs generalizing ys with
  | nil =>
    rw [List.mapM_nil, List.forall₂_nil_left_iff]
    exact ⟨fun h => (Except.ok.inj h).symm, fun h => h ▸ rfl⟩
  | cons x xs ih =>
    rw [List.mapM_cons]
    constructor
    · intro h
      obtain ⟨y, hy, h⟩ := andThen_eq_ok_iff.mp h
      obtain ⟨rest, hrest, h⟩ := andThen_eq_ok_iff.mp h
      cases h
      exact .cons hy ((ih rest).mp hrest)
    · rintro (_ | ⟨hy, hrest⟩)
      exact andThen_eq_ok_iff.mpr ⟨_, hy, andThen_eq_ok_iff.mpr ⟨_, (ih _).mpr hrest, rfl⟩⟩

theorem exists_mapM_eq_ok_iff (f : α → Except ε β) (xs : List α) :
    (∃ ys, xs.mapM f = .ok ys) ↔ ∀ x ∈ xs, ∃ y, f x = .ok y := by
  constructor
  · rintro ⟨ys, h⟩ x hx
    obtain ⟨y, -, hy⟩ := exists_right_of_forall₂ ((mapM_eq_ok_iff f xs ys).mp h) hx
    exact ⟨y, hy⟩
  · intro h
    obtain ⟨ys, hys⟩ := exists_forall₂ h
    exact ⟨ys, (mapM_eq_ok_iff f xs ys).mpr hys⟩

/-- Independent computations fail together as the first that fails. -/
theorem mapM_eq_error {f : α → Except ε β} {before after : List α} {x : α} {e : ε}
    (hbefore : ∀ y ∈ before, ∃ z, f y = .ok z) (hx : f x = .error e) :
    (before ++ x :: after).mapM f = .error e := by
  obtain ⟨ys, hys⟩ := (exists_mapM_eq_ok_iff f before).mpr hbefore
  rw [List.mapM_append, hys, List.mapM_cons, hx]
  rfl

/-- When independent computations fail together, the first that fails does so. -/
theorem exists_error_of_mapM {f : α → Except ε β} {xs : List α} {e : ε}
    (h : xs.mapM f = .error e) : ∃ before x after, xs = before ++ x :: after ∧
      (∀ y ∈ before, ∃ z, f y = .ok z) ∧ f x = .error e := by
  induction xs with
  | nil => cases h
  | cons x xs ih =>
    rw [List.mapM_cons] at h
    cases hx : f x with
    | error e' =>
      rw [hx] at h
      cases h
      exact ⟨[], x, xs, rfl, nofun, hx⟩
    | ok y =>
      cases hxs : xs.mapM f with
      | error e' =>
        rw [hx, hxs] at h
        cases h
        obtain ⟨before, x', after, rfl, hbefore, he⟩ := ih hxs
        refine ⟨x :: before, x', after, rfl, fun z hz => ?_, he⟩
        rcases List.mem_cons.mp hz with rfl | hz
        · exact ⟨y, hx⟩
        · exact hbefore z hz
      | ok ys =>
        rw [hx, hxs] at h
        cases h

/-- Independent computations in another order answer the same in another order. -/
theorem mapM_perm {f : α → Except ε β} {xs xs' : List α} {ys : List β} (h : xs.Perm xs')
    (hy : xs.mapM f = .ok ys) : ∃ ys', xs'.mapM f = .ok ys' ∧ ys.Perm ys' := by
  rw [mapM_eq_ok_iff] at hy
  obtain ⟨ys', hy', hp⟩ := List.perm_comp_forall₂ h.symm hy
  exact ⟨ys', (mapM_eq_ok_iff f xs' ys').mpr hy', hp.symm⟩

theorem map_eq_ok_iff {x : Except ε α} {f : α → β} {b : β} :
    x.map f = .ok b ↔ ∃ a, x = .ok a ∧ f a = b := by
  cases x <;> simp [Except.map]

/-- What every step preserves, the steps together preserve. -/
theorem foldlM_preserves {f : β → α → Except ε β} (holds : β → Prop)
    (step : ∀ b a b', holds b → f b a = .ok b' → holds b') {xs : List α} {b b' : β}
    (hb : holds b) (h : xs.foldlM f b = .ok b') : holds b' := by
  induction xs generalizing b with
  | nil =>
    cases h
    exact hb
  | cons x xs ih =>
    rw [List.foldlM_cons] at h
    obtain ⟨b₁, hx, h⟩ := andThen_eq_ok_iff.mp h
    exact ih (step b x b₁ hb hx) h

/-- Where a computation does not depend on what was put together before, the computations can all be
made first. -/
theorem foldlM_eq_map {γ : Type} {f : β → α → Except ε β} {g : α → Except ε γ} {act : β → γ → β}
    (h : ∀ b a, f b a = (g a).map (act b)) (xs : List α) (b : β) :
    xs.foldlM f b = (xs.mapM g).map (·.foldl act b) := by
  induction xs generalizing b with
  | nil => rfl
  | cons x xs ih =>
    rw [List.foldlM_cons, List.mapM_cons, h]
    cases g x with
    | error e => rfl
    | ok y =>
      show xs.foldlM f (act b y) = _
      rw [ih]
      cases xs.mapM g <;> rfl

end Answers

/-! ### Computations that change a state -/

section States

variable {ε σ α β : Type}

theorem bind_apply (x : EStateM ε σ α) (f : α → EStateM ε σ β) (s : σ) :
    (x >>= f) s = match x s with
      | .ok a s => f a s
      | .error e s => .error e s := rfl

theorem bind_eq_ok_iff {x : EStateM ε σ α} {f : α → EStateM ε σ β} {s s' : σ} {b : β} :
    (x >>= f) s = .ok b s' ↔ ∃ a s₁, x s = .ok a s₁ ∧ f a s₁ = .ok b s' := by
  rw [bind_apply]
  cases x s <;> simp

theorem bind_eq_error_iff {x : EStateM ε σ α} {f : α → EStateM ε σ β} {s s' : σ} {e : ε} :
    (x >>= f) s = .error e s' ↔
      x s = .error e s' ∨ ∃ a s₁, x s = .ok a s₁ ∧ f a s₁ = .error e s' := by
  rw [bind_apply]
  cases x s <;> simp

theorem mapped_eq_ok_iff {x : EStateM ε σ α} {f : α → β} {s s' : σ} {b : β} :
    (f <$> x) s = .ok b s' ↔ ∃ a, x s = .ok a s' ∧ f a = b := by
  show EStateM.map f x s = _ ↔ _
  unfold EStateM.map
  cases x s with
  | ok a s₁ =>
    simp only [EStateM.Result.ok.injEq]
    constructor
    · rintro ⟨rfl, rfl⟩
      exact ⟨a, ⟨rfl, rfl⟩, rfl⟩
    · rintro ⟨_, ⟨rfl, rfl⟩, rfl⟩
      exact ⟨rfl, rfl⟩
  | error e s₁ => simp

/-- The state that a computation leaves, whether it succeeded or not. -/
def stateLeft : EStateM.Result ε σ α → σ
  | .ok _ s => s
  | .error _ s => s

/-- The computation succeeded. -/
def succeeded : EStateM.Result ε σ α → Bool
  | .ok .. => true
  | .error .. => false

theorem succeeded_iff {x : EStateM.Result ε σ α} : succeeded x = true ↔ ∃ a s, x = .ok a s := by
  cases x <;> simp [succeeded]

/-- What a computation that succeeded answers. -/
def answer? : EStateM.Result ε σ α → Option α
  | .ok a _ => some a
  | .error .. => none

theorem answer?_eq_some_iff {x : EStateM.Result ε σ α} {a : α} :
    answer? x = some a ↔ x = .ok a (stateLeft x) := by
  cases x <;> simp [answer?, stateLeft]

/-- The error of a computation that failed. -/
def failure? : EStateM.Result ε σ α → Option ε
  | .ok .. => none
  | .error e _ => some e

theorem failure?_eq_some_iff {x : EStateM.Result ε σ α} {e : ε} :
    failure? x = some e ↔ x = .error e (stateLeft x) := by
  cases x <;> simp [failure?, stateLeft]

/-! ### Computations that change nothing -/

/-- The computation leaves the state as it is, whether it succeeds or not. -/
def Keeps (x : EStateM ε σ α) : Prop := ∀ s, stateLeft (x s) = s

theorem Keeps.of_ok {x : EStateM ε σ α} (h : Keeps x) {s s' : σ} {a : α} (hx : x s = .ok a s') :
    s' = s := by
  have := h s
  rwa [hx] at this

theorem Keeps.of_error {x : EStateM ε σ α} (h : Keeps x) {s s' : σ} {e : ε}
    (hx : x s = .error e s') : s' = s := by
  have := h s
  rwa [hx] at this

theorem keeps_pure (a : α) : Keeps (pure a : EStateM ε σ α) := fun _ => rfl

theorem keeps_throw (e : ε) : Keeps (throw e : EStateM ε σ α) := fun _ => rfl

theorem Keeps.bind {x : EStateM ε σ α} {f : α → EStateM ε σ β} (hx : Keeps x)
    (hf : ∀ a, Keeps (f a)) : Keeps (x >>= f) := by
  intro s
  rw [bind_apply]
  have hs := hx s
  cases h : x s with
  | ok a s₁ =>
    rw [h] at hs
    subst hs
    exact hf a s₁
  | error e s₁ =>
    rw [h] at hs
    exact hs

theorem Keeps.map {x : EStateM ε σ α} (hx : Keeps x) (f : α → β) : Keeps (f <$> x) := by
  intro s
  have hs := hx s
  show stateLeft (EStateM.map f x s) = s
  unfold EStateM.map
  cases h : x s with
  | ok a s₁ =>
    rw [h] at hs
    exact hs
  | error e s₁ =>
    rw [h] at hs
    exact hs

theorem adaptExcept_apply {ε' : Type} (raise : ε → ε') (x : EStateM ε σ α) (s : σ) :
    EStateM.adaptExcept raise x s = match x s with
      | .ok a s => .ok a s
      | .error e s => .error (raise e) s := by
  unfold EStateM.adaptExcept
  cases x s <;> rfl

theorem Keeps.adaptExcept {ε' : Type} {x : EStateM ε σ α} (hx : Keeps x) (raise : ε → ε') :
    Keeps (EStateM.adaptExcept raise x) := by
  intro s
  have hs := hx s
  rw [adaptExcept_apply]
  cases h : x s with
  | ok a s₁ =>
    rw [h] at hs
    exact hs
  | error e s₁ =>
    rw [h] at hs
    exact hs

theorem Keeps.mapM {f : α → EStateM ε σ β} (hf : ∀ a, Keeps (f a)) (xs : List α) :
    Keeps (xs.mapM f) := by
  induction xs with
  | nil => exact keeps_pure []
  | cons x xs ih =>
    rw [List.mapM_cons]
    exact (hf x).bind fun _ => ih.bind fun _ => keeps_pure _

/-- What runs over a list and keeps the state answers item by item. -/
theorem Keeps.forall₂_of_mapM {f : α → EStateM ε σ β} (hf : ∀ a, Keeps (f a)) {xs : List α}
    {ys : List β} {s s' : σ} (h : xs.mapM f s = .ok ys s') :
    s' = s ∧ List.Forall₂ (fun x y => f x s = .ok y s) xs ys := by
  induction xs generalizing ys s' with
  | nil =>
    cases h
    exact ⟨rfl, .nil⟩
  | cons x rest ih =>
    rw [List.mapM_cons] at h
    obtain ⟨y, s₁, hx, h⟩ := bind_eq_ok_iff.mp h
    have hs₁ := (hf x).of_ok hx
    rw [hs₁] at hx h
    obtain ⟨ys, s₂, hrest, h⟩ := bind_eq_ok_iff.mp h
    obtain ⟨hs₂, hys⟩ := ih hrest
    cases h
    exact ⟨hs₂, .cons hx hys⟩

theorem Keeps.foldlM {f : β → α → EStateM ε σ β} (hf : ∀ b a, Keeps (f b a)) (xs : List α)
    (b : β) : Keeps (xs.foldlM f b) := by
  induction xs generalizing b with
  | nil => exact keeps_pure b
  | cons x xs ih =>
    rw [List.foldlM_cons]
    exact (hf b x).bind fun b => ih b

/-! ### Computations that preserve a property of the state -/

/-- What holds of a state also holds of the state that the computation leaves, whether it succeeds
or not. -/
def Preserves (holds : σ → Prop) (x : EStateM ε σ α) : Prop := ∀ s, holds s → holds (stateLeft (x s))

section Preserving

variable {holds : σ → Prop}

theorem preserves_pure (a : α) : Preserves holds (pure a : EStateM ε σ α) := fun _ hs => hs

theorem preserves_get : Preserves holds (get : EStateM ε σ σ) := fun _ hs => hs

theorem Preserves.bind {x : EStateM ε σ α} {f : α → EStateM ε σ β} (hx : Preserves holds x)
    (hf : ∀ a, Preserves holds (f a)) : Preserves holds (x >>= f) := by
  intro s hs
  have hs₁ := hx s hs
  rw [bind_apply]
  cases h : x s with
  | ok a s₁ =>
    rw [h] at hs₁
    exact hf a s₁ hs₁
  | error e s₁ =>
    rw [h] at hs₁
    exact hs₁

theorem Preserves.of_ok {x : EStateM ε σ α} (hx : Preserves holds x) {s s' : σ} {a : α}
    (h : x s = .ok a s') (hs : holds s) : holds s' := by
  have hleft := hx s hs
  rwa [h] at hleft

theorem Preserves.map {x : EStateM ε σ α} (hx : Preserves holds x) (f : α → β) :
    Preserves holds (f <$> x) := by
  rw [← bind_pure_comp]
  exact hx.bind fun a => preserves_pure (f a)

theorem Preserves.mapM {f : α → EStateM ε σ β} (hf : ∀ a, Preserves holds (f a)) (xs : List α) :
    Preserves holds (xs.mapM f) := by
  induction xs with
  | nil => exact preserves_pure []
  | cons x xs ih =>
    rw [List.mapM_cons]
    exact (hf x).bind fun _ => ih.bind fun _ => preserves_pure _

/-- What every step for a member preserves, the steps together preserve. -/
theorem Preserves.forM_of_mem {f : α → EStateM ε σ Unit} {xs : List α}
    (hf : ∀ a ∈ xs, Preserves holds (f a)) : Preserves holds (xs.forM f) := by
  induction xs with
  | nil => exact preserves_pure ()
  | cons x xs ih =>
    rw [List.forM_eq_forM, List.forM_cons]
    exact (hf x (List.mem_cons_self ..)).bind fun _ =>
      ih fun a ha => hf a (List.mem_cons_of_mem _ ha)

theorem Preserves.forM {f : α → EStateM ε σ Unit} (hf : ∀ a, Preserves holds (f a))
    (xs : List α) : Preserves holds (xs.forM f) :=
  forM_of_mem fun a _ => hf a

end Preserving

/-! ### Computations that fail in one way -/

/-- Every error of the computation is of a kind. -/
def FailsOnly (kind : ε → Prop) (x : EStateM ε σ α) : Prop :=
  ∀ s e s', x s = .error e s' → kind e

variable {kind : ε → Prop}

theorem failsOnly_pure (a : α) : FailsOnly kind (pure a : EStateM ε σ α) := by
  intro s e s' h
  cases h

theorem failsOnly_throw {e : ε} (he : kind e) : FailsOnly kind (throw e : EStateM ε σ α) := by
  intro s e' s' h
  cases h
  exact he

theorem FailsOnly.mono {kind' : ε → Prop} {x : EStateM ε σ α} (hx : FailsOnly kind x)
    (h : ∀ e, kind e → kind' e) : FailsOnly kind' x :=
  fun s e s' he => h e (hx s e s' he)

theorem FailsOnly.bind {x : EStateM ε σ α} {f : α → EStateM ε σ β} (hx : FailsOnly kind x)
    (hf : ∀ a, FailsOnly kind (f a)) : FailsOnly kind (x >>= f) := by
  intro s e s' h
  rcases bind_eq_error_iff.mp h with h | ⟨a, s₁, _, h⟩
  · exact hx s e s' h
  · exact hf a s₁ e s' h

theorem FailsOnly.map {x : EStateM ε σ α} (hx : FailsOnly kind x) (f : α → β) :
    FailsOnly kind (f <$> x) := by
  rw [← bind_pure_comp]
  exact hx.bind fun a => failsOnly_pure (f a)

theorem FailsOnly.adaptExcept {ε' : Type} {raise : ε → ε'} {kind' : ε' → Prop}
    {x : EStateM ε σ α} (hx : FailsOnly kind x) (hr : ∀ e, kind e → kind' (raise e)) :
    FailsOnly kind' (EStateM.adaptExcept raise x) := by
  intro s e s' h
  rw [adaptExcept_apply] at h
  cases hrun : x s with
  | ok a s₁ =>
    rw [hrun] at h
    cases h
  | error e₁ s₁ =>
    rw [hrun] at h
    cases h
    exact hr e₁ (hx s e₁ s' hrun)

/-- What runs over a list fails only as the computations for its members do. -/
theorem FailsOnly.mapM_of_mem {f : α → EStateM ε σ β} {xs : List α}
    (hf : ∀ a ∈ xs, FailsOnly kind (f a)) : FailsOnly kind (xs.mapM f) := by
  induction xs with
  | nil => exact failsOnly_pure []
  | cons x xs ih =>
    rw [List.mapM_cons]
    exact (hf x (List.mem_cons_self ..)).bind fun _ =>
      (ih fun a ha => hf a (List.mem_cons_of_mem _ ha)).bind fun _ => failsOnly_pure _

theorem FailsOnly.mapM {f : α → EStateM ε σ β} (hf : ∀ a, FailsOnly kind (f a)) (xs : List α) :
    FailsOnly kind (xs.mapM f) :=
  mapM_of_mem fun a _ => hf a

theorem FailsOnly.forM_of_mem {f : α → EStateM ε σ Unit} {xs : List α}
    (hf : ∀ a ∈ xs, FailsOnly kind (f a)) : FailsOnly kind (xs.forM f) := by
  induction xs with
  | nil => exact failsOnly_pure ()
  | cons x xs ih =>
    rw [List.forM_eq_forM, List.forM_cons]
    exact (hf x (List.mem_cons_self ..)).bind fun _ =>
      ih fun a ha => hf a (List.mem_cons_of_mem _ ha)

theorem FailsOnly.foldlM {f : β → α → EStateM ε σ β} {xs : List α}
    (hf : ∀ a ∈ xs, ∀ b, FailsOnly kind (f b a)) (b : β) : FailsOnly kind (xs.foldlM f b) := by
  induction xs generalizing b with
  | nil => exact failsOnly_pure b
  | cons x xs ih =>
    rw [List.foldlM_cons]
    exact (hf x (List.mem_cons_self ..) b).bind fun b =>
      ih (fun a ha => hf a (List.mem_cons_of_mem _ ha)) b

end States

end ModelRest
