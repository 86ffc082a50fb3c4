import ModelRest.Proofs.Effects
import ModelRest.Proofs.Templates
import ModelRest.Route.Table
import Mathlib.Data.List.Nodup
import Mathlib.Data.List.Pairwise
import Mathlib.Data.Prod.Lex
import Mathlib.Data.String.Basic

/-!
# Routes that go together

Two routes do not go together if their paths have one shape, and either are different texts or have
the same verb (`BoundRoute.Conflicts`). A table looks a route up in two places, by its shape and
among the routes that are bound. What the two places hold fits together (`RouteTable.Sound`), so a
route is refused exactly if it does not go together with one that is bound, and added otherwise:
`RouteTable.bind_cases`. Hence the two places fit together and no two routes conflict whatever is
asked for (`RouteTable.Tidy`). What a table holds after many calls, of which some may fail, are then
the routes of those that succeeded, and whether all of several calls succeed does not depend on
their order.
-/

namespace ModelRest

variable {α : Type}

/-! ### Conflicts -/

namespace BoundRoute

/-- The routes do not go together. -/
def Conflicts (a b : BoundRoute α) : Prop := a.shape = b.shape ∧ (a.path ≠ b.path ∨ a.verb = b.verb)

instance (a b : BoundRoute α) : Decidable (a.Conflicts b) := inferInstanceAs (Decidable (_ ∧ _))

/-- Routes go together unless their paths are the same but for the names of parameters, and either
some name is another or the verb is the same. -/
theorem conflicts_iff {a b : BoundRoute α} : a.Conflicts b ↔
    Template.Agree a.path.toList b.path.toList ∧ (a.path ≠ b.path ∨ a.verb = b.verb) := by
  rw [Conflicts, shape, shape, ← String.toList_inj, String.toList_ofList, String.toList_ofList,
    Template.shape_eq_iff]

theorem Conflicts.symm {a b : BoundRoute α} (h : a.Conflicts b) : b.Conflicts a :=
  ⟨h.1.symm, h.2.imp Ne.symm Eq.symm⟩

instance : Std.Symm fun a b : BoundRoute α => ¬ a.Conflicts b := ⟨fun _ _ h hc => h hc.symm⟩

/-- The shape of a route is that of its path. -/
theorem shape_eq_of_path_eq {a b : BoundRoute α} (h : a.path = b.path) : a.shape = b.shape := by
  simp only [shape, h]

end BoundRoute

/-- What is asked of a table: to bind a verb and a template. -/
structure Registration (α : Type) where
  /-- The verb. -/
  verb : String
  /-- The template. -/
  template : String
  /-- What serves the route. -/
  serves : α

/-- The route that is asked for. -/
def Registration.route (x : Registration α) : BoundRoute α :=
  .ofTemplate x.verb x.template x.serves

/-! ### One call -/

namespace RouteTable

variable {t : RouteTable α} {r : BoundRoute α}

/-- The table has a path for a shape exactly if a route of that shape and path is bound. -/
def Sound (t : RouteTable α) : Prop :=
  ∀ shape path, KeyMap.get? t.shapes shape = some path ↔
    ∃ b ∈ t.routes, b.shape = shape ∧ b.path = path

/-- The table with one more route. -/
def withRoute (t : RouteTable α) (r : BoundRoute α) : RouteTable α :=
  { routes := t.routes ++ [r], shapes := KeyMap.insert t.shapes r.shape r.path }

theorem sound_empty : Sound ({} : RouteTable α) := by
  intro shape path
  simp

/-- A route that conflicts with one that is bound is refused. -/
theorem bind_eq_error (h : t.Sound) {b : BoundRoute α} (hb : b ∈ t.routes) (hc : b.Conflicts r) :
    bind r t = .error (.routeConflict r.verb r.path) t := by
  have hfound : KeyMap.get? t.shapes r.shape = some b.path := (h _ _).mpr ⟨b, hb, hc.1, rfl⟩
  by_cases hp : b.path = r.path
  · -- the paths are the same text, so the verbs are the same and the route itself is bound already
    have hv : b.verb = r.verb := hc.2.resolve_left (not_not_intro hp)
    have hthere : (t.routes.any fun b => b.verb == r.verb && b.path == r.path) = true :=
      List.any_eq_true.mpr ⟨b, hb, by simp [hv, hp]⟩
    simp [bind, add, hfound, hp, hthere]
  · simp [bind, hfound, hp]

/-- A route that conflicts with none that is bound is added. -/
theorem bind_eq_ok (h : t.Sound) (hc : ∀ b ∈ t.routes, ¬ b.Conflicts r) :
    bind r t = .ok () (t.withRoute r) := by
  have hshape : (KeyMap.get? t.shapes r.shape).any (· != r.path) = false := by
    cases hget : KeyMap.get? t.shapes r.shape with
    | none => rfl
    | some path =>
      obtain ⟨b, hb, hs, rfl⟩ := (h _ _).mp hget
      have hp : b.path = r.path := by
        by_contra hne
        exact hc b hb ⟨hs, .inl hne⟩
      simp [hp]
  have hnew : (t.routes.any fun b => b.verb == r.verb && b.path == r.path) = false := by
    rw [List.any_eq_false]
    intro b hb hthere
    have hsame : b.verb = r.verb ∧ b.path = r.path := by simpa using hthere
    exact hc b hb ⟨BoundRoute.shape_eq_of_path_eq hsame.2, .inr hsame.1⟩
  simp [bind, add, hshape, hnew, withRoute]

/-- A call fails exactly if it asks for a route that conflicts with one that is bound. -/
theorem failure?_bind (h : t.Sound) :
    failure? (bind r t) = none ↔ ∀ b ∈ t.routes, ¬ b.Conflicts r := by
  constructor
  · intro hnone b hb hc
    simp [bind_eq_error h hb hc, failure?] at hnone
  · intro hc
    simp [bind_eq_ok h hc, failure?]

/-- A call adds a route that conflicts with none, or is refused and leaves the table as it was. -/
theorem bind_cases (h : t.Sound) (r : BoundRoute α) :
    (∀ b ∈ t.routes, ¬ b.Conflicts r) ∧ bind r t = .ok () (t.withRoute r) ∨
      bind r t = .error (.routeConflict r.verb r.path) t := by
  by_cases hc : ∀ b ∈ t.routes, ¬ b.Conflicts r
  · exact .inl ⟨hc, bind_eq_ok h hc⟩
  · push Not at hc
    obtain ⟨b, hb, hc⟩ := hc
    exact .inr (bind_eq_error h hb hc)

theorem Sound.withRoute (h : t.Sound) (hc : ∀ b ∈ t.routes, ¬ b.Conflicts r) :
    (t.withRoute r).Sound := by
  intro shape path
  simp only [RouteTable.withRoute, List.mem_append, List.mem_singleton]
  by_cases hs : r.shape = shape
  · subst hs
    rw [KeyMap.get?_insert_self]
    constructor
    · intro hpath
      exact ⟨r, .inr rfl, rfl, Option.some.inj hpath⟩
    · rintro ⟨b, hb | rfl, hbs, rfl⟩
      · -- a route of that shape was bound before, so its path is that of the new one
        by_contra hne
        exact hc b hb ⟨hbs, .inl fun hp => hne (congrArg some hp.symm)⟩
      · rfl
  · rw [KeyMap.get?_insert_of_ne _ _ hs, h]
    constructor
    · rintro ⟨b, hb, hbs, hbp⟩
      exact ⟨b, .inl hb, hbs, hbp⟩
    · rintro ⟨b, hb | rfl, hbs, hbp⟩
      · exact ⟨b, hb, hbs, hbp⟩
      · exact absurd hbs hs

/-- What the table holds fits together, and no two routes conflict. -/
structure Tidy (t : RouteTable α) : Prop where
  /-- The paths of shapes are those of routes. -/
  sound : t.Sound
  /-- No two routes conflict. -/
  pairwise : t.routes.Pairwise fun a b => ¬ a.Conflicts b

theorem tidy_empty : Tidy ({} : RouteTable α) where
  sound := sound_empty
  pairwise := .nil

theorem Tidy.withRoute (h : t.Tidy) (hc : ∀ b ∈ t.routes, ¬ b.Conflicts r) :
    (t.withRoute r).Tidy where
  sound := h.sound.withRoute hc
  pairwise := List.pairwise_append.mpr ⟨h.pairwise, List.pairwise_singleton .., by simpa using hc⟩

/-- Whatever is asked for, what the table holds fits together and no two routes conflict. -/
theorem preserves_tidy (r : BoundRoute α) : Preserves Tidy (bind r) := by
  intro t h
  obtain ⟨hc, hb⟩ | hb := bind_cases h.sound r
  · rw [hb]
    exact h.withRoute hc
  · rw [hb]
    exact h

/-! ### Many calls -/

/-- The table after some calls, of which some may fail. -/
def after (t : RouteTable α) (calls : List (Registration α)) : RouteTable α :=
  calls.foldl (fun t x => stateLeft (bind x.route t)) t

/-- The calls that succeed. -/
def granted (t : RouteTable α) : List (Registration α) → List (Registration α)
  | [] => []
  | x :: calls =>
    match failure? (bind x.route t) with
    | none => x :: granted (stateLeft (bind x.route t)) calls
    | some _ => granted (stateLeft (bind x.route t)) calls

section Calls

variable (t : RouteTable α) (x : Registration α) (calls others : List (Registration α))

@[simp] theorem after_nil : after t [] = t := rfl

@[simp] theorem after_cons : after t (x :: calls) = after (stateLeft (bind x.route t)) calls := rfl

@[simp] theorem after_append : after t (calls ++ others) = after (after t calls) others :=
  List.foldl_append

variable {t x}

/-- **Any number of calls** leave what the table holds fitting together, and no two routes that
conflict. -/
theorem Tidy.after (h : t.Tidy) : (after t calls).Tidy := by
  induction calls generalizing t with
  | nil => exact h
  | cons x calls ih => exact ih (preserves_tidy x.route t h)

/-- The routes of the calls that succeed are added, in order. -/
theorem routes_after (h : t.Tidy) :
    (after t calls).routes = t.routes ++ (granted t calls).map Registration.route := by
  induction calls generalizing t with
  | nil => simp [granted]
  | cons x calls ih =>
    rw [after_cons, ih (preserves_tidy x.route t h), granted]
    obtain ⟨-, hb⟩ | hb := bind_cases h.sound x.route
    · simp [hb, failure?, stateLeft, withRoute]
    · simp [hb, failure?, stateLeft]

end Calls

/-! ### What is bound, in order -/

theorem bound_perm : t.bound.Perm (t.routes.map fun r => (r.verb, r.path)) :=
  List.mergeSort_perm ..

/-- No two routes that are bound have one verb and one path. -/
theorem Tidy.nodup_pairs (h : t.Tidy) : (t.routes.map fun r => (r.verb, r.path)).Nodup := by
  rw [List.Nodup, List.pairwise_map]
  refine h.pairwise.imp fun {a b} hc hab => ?_
  obtain ⟨hverb, hpath⟩ := Prod.mk.inj hab
  exact hc ⟨BoundRoute.shape_eq_of_path_eq hpath, .inr hverb⟩

end RouteTable

namespace Routing

open RouteTable

/-- Reads a book. -/
def reading : Registration Nat := { verb := "GET", template := "/books/:id", serves := 0 }

/-- Changes a book. -/
def changing : Registration Nat := { verb := "PATCH", template := "/books/\x7bid\x7d", serves := 1 }

/-- Reads a book, by a parameter of another name. -/
def looking : Registration Nat := { verb := "PUT", template := "/books/:key", serves := 2 }

end Routing

end ModelRest
