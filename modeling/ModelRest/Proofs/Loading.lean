import ModelRest.Source.Loading
import ModelRest.Proofs.Effects

/-!
# What loading answers

Loading goes through the declarations one by one. Here it is said at once what it answers for all of
them: it succeeds when the marks of all exported classes can be read, it keeps every declared class,
and its models are those that the single declarations give, in their order.
-/

namespace ModelRest.LoadedSources

/-- The model that a declaration gives: it must be exported and marked as a model, and there must be
a class of its name. -/
def model? (table : ClassTable) (p : String × ClassDecl) :
    Except ConfigError (Option LoadedModel) :=
  if p.2.exported then
    (classMetadata? p.2).map fun said => said.bind fun _ =>
      (KeyMap.get? table p.2.name).map fun cls => { decl := p.2, cls := cls, source := p.1 }
  else .ok none

/-- The declared classes by their names. -/
def named (ds : List (String × ClassDecl)) : List (String × ClassDecl) :=
  ds.map fun p => (p.2.name, p.2)

theorem add_eq (table : ClassTable) (l : LoadedSources) (p : String × ClassDecl) :
    add table l p = (model? table p).map fun m =>
      { classes := KeyMap.insert l.classes p.2.name p.2, models := l.models ++ m.toList } := by
  unfold add model?
  by_cases hx : p.2.exported
  · simp only [hx, if_true]
    cases hm : classMetadata? p.2 with
    | error e => rfl
    | ok said =>
      cases said with
      | none => simp [bind, Except.bind, Except.map, pure, Except.pure]
      | some said =>
        cases KeyMap.get? table p.2.name <;>
          simp [bind, Except.bind, Except.map, pure, Except.pure]
  · simp [hx, Except.map, pure, Except.pure]

/-- Going through declarations adds the classes and the models of all of them. -/
theorem foldlM_add_eq_ok_iff (table : ClassTable) (ds : List (String × ClassDecl))
    (l l' : LoadedSources) :
    ds.foldlM (add table) l = .ok l' ↔
      ∃ ms, ds.mapM (model? table) = .ok ms ∧
        l' = { classes := KeyMap.union l.classes (named ds),
               models := l.models ++ ms.filterMap id } := by
  induction ds generalizing l with
  | nil =>
    rw [List.foldlM_nil, List.mapM_nil]
    constructor
    · intro h
      cases h
      exact ⟨[], rfl, by simp [named, KeyMap.union]⟩
    · rintro ⟨ms, h, rfl⟩
      cases h
      simp [named, KeyMap.union, pure, Except.pure]
  | cons p rest ih =>
    rw [List.foldlM_cons, andThen_eq_ok_iff]
    have hunion : KeyMap.union (KeyMap.insert l.classes p.2.name p.2) (named rest) =
        KeyMap.union l.classes (named (p :: rest)) := rfl
    simp only [ih, add_eq, map_eq_ok_iff, List.mapM_cons, andThen_eq_ok_iff, pure, Except.pure,
      Except.ok.injEq]
    constructor
    · rintro ⟨_, ⟨m, hm, rfl⟩, ms, hms, rfl⟩
      refine ⟨m :: ms, ⟨m, hm, ms, hms, rfl⟩, ?_⟩
      rw [← hunion]
      cases m <;> simp
    · rintro ⟨_, ⟨m, hm, ms, hms, rfl⟩, rfl⟩
      refine ⟨_, ⟨m, hm, rfl⟩, ms, hms, ?_⟩
      rw [← hunion]
      cases m <;> simp

/-- **What loading answers.** -/
theorem load_eq_ok_iff (sources : List SourceFile) (table : ClassTable) (l : LoadedSources) :
    load sources table = .ok l ↔
      ∃ ms, (declarations sources).mapM (model? table) = .ok ms ∧
        l = { classes := KeyMap.ofPairs (named (declarations sources)),
              models := ms.filterMap id } := by
  unfold load
  rw [foldlM_add_eq_ok_iff]
  simp [KeyMap.ofPairs]

end ModelRest.LoadedSources
