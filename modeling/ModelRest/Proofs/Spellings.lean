import ModelRest.Proofs.RouteConflicts

/-!
# Spellings of a template

The paths that a table binds are converted templates, so that which routes conflict can be said of
the templates (`Registration.conflicts_route_iff`): of their segments, how the parameters among them
are written and what they are called. `Template.convert_stable` says this of whatever a table is
asked to bind.
-/

namespace ModelRest

variable {α : Type}

open Template RouteTable

/-- Routes conflict exactly if their templates are the same but for spelling and names, and either
some name is another or the verb is the same. -/
theorem Registration.conflicts_route_iff {x y : Registration α} : y.route.Conflicts x.route ↔
    Renames y.template.toList x.template.toList ∧
      (Respells y.template.toList x.template.toList → y.verb = x.verb) := by
  have hpath : ∀ x : Registration α,
      x.route.path.toList = convert x.template.toList := fun _ => String.toList_ofList
  rw [BoundRoute.conflicts_iff, Ne, ← String.toList_inj, hpath, hpath, agree_convert_iff,
    convert_eq_iff, ← imp_iff_not_or]
  rfl

/-- **Conversion is stable.** Converting a template keeps its number of segments, converting again
changes nothing, and no segment of a bound path begins with a colon but a colon alone. Two templates
have one path exactly if they agree segment by segment but for the spelling of parameters, and one
shape exactly if they agree but for spelling and names; so another name at one place gives another
path of the same shape. A table therefore binds what it is asked to exactly if every route bound
before that agrees with it up to spelling and names agrees with it up to spelling alone and has
another verb. -/
theorem Template.convert_stable :
    (∀ t, (segments (convert t)).length = (segments t).length ∧ convert (convert t) = convert t ∧
      ∀ s ∈ segments (convert t), s.head? = some ':' → s = [':']) ∧
    (∀ t u, (convert t = convert u ↔ Respells t u) ∧
      (shape (convert t) = shape (convert u) ↔ Renames t u)) ∧
    (∀ t u before s s' after name name', segments t = before ++ s :: after →
      segments u = before ++ s' :: after → Writes name s → Writes name' s' → name ≠ name' →
        convert t ≠ convert u ∧ shape (convert t) = shape (convert u)) ∧
    ∀ (calls : List (Registration α)) (x : Registration α),
      failure? (RouteTable.bind x.route (after {} calls)) = none ↔
        ∀ y ∈ granted {} calls, Renames y.template.toList x.template.toList →
          Respells y.template.toList x.template.toList ∧ y.verb ≠ x.verb := by
  refine ⟨fun t => ⟨?_, convert_convert t, fun s hs hcolon => ?_⟩,
    fun t u => ⟨convert_eq_iff, shape_convert_eq_iff⟩,
    fun _ _ _ _ _ _ _ _ => convert_ne_of_writes, fun calls x => ?_⟩
  · rw [segments_convert, List.length_map]
  · rw [segments_convert] at hs
    obtain ⟨s, -, rfl⟩ := List.mem_map.mp hs
    exact eq_colon_of_head?_convertSegment hcolon
  · have hroutes : (after {} calls).routes = (granted {} calls).map Registration.route := by
      simpa using routes_after calls tidy_empty
    rw [failure?_bind (tidy_empty.after calls).sound, hroutes, List.forall_mem_map]
    refine forall₂_congr fun y _ => ?_
    rw [Registration.conflicts_route_iff, not_and, Classical.not_imp]

/-- Both spellings of a book's path are bound as one, and a parameter of another name is refused
under any verb. -/
theorem Routing.books_spelled :
    convert reading.template.toList = convert changing.template.toList ∧
    (convert reading.template.toList ≠ convert looking.template.toList ∧
      shape (convert reading.template.toList) = shape (convert looking.template.toList)) ∧
    failure? (RouteTable.bind changing.route (after {} [reading])) = none ∧
    failure? (RouteTable.bind looking.route (after {} [reading])) ≠ none := by
  obtain ⟨-, hpaths, hrenamed, htable⟩ := Template.convert_stable (α := Nat)
  have hid : Writes "id".toList ":id".toList := .colon (by decide)
  have hbraces : Writes "id".toList "\x7bid\x7d".toList := .braces
  have hkey : Writes "key".toList ":key".toList := .colon (by decide)
  have hbooks : Respells reading.template.toList changing.template.toList :=
    .cons (.inl rfl) (.cons (.inl rfl) (.cons (.inr ⟨_, hid, hbraces⟩) .nil))
  have hother := hrenamed reading.template.toList looking.template.toList [[], "books".toList]
    _ _ [] _ _ (by decide) (by decide) hid hkey (by decide)
  have hgranted : granted {} [reading] = [reading] := by
    have hfree : failure? (RouteTable.bind reading.route {}) = none := by decide +kernel
    rw [granted, hfree]
    rfl
  refine ⟨(hpaths _ _).1.mpr hbooks, hother, (htable [reading] changing).mpr ?_, fun hlooking => ?_⟩
  · rw [hgranted, List.forall_mem_singleton]
    exact fun _ => ⟨hbooks, by decide⟩
  · have hagree := (htable [reading] looking).mp hlooking reading (by simp [hgranted])
    exact hother.1 ((hpaths _ _).1.mpr (hagree ((hpaths _ _).2.mp hother.2)).1)

end ModelRest
