import ModelRest.Decorator

/-!
# Lineages

A model inherits from its superclass as long as that is a declared model itself. The lineage of a
class lists the classes whose members it has, from the root of the inheritance down to the class.
A class that is met twice on the way up makes the lineage an error; each class met is taken out of
those that may still be met, so that the way up ends.
-/

namespace ModelRest

namespace KeyMap

variable {α : Type}

theorem length_erase_le (m : KeyMap α) (key : String) : (erase m key).length ≤ m.length := by
  induction m with
  | nil => simp [erase]
  | cons p rest ih =>
    obtain ⟨k, v⟩ := p
    by_cases h : k = key <;> simp [erase, h] <;> omega

/-- Removing a name that is there makes a map smaller. -/
theorem length_erase_lt {m : KeyMap α} {key : String} (h : contains m key = true) :
    (erase m key).length < m.length := by
  induction m with
  | nil => simp [contains] at h
  | cons p rest ih =>
    obtain ⟨k, v⟩ := p
    by_cases hk : k = key
    · have := length_erase_le rest key
      simp [erase, hk]
      omega
    · have hrest : contains rest key = true := by simpa [contains, get?, hk] using h
      have := ih hrest
      simp [erase, hk]
      omega

end KeyMap

namespace ClassDecl

/-- The superclass of a class, if it is a declared model, with its name. -/
def parent? (classes : KeyMap ClassDecl) (c : ClassDecl) :
    Except ConfigError (Option (String × ClassDecl)) :=
  match c.superclass with
  | none => .ok none
  | some name =>
    match KeyMap.get? classes name with
    | none => .ok none
    | some parent => (classMetadata? parent).map fun m => m.map fun _ => (name, parent)

/-- The lineage of a class, when the superclasses still to be met are among the remaining ones. -/
def lineageAmong (classes remaining : KeyMap ClassDecl) (c : ClassDecl) :
    Except ConfigError (List ClassDecl) := do
  match ← c.parent? classes with
  | none => pure [c]
  | some (name, parent) =>
    if _h : KeyMap.contains remaining name = true then
      let before ← lineageAmong classes (KeyMap.erase remaining name) parent
      pure (before ++ [c])
    else throw (.inheritanceCycle parent.name)
termination_by remaining.length
decreasing_by exact KeyMap.length_erase_lt _h

/-- The lineage of a class among the declared classes. -/
def lineage (classes : KeyMap ClassDecl) (c : ClassDecl) : Except ConfigError (List ClassDecl) :=
  c.lineageAmong classes (KeyMap.erase classes c.name)

end ClassDecl

end ModelRest
