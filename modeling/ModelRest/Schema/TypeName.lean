import ModelRest.Text.Span

/-!
# Names of types

The type of a property is a text: the name of a native type or of a model, perhaps as the element
of an array, which is written `User[]` or `Array<User>`.
-/

namespace ModelRest.TypeName

/-- The types that never refer to a model, in lower case. -/
def native : List (List Char) :=
  ["string".toList, "number".toList, "date".toList, "boolean".toList, "array".toList,
    "object".toList]

/-- The name is one of a native type, in whatever case its ASCII letters are. -/
def isNative (name : String) : Bool := native.contains (name.toList.map Char.toLower)

/-- The element of an array type and `true`; any other type itself and `false`. Blank space around
a type does not count. -/
def splitPlural (type : String) : String × Bool :=
  let cs := Text.trim type.toList
  match Text.dropEnd? ['[', ']'] cs with
  | some element => (String.ofList (Text.trim element), true)
  | none =>
    match (Text.dropStart? "Array<".toList cs).bind (Text.dropEnd? ['>']) with
    | some element => (String.ofList (Text.trim element), true)
    | none => (String.ofList cs, false)

/-- A type names its element, as that of an array or not, in one of three ways. -/
inductive Names (type : List Char) : List Char → Bool → Prop where
  /-- It is the element with brackets after it. -/
  | brackets {element : List Char} (h : Text.trim type = element ++ ['[', ']']) :
      Names type (Text.trim element) true
  /-- It is an array of the element. -/
  | array {element : List Char} (h : Text.trim type = "Array<".toList ++ (element ++ ['>'])) :
      Names type (Text.trim element) true
  /-- It is neither, and names itself. -/
  | single (hbrackets : ∀ element, Text.trim type ≠ element ++ ['[', ']'])
      (harray : ∀ element, Text.trim type ≠ "Array<".toList ++ (element ++ ['>'])) :
      Names type (Text.trim type) false

theorem names_splitPlural (type : String) :
    Names type.toList (splitPlural type).1.toList (splitPlural type).2 := by
  unfold splitPlural
  dsimp only
  cases hbrackets : Text.dropEnd? ['[', ']'] (Text.trim type.toList) with
  | some element =>
    dsimp only
    rw [String.toList_ofList]
    exact .brackets (Text.dropEnd?_eq_some_iff.mp hbrackets)
  | none =>
    dsimp only
    cases harray : (Text.dropStart? "Array<".toList (Text.trim type.toList)).bind
        (Text.dropEnd? ['>']) with
    | some element =>
      obtain ⟨rest, hrest, helement⟩ := Option.bind_eq_some_iff.mp harray
      rw [Text.dropStart?_eq_some_iff, Text.dropEnd?_eq_some_iff.mp helement] at hrest
      dsimp only
      rw [String.toList_ofList]
      exact .array hrest
    | none =>
      dsimp only
      rw [String.toList_ofList]
      refine .single (fun element h => ?_) fun element h => ?_
      · rw [Text.dropEnd?_eq_some_iff.mpr h] at hbrackets
        cases hbrackets
      · have helement : Text.dropEnd? ['>'] (element ++ ['>']) = some element :=
          Text.dropEnd?_eq_some_iff.mpr rfl
        rw [Text.dropStart?_eq_some_iff.mpr h, Option.bind_some, helement] at harray
        cases harray

/-- No type is written in two of the ways: the last characters differ. -/
theorem Names.unique {type element element' : List Char} {plural plural' : Bool}
    (h : Names type element plural) (h' : Names type element' plural') :
    element = element' ∧ plural = plural' := by
  have hlast : ∀ a b : List Char, a ++ ['[', ']'] ≠ "Array<".toList ++ (b ++ ['>']) := by
    intro a b he
    have hends := congrArg List.reverse he
    simp at hends
  cases h with
  | brackets h =>
    cases h' with
    | brackets h' => exact ⟨congrArg Text.trim (List.append_cancel_right (h.symm.trans h')), rfl⟩
    | array h' => exact absurd (h.symm.trans h') (hlast _ _)
    | single hbrackets => exact absurd h (hbrackets _)
  | array h =>
    cases h' with
    | brackets h' => exact absurd (h'.symm.trans h) (hlast _ _)
    | array h' =>
      have hsame := List.append_cancel_left (h.symm.trans h')
      exact ⟨congrArg Text.trim (List.append_cancel_right hsame), rfl⟩
    | single _ harray => exact absurd h (harray _)
  | single hbrackets harray =>
    cases h' with
    | brackets h' => exact absurd h' (hbrackets _)
    | array h' => exact absurd h' (harray _)
    | single => exact ⟨rfl, rfl⟩

/-- **A type is split** into what it names. -/
theorem splitPlural_eq_iff {type element : String} {plural : Bool} :
    splitPlural type = (element, plural) ↔ Names type.toList element.toList plural := by
  have hnames := names_splitPlural type
  constructor
  · intro h
    rwa [h] at hnames
  · intro h
    obtain ⟨helement, hplural⟩ := hnames.unique h
    exact Prod.ext (String.toList_inj.mp helement) hplural

end ModelRest.TypeName
