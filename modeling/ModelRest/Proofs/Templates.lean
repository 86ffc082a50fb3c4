import ModelRest.Proofs.Spans
import ModelRest.Route.Template
import Mathlib.Data.List.Forall2

/-!
# Segments of a template

A bound path and its shape are made segment by segment (`segments_convert`, `segments_shape`). The
shape forgets the names of parameters and nothing else (`shape_eq_iff`). Converting keeps how many
segments there are and leaves one of the two spellings of a parameter, the one with braces around
its name (`Template.Writes`); only a colon alone stays. So the bound path tells templates apart
exactly up to the spelling of their parameters (`convert_eq_iff`), and its shape exactly up to the
names as well (`shape_convert_eq_iff`).
-/

namespace ModelRest

namespace Template

variable {s s' name name' t u : List Char}

/-- The segments of a path. -/
def segments (path : List Char) : List (List Char) := Text.splitAll '/' path

/-- A segment of a template is written as the parameter of a name. -/
inductive Writes (name : List Char) : List Char → Prop where
  /-- With a colon before the name. -/
  | colon (h : name ≠ []) : Writes name (':' :: name)
  /-- With braces around the name. -/
  | braces : Writes name (parameter name)

/-- The segments are the same but for the name of a parameter. -/
def Agrees (s s' : List Char) : Prop :=
  s = s' ∨ ∃ name name', s = parameter name ∧ s' = parameter name'

/-- The bound paths are the same but for the names of parameters. -/
def Agree (path path' : List Char) : Prop := List.Forall₂ Agrees (segments path) (segments path')

/-- The segments are the same but for the spelling of a parameter. -/
def Respelled (s s' : List Char) : Prop := s = s' ∨ ∃ name, Writes name s ∧ Writes name s'

/-- The segments are the same but for the spelling and the name of a parameter. -/
def Renamed (s s' : List Char) : Prop := s = s' ∨ ∃ name name', Writes name s ∧ Writes name' s'

/-- The templates are the same but for the spelling of parameters. -/
def Respells (t u : List Char) : Prop := List.Forall₂ Respelled (segments t) (segments u)

/-- The templates are the same but for the spelling and the names of parameters. -/
def Renames (t u : List Char) : Prop := List.Forall₂ Renamed (segments t) (segments u)

/-! ### Segments -/

theorem parameter_inj : parameter name = parameter name' ↔ name = name' := by
  simp [parameter]

theorem head?_parameter (name : List Char) : (parameter name).head? = some '\x7b' := rfl

/-- A segment becomes a parameter exactly if it is written as one. -/
theorem convertSegment_eq_parameter_iff : convertSegment s = parameter name ↔ Writes name s := by
  constructor
  · intro h
    unfold convertSegment at h
    split at h
    · rw [← parameter_inj.mp h]
      exact .colon (List.cons_ne_nil _ _)
    · rw [h]
      exact .braces
  · rintro (h | -)
    · obtain ⟨c, rest, rfl⟩ := List.exists_cons_of_ne_nil h
      rfl
    · rfl

/-- A segment is written as a parameter, or stays as it is and has no colon before a name. -/
theorem convertSegment_cases (s : List Char) : (∃ name, Writes name s) ∨
    convertSegment s = s ∧ (s.head? = some ':' → s = [':']) := by
  unfold convertSegment
  split
  · exact .inl ⟨_, .colon (List.cons_ne_nil _ _)⟩
  · rename_i hno
    refine .inr ⟨rfl, fun hhead => ?_⟩
    obtain ⟨rest, rfl⟩ := List.head?_eq_some_iff.mp hhead
    cases rest with
    | nil => rfl
    | cons c rest => exact absurd rfl (hno c rest)

theorem convertSegment_convertSegment (s : List Char) :
    convertSegment (convertSegment s) = convertSegment s := by
  rcases convertSegment_cases s with ⟨name, h⟩ | ⟨h, -⟩
  · rw [convertSegment_eq_parameter_iff.mpr h]
    exact convertSegment_eq_parameter_iff.mpr .braces
  · rw [h, h]

/-- What a segment becomes begins with a colon only if it is a colon alone. -/
theorem eq_colon_of_head?_convertSegment (h : (convertSegment s).head? = some ':') :
    convertSegment s = [':'] := by
  rcases convertSegment_cases s with ⟨name, hs⟩ | ⟨hs, hcolon⟩
  · rw [convertSegment_eq_parameter_iff.mpr hs, head?_parameter] at h
    cases h
  · rw [hs] at h ⊢
    exact hcolon h

/-- Segments become the same exactly if they are the same but for spelling. -/
theorem convertSegment_eq_iff : convertSegment s = convertSegment s' ↔ Respelled s s' := by
  constructor
  · intro h
    rcases convertSegment_cases s with ⟨name, hs⟩ | ⟨hs, -⟩
    · rw [convertSegment_eq_parameter_iff.mpr hs] at h
      exact .inr ⟨name, hs, convertSegment_eq_parameter_iff.mp h.symm⟩
    · rcases convertSegment_cases s' with ⟨name, hs'⟩ | ⟨hs', -⟩
      · rw [convertSegment_eq_parameter_iff.mpr hs'] at h
        exact .inr ⟨name, convertSegment_eq_parameter_iff.mp h, hs'⟩
      · exact .inl (hs.symm.trans (h.trans hs'))
  · rintro (rfl | ⟨name, hs, hs'⟩)
    · rfl
    · rw [convertSegment_eq_parameter_iff.mpr hs, convertSegment_eq_parameter_iff.mpr hs']

/-! ### Names erased -/

theorem parameterName?_eq_some_iff : parameterName? s = some name ↔ s = parameter name := by
  constructor
  · intro h
    unfold parameterName? at h
    split at h
    · split at h
      · rename_i rest hlast
        rw [← Option.some.inj h]
        exact congrArg _ (List.dropLast_append_getLast? _ hlast).symm
      · cases h
    · cases h
  · rintro rfl
    simp [parameterName?, parameter]

theorem eraseName_parameter (name : List Char) : eraseName (parameter name) = parameter [] := by
  rw [eraseName, parameterName?_eq_some_iff.mpr rfl]

theorem eraseName_eq_self (h : ∀ name, s ≠ parameter name) : eraseName s = s := by
  unfold eraseName
  split
  · rename_i name hname
    exact absurd (parameterName?_eq_some_iff.mp hname) (h name)
  · rfl

/-- **A segment without the name of its parameter** says all but the name. -/
theorem eraseName_eq_iff : eraseName s = eraseName s' ↔ Agrees s s' := by
  constructor
  · intro h
    by_cases hs : ∃ name, s = parameter name
    · obtain ⟨name, rfl⟩ := hs
      by_cases hs' : ∃ name', s' = parameter name'
      · obtain ⟨name', rfl⟩ := hs'
        exact .inr ⟨name, name', rfl, rfl⟩
      · rw [eraseName_parameter, eraseName_eq_self (not_exists.mp hs')] at h
        exact absurd ⟨[], h.symm⟩ hs'
    · rw [eraseName_eq_self (not_exists.mp hs)] at h
      by_cases hs' : ∃ name', s' = parameter name'
      · obtain ⟨name', rfl⟩ := hs'
        rw [eraseName_parameter] at h
        exact absurd ⟨[], h⟩ hs
      · rw [eraseName_eq_self (not_exists.mp hs')] at h
        exact .inl h
  · rintro (rfl | ⟨name, name', rfl, rfl⟩)
    · rfl
    · rw [eraseName_parameter, eraseName_parameter]

/-- Segments become the same but for a name exactly if they are the same up to spelling and name. -/
theorem agrees_convertSegment_iff :
    Agrees (convertSegment s) (convertSegment s') ↔ Renamed s s' := by
  simp only [Agrees, convertSegment_eq_iff, convertSegment_eq_parameter_iff]
  constructor
  · rintro ((rfl | ⟨name, h, h'⟩) | hnames)
    · exact .inl rfl
    · exact .inr ⟨name, name, h, h'⟩
    · exact .inr hnames
  · rintro (rfl | hnames)
    · exact .inl (.inl rfl)
    · exact .inr hnames

/-! ### Paths -/

/-- A path is known by its segments. -/
theorem segments_inj : segments t = segments u ↔ t = u := by
  refine ⟨fun h => ?_, congrArg segments⟩
  rw [← Text.join_splitAll '/' t, ← Text.join_splitAll '/' u]
  exact congrArg (Text.join '/') h

/-- Segments that are changed one by one without slashes are the segments of the whole. -/
theorem segments_join_map {f : List Char → List Char} (hf : ∀ s, '/' ∉ s → '/' ∉ f s)
    (t : List Char) : segments (Text.join '/' ((segments t).map f)) = (segments t).map f := by
  refine Text.splitAll_join (by simp [segments, Text.splitAll_ne_nil]) fun piece hpiece => ?_
  obtain ⟨s, hs, rfl⟩ := List.mem_map.mp hpiece
  exact hf s (Text.not_mem_of_mem_splitAll hs)

theorem slash_not_mem_parameter (h : '/' ∉ name) : '/' ∉ parameter name := by
  simpa [parameter] using h

/-- **A template is converted segment by segment.** -/
theorem segments_convert (t : List Char) :
    segments (convert t) = (segments t).map convertSegment := by
  refine segments_join_map (fun s hs => ?_) t
  rcases convertSegment_cases s with ⟨name, h⟩ | ⟨h, -⟩
  · rw [convertSegment_eq_parameter_iff.mpr h]
    refine slash_not_mem_parameter ?_
    cases h with
    | colon => exact fun hname => hs (List.mem_cons_of_mem _ hname)
    | braces => exact fun hname => hs (by simp [parameter, hname])
  · rwa [h]

theorem segments_shape (path : List Char) :
    segments (shape path) = (segments path).map eraseName := by
  refine segments_join_map (fun s hs => ?_) path
  unfold eraseName
  split
  · exact slash_not_mem_parameter List.not_mem_nil
  · exact hs

/-- **The shape of a path** says all but the names of its parameters. -/
theorem shape_eq_iff : shape t = shape u ↔ Agree t u := by
  rw [← segments_inj, segments_shape, segments_shape, ← List.forall₂_eq_eq_eq,
    List.forall₂_map_left_iff, List.forall₂_map_right_iff]
  simp only [eraseName_eq_iff]
  rfl

theorem convert_convert (t : List Char) : convert (convert t) = convert t := by
  rw [← segments_inj, segments_convert, segments_convert, List.map_map]
  exact List.map_congr_left fun s _ => convertSegment_convertSegment s

/-- Templates have one path exactly if they are the same but for the spelling of parameters. -/
theorem convert_eq_iff : convert t = convert u ↔ Respells t u := by
  rw [← segments_inj, segments_convert, segments_convert, ← List.forall₂_eq_eq_eq,
    List.forall₂_map_left_iff, List.forall₂_map_right_iff]
  simp only [convertSegment_eq_iff]
  rfl

/-- Their paths agree exactly if they are the same but for spelling and names. -/
theorem agree_convert_iff : Agree (convert t) (convert u) ↔ Renames t u := by
  rw [Agree, segments_convert, segments_convert, List.forall₂_map_left_iff,
    List.forall₂_map_right_iff]
  simp only [agrees_convertSegment_iff]
  rfl

theorem shape_convert_eq_iff : shape (convert t) = shape (convert u) ↔ Renames t u :=
  shape_eq_iff.trans agree_convert_iff

/-- Another name at one place gives another path of the same shape. -/
theorem convert_ne_of_writes {before after : List (List Char)}
    (ht : segments t = before ++ s :: after) (hu : segments u = before ++ s' :: after)
    (hs : Writes name s) (hs' : Writes name' s') (hne : name ≠ name') :
    convert t ≠ convert u ∧ shape (convert t) = shape (convert u) := by
  constructor
  · intro h
    have hsegments := congrArg segments h
    rw [segments_convert, segments_convert, ht, hu, List.map_append, List.map_append,
      List.append_cancel_left_eq, List.map_cons, List.map_cons, List.cons.injEq,
      convertSegment_eq_parameter_iff.mpr hs, convertSegment_eq_parameter_iff.mpr hs'] at hsegments
    exact hne (parameter_inj.mp hsegments.1)
  · have hsame : ∀ segments, List.Forall₂ Renamed segments segments := fun segments =>
      List.forall₂_same.mpr fun s _ => .inl rfl
    rw [shape_convert_eq_iff, Renames, ht, hu]
    exact List.rel_append (hsame before) (.cons (.inr ⟨name, name', hs, hs'⟩) (hsame after))

end Template

end ModelRest
