import ModelRest.Parameters
import ModelRest.Proofs.Effects
import ModelRest.Proofs.JsonText
import ModelRest.Proofs.WrittenForm

/-!
# The notations of includes

A list of includes has three notations: the names of its includes with commas between them
(`Include.Spells`), a JSON array of these names, and a JSON array of objects. If the includes can be
told by their names (`Include.IsNamed`), each of the three is read as the list that it was written
for: `Include.parse_notations`. The names are found again by cutting the text at its commas, however
it is spaced, and each is cut at its first point only, so that a point in what is selected stays.
-/

namespace ModelRest.Include

open Text (isBlank)

/-! ### Names -/

/-- The name of an include: its path and, after a point, what it selects. -/
def name (i : Include) : List Char :=
  match i.select with
  | some select => i.path.toList ++ '.' :: select.toList
  | none => i.path.toList

/-- The include can be told by its name. -/
structure IsNamed (i : Include) : Prop where
  /-- It has a path. -/
  path_ne : i.path.toList ≠ []
  /-- There is neither a comma nor a point in the path. -/
  comma_path : ',' ∉ i.path.toList
  point_path : '.' ∉ i.path.toList
  /-- What it selects is not empty and has no comma. -/
  select_ne : ∀ select, i.select = some select → select.toList ≠ []
  comma_select : ∀ select, i.select = some select → ',' ∉ select.toList
  /-- There is no blank space at the ends of its name. -/
  trimmed : Text.Trimmed isBlank i.name

variable {i : Include} {is : List Include} {pieces : List (List Char)}

theorem IsNamed.ofName_name (h : i.IsNamed) : ofName i.name = i := by
  obtain ⟨path, select⟩ := i
  unfold ofName name
  cases select with
  | none =>
    have hend : Text.dropEndWhile (· == '.') path.toList = path.toList := by
      refine Text.dropEndWhile_of_getLast? fun c hc => ?_
      have hne : c ≠ '.' := fun he => h.point_path (he ▸ List.mem_of_getLast? hc)
      simpa using hne
    simp only [Text.splitFirst?_of_not_mem h.point_path, hend, String.ofList_toList]
  | some select =>
    have hselect := h.select_ne select rfl
    obtain ⟨c, cs, hcs⟩ := List.exists_cons_of_ne_nil hselect
    simp only [Text.splitFirst?_append h.point_path]
    rw [hcs]
    dsimp only
    rw [← hcs, String.ofList_toList, String.ofList_toList]

theorem IsNamed.comma_name (h : i.IsNamed) : ',' ∉ i.name := by
  unfold name
  cases hs : i.select with
  | none => exact h.comma_path
  | some select =>
    simp [h.comma_path, h.comma_select select hs]

theorem IsNamed.exists_name (h : i.IsNamed) : ∃ c cs, i.name = c :: cs := by
  obtain ⟨c, cs, hcs⟩ := List.exists_cons_of_ne_nil h.path_ne
  unfold name
  rw [hcs]
  cases i.select with
  | none => exact ⟨c, cs, rfl⟩
  | some select => exact ⟨c, _, rfl⟩

/-! ### Names between commas -/

/-- The pieces that spell a list between commas: the name of each include with blank space around
it, and as many pieces with nothing but blank space as one likes. -/
inductive Spells : List Include → List (List Char) → Prop where
  | nil : Spells [] []
  | blank {is : List Include} {pieces : List (List Char)} {piece : List Char}
    (hblank : ∀ c ∈ piece, isBlank c = true) (h : Spells is pieces) : Spells is (piece :: pieces)
  | named {i : Include} {is : List Include} {pieces : List (List Char)} {before after : List Char}
    (hbefore : ∀ c ∈ before, isBlank c = true) (hafter : ∀ c ∈ after, isBlank c = true)
    (h : Spells is pieces) : Spells (i :: is) ((before ++ i.name ++ after) :: pieces)

theorem comma_not_blank {cs : List Char} (h : ∀ c ∈ cs, isBlank c = true) : ',' ∉ cs := by
  intro hmem
  cases h ',' hmem

theorem Spells.comma_not_mem (h : Spells is pieces) (hn : ∀ i ∈ is, i.IsNamed) :
    ∀ piece ∈ pieces, ',' ∉ piece := by
  induction h with
  | nil => exact fun _ h => nomatch h
  | blank hblank _ ih => exact List.forall_mem_cons.mpr ⟨comma_not_blank hblank, ih hn⟩
  | named hbefore hafter _ ih =>
    obtain ⟨hi, hn⟩ := List.forall_mem_cons.mp hn
    refine List.forall_mem_cons.mpr ⟨?_, ih hn⟩
    simp [comma_not_blank hbefore, comma_not_blank hafter, hi.comma_name]

/-- What is left of the pieces are the names. -/
theorem Spells.filter_map_trim (h : Spells is pieces) (hn : ∀ i ∈ is, i.IsNamed) :
    (pieces.map Text.trim).filter (!·.isEmpty) = is.map name := by
  induction h with
  | nil => rfl
  | @blank is pieces piece hblank _ ih =>
    have htrim : Text.trim piece = [] := by
      have hempty : Text.Trimmed isBlank [] := ⟨nofun, nofun⟩
      have hpiece := Text.trimBy_append hblank (List.forall_mem_nil _) hempty
      rwa [List.append_nil, List.append_nil] at hpiece
    rw [List.map_cons, htrim, List.filter_cons_of_neg (by simp), ih hn]
  | @named i is pieces before after hbefore hafter _ ih =>
    obtain ⟨hi, hn⟩ := List.forall_mem_cons.mp hn
    have htrim : Text.trim (before ++ i.name ++ after) = i.name :=
      Text.trimBy_append hbefore hafter hi.trimmed
    obtain ⟨c, cs, hname⟩ := hi.exists_name
    rw [List.map_cons, htrim, List.filter_cons_of_pos (by simp [hname]), ih hn, List.map_cons]

theorem Spells.ofNames_join (h : Spells is pieces) (hn : ∀ i ∈ is, i.IsNamed) :
    ofNames (Text.join ',' pieces) = is := by
  have hitems : Text.items ',' (Text.join ',' pieces) = is.map name := by
    rcases eq_or_ne pieces [] with rfl | hne
    · cases h
      rfl
    · unfold Text.items
      rw [Text.splitAll_join hne (h.comma_not_mem hn), h.filter_map_trim hn]
  have hnames : ∀ i ∈ is, ofName i.name = i := fun i hi => (hn i hi).ofName_name
  calc ofNames (Text.join ',' pieces)
      = (Text.items ',' (Text.join ',' pieces)).map ofName := rfl
    _ = is.map fun i => ofName i.name := by rw [hitems, List.map_map]; rfl
    _ = is.map id := List.map_congr_left hnames
    _ = is := List.map_id is

/-- After the blank space at its beginning, the text goes on with a comma or with the first name. -/
theorem Spells.head?_trim (h : Spells is pieces) (hn : ∀ i ∈ is, i.IsNamed) {c : Char}
    (hc : (Text.trim (Text.join ',' pieces)).head? = some c) :
    c = ',' ∨ ∃ i, is.head? = some i ∧ i.name.head? = some c := by
  replace hc := Text.head?_dropWhile_of_trimBy hc
  have hsplit : ∀ piece rest, ∃ tail, Text.join ',' (piece :: rest) = piece ++ tail ∧
      (tail = [] ∨ ∃ more, tail = ',' :: more) := by
    intro piece rest
    cases rest with
    | nil => exact ⟨[], (List.append_nil piece).symm, .inl rfl⟩
    | cons next rest => exact ⟨_, rfl, .inr ⟨_, rfl⟩⟩
  cases h with
  | nil => cases hc
  | @blank _ pieces piece hblank =>
    obtain ⟨tail, htail, hcomma⟩ := hsplit piece pieces
    rw [htail, List.dropWhile_append_of_pos hblank] at hc
    rcases hcomma with rfl | ⟨more, rfl⟩
    · cases hc
    · exact .inl (Option.some.inj hc).symm
  | @named i is pieces before after hbefore =>
    have hi := hn i (List.mem_cons_self ..)
    obtain ⟨d, ds, hname⟩ := hi.exists_name
    have hd : isBlank d = false := hi.trimmed.1 d (by rw [hname]; rfl)
    obtain ⟨tail, htail, -⟩ := hsplit (before ++ i.name ++ after) pieces
    rw [htail, List.append_assoc, List.append_assoc, List.dropWhile_append_of_pos hbefore, hname,
      List.cons_append, List.dropWhile_cons_of_neg (by simp [hd])] at hc
    exact .inr ⟨i, rfl, by rw [hname]; exact hc⟩

/-! ### JSON values -/

theorem ofItem?_toJson (i : Include) : ofItem? i.toJson = .ok i := by
  obtain ⟨path, select⟩ := i
  have hread : ofJson? (toJson ⟨path, select⟩) = some ⟨path, select⟩ := by
    unfold ofJson? toJson
    cases select <;> rw [Json.record?_ofMembers (by simp)] <;> rfl
  obtain ⟨members, hmembers⟩ : ∃ members, toJson ⟨path, select⟩ = .object members := ⟨_, rfl⟩
  rw [hmembers] at hread ⊢
  simp only [ofItem?, hread]

/-- The text of an array is read item by item. -/
theorem parse_eq_mapM {raw : String} {items : List Json}
    (h : Json.parse? raw = some (.array items)) : parse raw = items.mapM ofItem? := by
  have htrim := Json.parse?_trim h
  unfold parse
  cases htext : Text.trim raw.toList with
  | nil =>
    rw [htext, Json.parse?_nil] at htrim
    cases htrim
  | cons c rest =>
    rw [htext] at htrim
    have hhead : (Text.trim raw.toList).head? = some c := by
      rw [htext]
      rfl
    have hc : isBlank c = false := Text.not_of_head?_trimBy hhead
    dsimp only
    rcases Json.begins_of_parse? (Json.isSpace_of_not_isBlank hc) htrim with rfl | rfl
    · simp only [htrim]
      rfl
    · simp only [htrim]
      rfl

/-- The JSON array of the names. -/
def namesJson (is : List Include) : Json :=
  .array (is.map fun i => .string (String.ofList i.name))

/-- The JSON array of the objects. -/
def objectsJson (is : List Include) : Json := .array (is.map toJson)

theorem mapM_ofItem?_map {write : Include → Json} (h : ∀ i ∈ is, ofItem? (write i) = .ok i) :
    (is.map write).mapM ofItem? = .ok is := by
  rw [mapM_eq_ok_iff, List.forall₂_map_left_iff]
  exact List.forall₂_same.mpr h

/-- The array of the names is read from its text. -/
theorem parse?_render_namesJson (is : List Include) :
    Json.parse? (namesJson is).render = some (namesJson is) := by
  have hlegible : Json.Legible 1 (namesJson is) := Json.legible_array fun v hv => by
    obtain ⟨i, -, rfl⟩ := List.mem_map.mp hv
    exact Json.legible_string _
  rw [hlegible.parse?_render (by decide), namesJson, Json.canonical_array fun v hv => ?_]
  obtain ⟨i, -, rfl⟩ := List.mem_map.mp hv
  rfl

/-- The array of the objects is read from its text. -/
theorem parse?_render_objectsJson (is : List Include) :
    Json.parse? (objectsJson is).render = some (objectsJson is) := by
  have hobject : ∀ i : Include, Json.Legible 1 i.toJson ∧ i.toJson.canonical = i.toJson := by
    rintro ⟨path, _ | select⟩
    · exact ⟨Json.legible_object (List.forall_mem_singleton.mpr (Json.legible_string _)), rfl⟩
    · have hmembers : ∀ p ∈ [("path", Json.string path), ("select", .string select)],
          Json.Legible 0 p.2 := List.forall_mem_cons.mpr
        ⟨Json.legible_string _, List.forall_mem_singleton.mpr (Json.legible_string _)⟩
      have hsorted : KeyMap.Sorted [("path", Json.string path), ("select", .string select)] :=
        List.pairwise_pair.mpr (show "path" < "select" by decide)
      have hwritten : toJson ⟨path, some select⟩ =
          .object [("path", .string path), ("select", .string select)] :=
        congrArg Json.object hsorted.ofPairs_eq
      rw [hwritten]
      exact ⟨Json.legible_object hmembers, congrArg Json.object hsorted.ofPairs_eq⟩
  have hlegible : Json.Legible 2 (objectsJson is) := Json.legible_array fun v hv => by
    obtain ⟨i, -, rfl⟩ := List.mem_map.mp hv
    exact (hobject i).1
  rw [hlegible.parse?_render (by decide), objectsJson, Json.canonical_array fun v hv => ?_]
  obtain ⟨i, -, rfl⟩ := List.mem_map.mp hv
  exact (hobject i).2

/-- **The three notations agree.** A list of includes that can be told by their names, the first of
which does not begin like a JSON value, is read from its names between commas, with any blank space
around them and any number of empty names among them; from every text of the JSON array of its
names; and from every text of the JSON array of its objects. There are such texts: the arrays are
read as they are written. -/
theorem parse_notations (hn : ∀ i ∈ is, i.IsNamed) (hfirst : ∀ i, is.head? = some i →
      ∀ c, i.name.head? = some c → c ≠ '[' ∧ c ≠ '\x7b') :
    (∀ pieces, Spells is pieces → parse (String.ofList (Text.join ',' pieces)) = .ok is) ∧
      ∀ v, v = namesJson is ∨ v = objectsJson is →
        Json.parse? v.render = some v ∧ ∀ raw, Json.parse? raw = some v → parse raw = .ok is := by
  refine ⟨fun pieces h => ?_, fun v hv => ?_⟩
  · have hbegins : ∀ c, (Text.trim (Text.join ',' pieces)).head? = some c →
        c ≠ '[' ∧ c ≠ '\x7b' := by
      intro c hc
      rcases h.head?_trim hn hc with rfl | ⟨i, hi, hc⟩
      · decide
      · exact hfirst i hi c hc
    have hnames : ofNames (Text.trim (Text.join ',' pieces)) = is := by
      refine Eq.trans ?_ (h.ofNames_join hn)
      exact congrArg (List.map ofName) (Text.items_trim (by decide) _)
    unfold parse
    rw [String.toList_ofList]
    dsimp only
    split
    · rename_i hb
      exact absurd rfl (hbegins '[' (by rw [hb]; rfl)).1
    · rename_i hb
      exact absurd rfl (hbegins '\x7b' (by rw [hb]; rfl)).2
    · rw [hnames]
  · rcases hv with rfl | rfl
    · refine ⟨parse?_render_namesJson is, fun raw h => (parse_eq_mapM h).trans ?_⟩
      refine mapM_ofItem?_map fun i hi => ?_
      show Except.ok (ofName (String.ofList i.name).toList) = _
      rw [String.toList_ofList, (hn i hi).ofName_name]
    · exact ⟨parse?_render_objectsJson is, fun raw h =>
        (parse_eq_mapM h).trans (mapM_ofItem?_map fun i _ => ofItem?_toJson i)⟩

/-- A part of the names of the authors, and the editor. -/
def authorsAndEditor : List Include :=
  [{ path := "authors", select := some "name.first" }, { path := "editor" }]

theorem authorsAndEditor_read :
    parse " authors.name.first ,, editor" = .ok authorsAndEditor ∧
      parse (namesJson authorsAndEditor).render = .ok authorsAndEditor ∧
      parse (objectsJson authorsAndEditor).render = .ok authorsAndEditor := by
  have hauthors : IsNamed { path := "authors", select := some "name.first" } :=
    ⟨by decide, by decide, by decide, by rintro _ ⟨⟩; decide, by rintro _ ⟨⟩; decide,
      by rintro _ ⟨⟩; rfl, by rintro _ ⟨⟩; rfl⟩
  have heditor : IsNamed { path := "editor" } :=
    ⟨by decide, by decide, by decide, nofun, nofun, by rintro _ ⟨⟩; rfl, by rintro _ ⟨⟩; rfl⟩
  have hspace : ∀ c ∈ [' '], isBlank c = true := List.forall_mem_singleton.mpr rfl
  have hnone : ∀ c ∈ ([] : List Char), isBlank c = true := List.forall_mem_nil _
  have hspells : Spells authorsAndEditor
      [[' '] ++ "authors.name.first".toList ++ [' '], [], [' '] ++ "editor".toList ++ []] :=
    .named hspace hspace (.blank hnone (.named hspace hnone .nil))
  have hnamed : ∀ i ∈ authorsAndEditor, i.IsNamed :=
    List.forall_mem_cons.mpr ⟨hauthors, List.forall_mem_singleton.mpr heditor⟩
  obtain ⟨hnames, hjson⟩ := parse_notations hnamed (by
    rintro _ ⟨⟩ _ ⟨⟩
    decide)
  have hread : ∀ v, v = namesJson authorsAndEditor ∨ v = objectsJson authorsAndEditor →
      parse v.render = .ok authorsAndEditor := fun v hv => (hjson v hv).2 _ (hjson v hv).1
  exact ⟨hnames _ hspells, hread _ (.inl rfl), hread _ (.inr rfl)⟩

end ModelRest.Include
