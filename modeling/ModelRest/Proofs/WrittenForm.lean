import ModelRest.Declaration.Json
import ModelRest.Proofs.KeyMap

/-!
# Model sources written and read back

A model source is written as a JSON value with all its parts, and may be read from one that leaves
usual parts out and has others that are none. Reading gets back what was written: this is proved for
each kind of declaration, from decorator calls up to the items of nested namespaces, and
`SourceFile.ofJson?_written` says it of whole sources. A record is read by looking its parts up, so
the order in which they stand does not matter (`Json.record?_ofMembers`), and a tagged record reads
as the record that is left without its tag (`Json.tagged?_ofMembers`).
-/

namespace ModelRest

/-! ### Records -/

namespace Json

/-- Of a map in order every name is found once, or not at all. -/
theorem single?_of_sorted {members : Object} (h : KeyMap.Sorted members) (name : String) :
    single? members name = some (KeyMap.get? members name) := by
  unfold single?
  induction members with
  | nil => rfl
  | cons p rest ih =>
    obtain ⟨k, v⟩ := p
    obtain ⟨hlt, hrest⟩ := List.pairwise_cons.mp h
    rw [KeyMap.get?_cons]
    by_cases hk : k = name
    · -- the names after it are greater
      have hno : rest.filter (fun p => p.1 = name) = [] := by
        rw [List.filter_eq_nil_iff]
        intro p hp he
        have hself := hlt p hp
        rw [of_decide_eq_true he, hk] at hself
        exact String.lt_irrefl name hself
      rw [List.filter_cons_of_pos (by simpa using hk), hno, if_pos hk]
    · rw [List.filter_cons_of_neg (by simpa using hk), if_neg hk]
      exact ih hrest

/-- The parts of a record that was written are those that stand under their names. -/
theorem record?_ofMembers {parts : List (String × Json)} (hn : (parts.map Prod.fst).Nodup)
    (names : List String) :
    record? names (.ofMembers parts) = some (names.map (KeyMap.get? parts)) := by
  have hget : KeyMap.get? (KeyMap.ofPairs parts) = KeyMap.get? parts := by
    funext name
    exact KeyMap.get?_ofPairs_of_nodup hn name
  show names.mapM (single? (KeyMap.ofPairs parts)) = _
  rw [funext (single?_of_sorted (KeyMap.sorted_ofPairs parts)), hget]
  exact List.mapM_pure

/-- Of a tagged record that was written the tag names the kind, and the parts are left. -/
theorem tagged?_ofMembers (within : Bool) {kinds : List String} {kind : String}
    (hkind : kind ∈ kinds) {parts : List (String × Json)}
    (hn : ((("kind", Json.string kind) :: parts).map Prod.fst).Nodup) :
    tagged? within kinds (.ofMembers (("kind", .string kind) :: parts)) =
      some (kind, .ofMembers parts) := by
  have hget := KeyMap.get?_ofPairs_of_nodup hn
  obtain ⟨htag, hparts⟩ := List.nodup_cons.mp hn
  have hrest : (KeyMap.ofPairs (("kind", Json.string kind) :: parts)).filter
      (fun p => p.1 ≠ "kind") = KeyMap.ofPairs parts := by
    rw [← KeyMap.erase_eq_filter]
    refine ((KeyMap.sorted_ofPairs _).erase _).eq_of_get? (KeyMap.sorted_ofPairs _) fun name => ?_
    rw [KeyMap.get?_erase, hget, KeyMap.get?_ofPairs_of_nodup hparts, KeyMap.get?_cons]
    by_cases hname : "kind" = name
    · subst hname
      rw [if_pos rfl]
      refine (Option.not_isSome_iff_eq_none.mp fun hc => htag ?_).symm
      exact KeyMap.mem_keys_iff.mpr hc
    · rw [if_neg hname, if_neg hname]
  have htagged : kind? within kinds (.string kind) = some kind := by
    simp [kind?, hkind]
  unfold ofMembers tagged?
  simp only [single?_of_sorted (KeyMap.sorted_ofPairs _), hget, KeyMap.get?_cons, if_true, htagged,
    Option.map_some, hrest]

/-- An array is read item by item. -/
theorem list?_map {α : Type} {read : Json → Option α} {write : α → Json}
    (h : ∀ a, read (write a) = some a) (as : List α) :
    list? read (.array (as.map write)) = some as := by
  show (as.map write).mapM read = some as
  induction as with
  | nil => rfl
  | cons a as ih => simp [h, ih]

end Json

/-! ### Declarations -/

open Json (record? tagged? required? default? nullable? list? string? bool? record?_ofMembers
  tagged?_ofMembers list?_map)

theorem DecoratorCall.ofJson?_toJson (d : DecoratorCall) : ofJson? d.toJson = some d := by
  unfold ofJson? toJson
  rw [record?_ofMembers (by simp)]
  rfl

theorem Visibility.ofJson?_name (v : Visibility) : ofJson? (.string v.name) = some v := by
  cases v <;> rfl

theorem Initializer.ofJson?_name (i : Initializer) : ofJson? (.string i.name) = some i := by
  cases i <;> rfl

/-- The parts of a property that are written, after its tag. -/
def PropertyDecl.parts (p : PropertyDecl) : List (String × Json) :=
  [("name", .string p.name), ("type", .string p.type), ("visibility", .string p.visibility.name),
    ("initializer", .ofString? (p.initializer.map Initializer.name)),
    ("decorators", .array (p.decorators.map DecoratorCall.toJson))]

theorem PropertyDecl.ofJson?_parts (p : PropertyDecl) : ofJson? (.ofMembers p.parts) = some p := by
  have hinitializer : nullable? Initializer.ofJson?
      (.ofString? (p.initializer.map Initializer.name)) = some p.initializer := by
    cases p.initializer with
    | none => rfl
    | some i => exact congrArg (Option.map some) i.ofJson?_name
  unfold ofJson? parts
  rw [record?_ofMembers (by simp)]
  simp [KeyMap.get?_cons, required?, default?, string?, Visibility.ofJson?_name, hinitializer,
    list?_map DecoratorCall.ofJson?_toJson]

/-- The parts of a method that are written, after its tag. -/
def MethodDecl.parts (m : MethodDecl) : List (String × Json) :=
  [("name", .string m.name), ("static", .bool m.isStatic),
    ("visibility", .string m.visibility.name),
    ("decorators", .array (m.decorators.map DecoratorCall.toJson))]

theorem MethodDecl.ofJson?_parts (m : MethodDecl) : ofJson? (.ofMembers m.parts) = some m := by
  unfold ofJson? parts
  rw [record?_ofMembers (by simp)]
  simp [KeyMap.get?_cons, required?, default?, string?, bool?, Visibility.ofJson?_name,
    list?_map DecoratorCall.ofJson?_toJson]

/-- A member is read as it was written, within a tagged record or not. -/
theorem MemberDecl.ofJson?_toJson (within : Bool) (m : MemberDecl) :
    ofJson? within m.toJson = some m := by
  unfold ofJson?
  cases m with
  | property p =>
    have htagged : tagged? within ["property", "method"] (MemberDecl.toJson (.property p)) =
        some ("property", .ofMembers p.parts) :=
      tagged?_ofMembers within (by simp) (by simp)
    rw [htagged]
    exact congrArg (Option.map MemberDecl.property) p.ofJson?_parts
  | method m =>
    have htagged : tagged? within ["property", "method"] (MemberDecl.toJson (.method m)) =
        some ("method", .ofMembers m.parts) :=
      tagged?_ofMembers within (by simp) (by simp)
    rw [htagged]
    exact congrArg (Option.map MemberDecl.method) m.ofJson?_parts

/-- The parts of a class that are written, after its tag. -/
def ClassDecl.parts (c : ClassDecl) : List (String × Json) :=
  [("name", .string c.name), ("exported", .bool c.exported),
    ("documentation", .string c.documentation), ("extends", .ofString? c.superclass),
    ("decorators", .array (c.decorators.map DecoratorCall.toJson)),
    ("members", .array (c.members.map MemberDecl.toJson))]

theorem ClassDecl.ofJson?_parts (within : Bool) (c : ClassDecl) :
    ofJson? within (.ofMembers c.parts) = some c := by
  have hsuperclass : nullable? string? (.ofString? c.superclass) = some c.superclass := by
    cases c.superclass <;> rfl
  unfold ofJson? parts
  rw [record?_ofMembers (by simp)]
  simp [KeyMap.get?_cons, required?, default?, string?, bool?, hsuperclass,
    list?_map DecoratorCall.ofJson?_toJson, list?_map (MemberDecl.ofJson?_toJson within)]

/-! ### Items and sources -/

namespace SourceItem

/-- The items of a namespace are those under their name. -/
theorem ofMembers?_eq (members : List (String × Json)) :
    ofMembers? members = match KeyMap.get? members "items" with
      | none => some []
      | some v => ofItems? v := by
  induction members with
  | nil => rfl
  | cons p rest ih =>
    obtain ⟨k, v⟩ := p
    rw [ofMembers?, KeyMap.get?_cons]
    by_cases hk : k = "items"
    · rw [if_pos hk, if_pos hk]
    · rw [if_neg hk, if_neg hk, ih]

/-- The parts of a namespace that are written, after its tag. -/
def spaceParts (name : String) (items : List SourceItem) : List (String × Json) :=
  [("name", .string name), ("items", .array (listToJson items))]

theorem listToJson_eq_map (items : List SourceItem) : listToJson items = items.map toJson := by
  induction items with
  | nil => rfl
  | cons item rest ih => rw [listToJson, ih, List.map_cons]

mutual

/-- An item is read as it was written, within a namespace or not. -/
theorem ofJson?_toJson (within : Bool) : ∀ item : SourceItem, ofJson? within item.toJson = some item
  | .decl c => by
    have htagged : tagged? within ["class", "namespace"]
        (.object (KeyMap.ofPairs (("kind", .string "class") :: c.parts))) =
          some ("class", .ofMembers c.parts) :=
      tagged?_ofMembers within (by simp) (by simp [ClassDecl.parts])
    show ofJson? within (.object (KeyMap.ofPairs (("kind", .string "class") :: c.parts))) = _
    rw [ofJson?, htagged]
    exact congrArg (Option.map SourceItem.decl) (c.ofJson?_parts true)
  | .space name items => by
    have hn : ((("kind", Json.string "namespace") :: spaceParts name items).map
        Prod.fst).Nodup := by
      simp [spaceParts]
    have htagged : tagged? within ["class", "namespace"]
        (.object (KeyMap.ofPairs (("kind", .string "namespace") :: spaceParts name items))) =
          some ("namespace", .ofMembers (spaceParts name items)) :=
      tagged?_ofMembers within (by simp) hn
    -- the items stand under their name beside the tag
    have hget : KeyMap.get? (KeyMap.ofPairs (("kind", .string "namespace") ::
        spaceParts name items)) "items" = some (.array (listToJson items)) :=
      KeyMap.get?_ofPairs_of_nodup hn "items"
    have hrecord : record? ["name", "items"] (.ofMembers (spaceParts name items)) =
        some [some (.string name), some (.array (listToJson items))] :=
      record?_ofMembers (List.nodup_cons.mp hn).2 ["name", "items"]
    show ofJson? within
      (.object (KeyMap.ofPairs (("kind", .string "namespace") :: spaceParts name items))) = _
    rw [ofJson?, htagged]
    simp only [hrecord, required?, Option.bind_some, string?, ofMembers?_eq, hget, ofItems?,
      ofList?_listToJson items]
    rfl

/-- Items are read as they were written. -/
theorem ofList?_listToJson : ∀ items : List SourceItem, ofList? (listToJson items) = some items
  | [] => rfl
  | item :: rest => by
    rw [listToJson, ofList?, ofJson?_toJson true item, ofList?_listToJson rest]
    rfl

end

end SourceItem

/-- **A model source is read as it was written**, and a source that is read from whatever value is
written so that it is read again. -/
theorem SourceFile.ofJson?_written (file : SourceFile) (v : Json) :
    ofJson? file.toJson = some file ∧
      ((ofJson? v).bind fun read => ofJson? read.toJson) = ofJson? v := by
  have hwritten : ∀ file : SourceFile, ofJson? file.toJson = some file := by
    intro file
    have hitems : list? (SourceItem.ofJson? false) (.array (SourceItem.listToJson file.items)) =
        some file.items := by
      rw [SourceItem.listToJson_eq_map]
      exact list?_map (SourceItem.ofJson?_toJson false) file.items
    unfold ofJson? toJson
    rw [record?_ofMembers (by simp)]
    simp [KeyMap.get?_cons, default?, string?, hitems]
  refine ⟨hwritten file, ?_⟩
  cases ofJson? v with
  | none => rfl
  | some read => exact hwritten read

/-- A part that is none is gone when the source is written again, and usual parts are there. -/
example : (SourceFile.ofJson? (.ofMembers [("items", .array [.ofMembers [("kind", .string "class"),
      ("name", .string "Invoice"), ("colour", .string "red")]])])).map SourceFile.toJson =
    some (.ofMembers [("path", .string ""), ("items", .array [.ofMembers [("kind", .string "class"),
      ("name", .string "Invoice"), ("exported", .bool true), ("documentation", .string ""),
      ("extends", .null), ("decorators", .array []), ("members", .array [])]])]) := by
  decide +kernel

end ModelRest
