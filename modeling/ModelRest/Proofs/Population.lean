import ModelRest.Proofs.Actions
import ModelRest.Proofs.Disclosure
import ModelRest.Proofs.ReadBack
import ModelRest.Proofs.Resolution

/-!
# Populating and simplifying

Populating a reference puts records in the place of identifiers, and simplifying puts identifiers in
the place of whatever has one. That the second undoes the first, `populate_simplify`, rests on three
things: the field that is populated leads to the factory that the schema's reference names
(`Registry.Filled.target_eq_ok`); every record carries the identifier that it is kept under, in
every store that actions and requests make of an empty one (`Store.Arises.keyed`); and what is
selected of a record always has the identifier (`Reference.Expands`).
-/

namespace ModelRest

/-! ### Stores that arise -/

/-- The store came from one without records by actions of models and requests to them, whatever the
models were. -/
inductive Store.Arises : Store → Prop where
  /-- Nothing is stored. -/
  | empty {s : Store} (h : ∀ number collection, s.records number collection = []) : Arises s
  /-- One thing more was done. -/
  | step {r : Registry} {s s' : Store} (h : Arises s) (hstep : r.Step s s') : Arises s'

/-- **Every record carries the identifier that it is kept under.** -/
theorem Store.Arises.keyed {s : Store} (h : s.Arises) : s.Keyed := by
  induction h with
  | empty h => exact keyed_of_empty h
  | step _ hstep ih => exact Registry.Leads.keyed (.single hstep) ih

/-- What requests to the models of a server make of its store arises. -/
theorem Server.Reaches.arises {server : Server} (h : server.Assembled) {s : Store}
    (hs : server.Reaches s) : s.Arises :=
  hs.preserves (.empty h.empty) fun _ _ _ hf hs => hs.step (.request hf)

/-- The registry of an assembled server was filled by compiling. -/
theorem Server.Assembled.filled {server : Server} (h : server.Assembled) :
    server.registry.Filled := by
  obtain ⟨start, validators, hempty, hok⟩ := h.started
  obtain ⟨loaded, numbers, r, fs, hr, hfs, rfl⟩ := assemble_eq_ok hempty hok
  have hcompiled : r.Filled := by
    have hblank : Registry.Filled { validators := validators } := .empty rfl rfl
    have hleft := hblank.compiled start.connectors start.config.defaultDatasource loaded
    rwa [hr] at hleft
  exact hcompiled.setUp ⟨Registry.map_bare_setup hfs, rfl, rfl, rfl⟩

/-- The factory of a registered name is found by it. -/
theorem Server.find?_factory {server : Server} {name : String}
    (h : (server.registry.find? name).isSome = true) :
    server.registry.find? name = some (server.factory name) := by
  obtain ⟨f, hf⟩ := Option.isSome_iff_exists.mp h
  unfold factory
  rw [hf]
  rfl

/-! ### References that lead to records -/

namespace Reference

/-- The value is the identifier of a record, or an array of such. -/
inductive Points (c : Collection) : Json → Prop where
  /-- An identifier. -/
  | one {id : String} (h : KeyMap.contains c id = true) : Points c (.string id)
  /-- Several. -/
  | many {ids : List String} (h : ∀ id ∈ ids, KeyMap.contains c id = true) :
      Points c (.array (ids.map .string))

/-- The value is a text, or an array of texts. -/
inductive IsPlain : Json → Prop where
  /-- A text. -/
  | one (text : String) : IsPlain (.string text)
  /-- Several. -/
  | many (texts : List String) : IsPlain (.array (texts.map .string))

/-- The second value is the record that the first one names, or its identifier and one property. -/
inductive Expands (c : Collection) (select : Option String) : Json → Json → Prop where
  /-- The record has the identifier in any case. -/
  | record {id : String} {record : StoredRecord} {values : Object}
      (hget : KeyMap.get? c id = some record)
      (hid : KeyMap.get? values idField = some (.string id))
      (hall : select = none → values = record.values)
      (hpart : ∀ property, select = some property → ∀ name, KeyMap.get? values name =
        if name = idField ∨ name = property then KeyMap.get? record.values name else none) :
      Expands c select (.string id) (.object values)

/-- The second value has the records that the first one names, in their order. -/
inductive ExpandsAll (c : Collection) (select : Option String) : Json → Json → Prop where
  /-- One record. -/
  | one {v w : Json} (h : Expands c select v w) : ExpandsAll c select v w
  /-- Several. -/
  | many {vs ws : List Json} (h : List.Forall₂ (Expands c select) vs ws) :
      ExpandsAll c select (.array vs) (.array ws)

variable {c : Collection} {select : Option String} {v w : Json}

/-- A plain value is simple already. -/
theorem IsPlain.simplify (h : IsPlain v) : Reference.simplify v = v := by
  cases h with
  | one text => rfl
  | many texts =>
    have hitems : (texts.map Json.string).map simplifyOne = texts.map .string := by
      rw [List.map_map]
      rfl
    exact congrArg Json.array hitems

/-- A record is simplified to the identifier that it was expanded from. -/
theorem Expands.simplifyOne (h : Expands c select v w) : Reference.simplifyOne w = v := by
  cases h with
  | record _ hid _ _ =>
    unfold Reference.simplifyOne Json.member? Json.object?
    rw [Option.bind_some, hid]

theorem ExpandsAll.simplify (h : ExpandsAll c select v w) : Reference.simplify w = v := by
  cases h with
  | one h =>
    have hone := h.simplifyOne
    cases h with
    | record => exact hone
  | @many vs ws h =>
    have hitems : ws.map Reference.simplifyOne = vs.map id :=
      forall₂_map_eq h fun _ _ h => h.simplifyOne
    rw [List.map_id] at hitems
    exact congrArg Json.array hitems

/-- In a store whose records carry their identifiers, an identifier is filled in by its record. -/
theorem expands_filledOne {s : Store} (hs : s.Keyed) {number : Nat} {collection id : String}
    (h : KeyMap.contains (s.records number collection) id = true) (select : Option String) :
    Expands (s.records number collection) select (.string id)
      (filledOne (s.records number collection) select (.string id)) := by
  obtain ⟨record, hget⟩ := Option.isSome_iff_exists.mp h
  have hkeyed := hs _ _ _ _ hget
  rw [filledOne_of_stored rfl hget]
  refine .record hget (get?_selectedValues.mpr ⟨hkeyed, .inr (.inr rfl)⟩) ?_ ?_
  · rintro rfl
    rfl
  · rintro property rfl name
    exact get?_selectedValues_some

theorem Points.expandsAll {s : Store} (hs : s.Keyed) {number : Nat} {collection : String}
    (h : Points (s.records number collection) v) (select : Option String) :
    ExpandsAll (s.records number collection) select v
      (filled (s.records number collection) select v) := by
  cases h with
  | one h => exact .one (expands_filledOne hs h select)
  | many h =>
    refine .many ?_
    rw [List.map_map, List.forall₂_map_left_iff, List.forall₂_map_right_iff]
    exact List.forall₂_same.mpr fun id hid => expands_filledOne hs (h id hid) select

theorem Points.ne_null (h : Points c v) : v ≠ .null := by
  cases h <;> exact nofun

end Reference

/-! ### Simplifying objects -/

namespace Factory

variable {f : Factory} {m : Object}

/-- Simplifying leaves the names as they are. -/
theorem sorted_simplifyValues (hm : KeyMap.Sorted m) : KeyMap.Sorted (f.simplifyValues m) :=
  List.pairwise_map.mpr hm

/-- Where one reference is simplified to what it was, and the others stay as they are, simplifying
gives the values back. -/
theorem simplifyValues_insert (hm : KeyMap.Sorted m) {key : String} {v w : Json}
    (hkey : KeyMap.contains f.schema.references key = true) (hv : KeyMap.get? m key = some v)
    (hw : Reference.simplify w = v)
    (hothers : ∀ name v, name ≠ key → KeyMap.contains f.schema.references name = true →
      KeyMap.get? m name = some v → Reference.simplify v = v) :
    f.simplifyValues (KeyMap.insert m key w) = m := by
  refine (sorted_simplifyValues (hm.insert key w)).eq_of_get? hm fun name => ?_
  rw [get?_simplifyValues]
  by_cases hname : key = name
  · subst hname
    rw [KeyMap.get?_insert_self, hv, hkey, Option.map_some, if_pos rfl, hw]
  · rw [KeyMap.get?_insert_of_ne _ _ hname]
    cases hget : KeyMap.get? m name with
    | none => rfl
    | some v' =>
      rw [Option.map_some]
      split
      · rename_i href
        rw [hothers name v' (Ne.symm hname) href hget]
      · rfl

end Factory

namespace Registry

variable {r : Registry} {f target : Factory}

/-- A reference of a compiled factory leads to the factory that the schema names. -/
theorem Filled.target_eq_ok (hr : r.Filled) (hf : r.find? f.name = some f) {key : String}
    {info : ReferenceInfo} (hkey : KeyMap.get? f.schema.references key = some info)
    (ht : r.find? info.target = some target) : r.target f key = .ok target := by
  obtain ⟨hresolving, halive⟩ := hr.resolving
  cases hs : f.schema? with
  | none =>
    unfold Factory.schema at hkey
    rw [hs] at hkey
    cases hkey
  | some s =>
    have hschema : f.schema = s := by
      unfold Factory.schema
      rw [hs]
      rfl
    rw [hschema] at hkey
    obtain ⟨-, entry, hentry, htarget⟩ := hresolving.leadsTo_of_find? hf hs key info hkey
    unfold Registry.target Factory.target? resolve
    rw [hschema, hentry, Option.bind_some, htarget]
    simp only [halive, if_true, ht]

end Registry

/-- **Simplifying undoes populating.** A reference of a compiled factory whose value names records
that are stored, all of them, is populated without fail: nothing else changes, each identifier is
replaced by its record, or by the identifier and the property selected of it, and simplifying the
references gives back what there was, if the other references were simple. -/
theorem populate_simplify {r : Registry} (hr : r.Filled) {f : Factory}
    (hf : r.find? f.name = some f) {key : String} {info : ReferenceInfo}
    (hkey : KeyMap.get? f.schema.references key = some info) {target : Factory}
    (ht : r.find? info.target = some target) {number : Nat} {collection : String}
    (hb : target.actions? = some (.memory number collection)) {s : Store} (hs : s.Arises)
    {m : Object} (hm : KeyMap.Sorted m) {v : Json} (hv : KeyMap.get? m key = some v)
    (hpoints : Reference.Points (s.records number collection) v)
    (hothers : ∀ name v, name ≠ key → KeyMap.contains f.schema.references name = true →
      KeyMap.get? m name = some v → Reference.IsPlain v)
    {params : Parameters} {wanted : Include} (hwanted : params.include? key = some wanted) :
    ∃ m' w, r.populateField f params (.object m) key s = .ok (.object m') s ∧
      (∀ name, name ≠ key → KeyMap.get? m' name = KeyMap.get? m name) ∧
      KeyMap.get? m' key = some w ∧
      Reference.ExpandsAll (s.records number collection) wanted.select v w ∧
      f.simplifyReferences (.object m') = .object m := by
  have hexpands := hpoints.expandsAll hs.keyed wanted.select
  refine ⟨_, _, Registry.populateField_memory hwanted hv hpoints.ne_null
    (hr.target_eq_ok hf hkey ht) hb, fun name hne => KeyMap.get?_insert_of_ne _ _ (Ne.symm hne),
    KeyMap.get?_insert_self .., hexpands, ?_⟩
  have hcontains : KeyMap.contains f.schema.references key = true := by
    rw [KeyMap.contains, hkey]
    rfl
  have hvalues := Factory.simplifyValues_insert hm hcontains hv hexpands.simplify
    fun name v hne href hget => (hothers name v hne href hget).simplify
  exact congrArg Json.object hvalues

namespace Anthologizing

/-- An anthology has authors and an editor; editors are authors by another name. -/
def classes : List ClassDecl :=
  [(ClassDecl.named "Editor").decorate
      { name := "model", args := [.ofMembers [("linkedFactory", .string "Author")]] },
    { ClassDecl.model "Anthology" with
      members := [Lending.property "authors" "Editor[]" [],
        Lending.property "editor" "Editor" []] },
    { ClassDecl.model "Author" with
      members := [Lending.property "name" "string" [], Lending.property "born" "number" []] }]

/-- The server with its models set up. -/
def server : Server := stateLeft (Server.assemble (.storing "anthologizing" classes))

theorem assembled : server.Assembled := Server.assembled_storing (by decide +kernel)

/-- The factory of anthologies. -/
def anthologies : Factory := server.factory "Anthology"

/-- The factory of editors. -/
def editors : Factory := server.factory "Editor"

theorem editors_found : server.registry.find? "Editor" = some editors :=
  Server.find?_factory (by decide +kernel)

/-- Editors are stored as authors. -/
theorem editors_actions : editors.actions? = some (.memory 0 "Author") :=
  Lending.eq_of_collection? (by decide +kernel)

/-- The store with two authors, one of them made as an editor. -/
def store : Store := server.storeAfter
  [("Author", .create, { body := .object [("_id", .string "a1"), ("name", .string "Jane")] }),
    ("Editor", .create, { body := .object [("_id", .string "a2"), ("name", .string "Mary")] })]

theorem store_arises : store.Arises :=
  (Server.reaches_storeAfter (by decide +kernel)).arises assembled

/-- An anthology of both, edited by the first. -/
def anthology : Object :=
  [("authors", .array (["a2", "a1"].map .string)), ("editor", .string "a1")]

/-- A request for the names of the authors. -/
def named : Parameters := { includes := [{ path := "authors", select := some "name" }] }

/-- The authors of an anthology are looked up under their other name, in its order, and simplified
to what they were. -/
theorem authors_simplified : ∃ m' w,
    server.registry.populateField anthologies named (.object anthology) "authors" store =
        .ok (.object m') store ∧
      (∀ name, name ≠ "authors" → KeyMap.get? m' name = KeyMap.get? anthology name) ∧
      KeyMap.get? m' "authors" = some w ∧
      Reference.ExpandsAll (store.records 0 "Author") (some "name")
        (.array (["a2", "a1"].map .string)) w ∧
      anthologies.simplifyReferences (.object m') = .object anthology := by
  have hname : anthologies.name = "Anthology" := by decide +kernel
  have hfound : server.registry.find? anthologies.name = some anthologies := by
    rw [hname]
    exact Server.find?_factory (by decide +kernel)
  have hkey : KeyMap.get? anthologies.schema.references "authors" =
      some { target := "Editor" } := by decide +kernel
  have hsorted : KeyMap.Sorted anthology := List.pairwise_pair.mpr (by decide)
  have hpoints : Reference.Points (store.records 0 "Author") (.array (["a2", "a1"].map .string)) :=
    .many (by decide +kernel)
  have hothers : ∀ name v, name ≠ "authors" →
      KeyMap.contains anthologies.schema.references name = true →
      KeyMap.get? anthology name = some v → Reference.IsPlain v := by
    intro name v hne _ hget
    rw [anthology, KeyMap.get?_cons, if_neg (Ne.symm hne), KeyMap.get?_cons] at hget
    split at hget
    · cases hget
      exact .one "a1"
    · cases hget
  have hwanted : named.include? "authors" = some { path := "authors", select := some "name" } := by
    decide
  exact populate_simplify assembled.filled hfound hkey editors_found editors_actions store_arises
    hsorted rfl hpoints hothers hwanted

end Anthologizing

end ModelRest
