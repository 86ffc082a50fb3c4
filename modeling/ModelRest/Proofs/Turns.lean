import Mathlib.Logic.Function.Iterate
import ModelRest.Proofs.Updates
import ModelRest.Proofs.Validation

/-!
# The turns of validators

When a factory is initialized, every tag of every field gets the validator of the class, of the
connector or of every model, in this order (`Factory.FirstMatch`), and a tag for which there is none
gets no turn (`Factory.TakesTurns`, `takesTurns_of_init`). When an instance is validated, the turns
are taken up to the first that does not let the others follow (`RunsUpTo`). So what validation
leaves on an instance has a closed form, which does not depend on what was found about it before,
and validating once more changes nothing: `Factory.diagnose_of_init`.
-/

namespace ModelRest

/-! ### Up to the first that stops -/

/-- What has its turn in a list where nothing follows an item that does not go on. -/
inductive RunsUpTo {α : Type} (goesOn : α → Prop) : List α → List α → Prop where
  /-- All go on, and all have their turn. -/
  | all {xs : List α} (h : ∀ x ∈ xs, goesOn x) : RunsUpTo goesOn xs xs
  /-- The first that does not go on is the last that has its turn. -/
  | stops {before after : List α} {x : α} (h : ∀ y ∈ before, goesOn y) (hx : ¬goesOn x) :
    RunsUpTo goesOn (before ++ x :: after) (before ++ [x])

theorem RunsUpTo.cons {α : Type} {goesOn : α → Prop} {x : α} {xs ran : List α} (hx : goesOn x)
    (h : RunsUpTo goesOn xs ran) : RunsUpTo goesOn (x :: xs) (x :: ran) := by
  cases h with
  | all h => exact .all (List.forall_mem_cons.mpr ⟨hx, h⟩)
  | @stops before after y h hy =>
    have hbefore : ∀ y ∈ x :: before, goesOn y := List.forall_mem_cons.mpr ⟨hx, h⟩
    exact .stops hbefore hy

/-! ### Turns -/

/-- The turn of a validator. -/
structure Turn where
  /-- The field that it looks after. -/
  field : Field
  /-- The validator. -/
  validator : Validator

/-- What the validator answers in its turn. -/
def Turn.answer (t : Turn) (s : Store) (i : Instance) : Findings :=
  t.validator.check s i.model i.values t.field

namespace Factory

/-- What is found about an instance in some turns. -/
def foundIn (turns : List Turn) (s : Store) (i : Instance) : List Diagnosis :=
  turns.flatMap fun t => (t.answer s i).diagnoses

/-- The turns that validators attached to some fields have. -/
def turnsOf (fields : List Field) (attached : List AttachedValidator) : List Turn :=
  attached.filterMap fun a => (fields[a.field]?).map (Turn.mk · a.validator)

/-- What is found is what is found in the turns up to the first that stops. -/
theorem exists_runsUpTo (s : Store) (i : Instance) (fields : List Field)
    (attached : List AttachedValidator) : ∃ ran,
      RunsUpTo (fun t => (t.answer s i).proceed = true) (turnsOf fields attached) ran ∧
      findings s i.model i.values fields attached = foundIn ran s i := by
  induction attached with
  | nil => exact ⟨[], .all (List.forall_mem_nil _), rfl⟩
  | cons a rest ih =>
    obtain ⟨ran, hran, hfound⟩ := ih
    unfold findings
    cases ha : fields[a.field]? with
    | none =>
      have hturns : turnsOf fields (a :: rest) = turnsOf fields rest :=
        List.filterMap_cons_none (by rw [ha]; rfl)
      rw [hturns]
      exact ⟨ran, hran, hfound⟩
    | some field =>
      have hturns : turnsOf fields (a :: rest) = ⟨field, a.validator⟩ :: turnsOf fields rest :=
        List.filterMap_cons_some (by rw [ha]; rfl)
      rw [hturns]
      dsimp only
      by_cases hgo : (a.validator.check s i.model i.values field).proceed = true
      · refine ⟨⟨field, a.validator⟩ :: ran, hran.cons hgo, ?_⟩
        rw [if_pos hgo, hfound]
        rfl
      · refine ⟨[⟨field, a.validator⟩], RunsUpTo.stops (List.forall_mem_nil _) hgo, ?_⟩
        rw [if_neg hgo]
        rfl

variable {f g : Factory} {everywhere : KeyMap Validator} {binding : Option Actions}

/-- The validator is that of the class; or that of the connector, if the class has none for the tag;
or that of every model, if neither has one. -/
inductive FirstMatch (f : Factory) (everywhere : KeyMap Validator) (tag : String) (v : Validator) :
    Prop where
  | ofClass (h : KeyMap.get? f.cls.validators tag = some v)
  | ofConnector {c : Connector} (hclass : KeyMap.get? f.cls.validators tag = none)
      (hc : f.connector = some c) (h : c.validator? tag = some v)
  | ofEveryModel (hclass : KeyMap.get? f.cls.validators tag = none)
      (hconnector : ∀ c, f.connector = some c → c.validator? tag = none)
      (h : KeyMap.get? everywhere tag = some v)

theorem validator?_eq_some_iff {tag : String} {v : Validator} :
    f.validator? everywhere tag = some v ↔ f.FirstMatch everywhere tag v := by
  unfold validator?
  constructor
  · intro h
    rcases Option.or_eq_some_iff.mp h with h | ⟨hclass, h⟩
    · exact .ofClass h
    rcases Option.or_eq_some_iff.mp h with h | ⟨hconnector, h⟩
    · obtain ⟨c, hc, h⟩ := Option.bind_eq_some_iff.mp h
      exact .ofConnector hclass hc h
    · exact .ofEveryModel hclass (fun c hc => by rwa [hc] at hconnector) h
  · rintro (h | ⟨hclass, hc, h⟩ | ⟨hclass, hconnector, h⟩)
    · rw [h, Option.some_or]
    · rw [hclass, hc, Option.none_or, Option.bind_some, h, Option.some_or]
    · rw [hclass, Option.none_or, h]
      cases hc : f.connector with
      | none => rfl
      | some c => rw [Option.bind_some, hconnector c hc, Option.none_or]

/-- The turns that the tags of fields get: each that of the field with the first match, and none if
there is no match. -/
inductive TakesTurns (f : Factory) (everywhere : KeyMap Validator) :
    List (String × String) → List Turn → Prop where
  | nil : TakesTurns f everywhere [] []
  | takes {field : Field} {tag : String} {v : Validator} {rest : List (String × String)}
      {turns : List Turn} (hfield : field ∈ f.fields) (hv : f.FirstMatch everywhere tag v)
      (h : TakesTurns f everywhere rest turns) :
      TakesTurns f everywhere ((field.name, tag) :: rest) (⟨field, v⟩ :: turns)
  | skips {name tag : String} {rest : List (String × String)} {turns : List Turn}
      (hv : ∀ v, ¬f.FirstMatch everywhere tag v) (h : TakesTurns f everywhere rest turns) :
      TakesTurns f everywhere ((name, tag) :: rest) turns

theorem TakesTurns.append {xs ys : List (String × String)} {turns others : List Turn}
    (h : f.TakesTurns everywhere xs turns) (h' : f.TakesTurns everywhere ys others) :
    f.TakesTurns everywhere (xs ++ ys) (turns ++ others) := by
  induction h with
  | nil => exact h'
  | takes hfield hv _ ih => exact .takes hfield hv ih
  | skips hv _ ih => exact .skips hv ih

/-- The turns of a field. -/
def turns (f : Factory) (everywhere : KeyMap Validator) (field : Field) : List Turn :=
  field.tags.filterMap fun tag => (f.validator? everywhere tag).map (Turn.mk field)

theorem takesTurns_turns {field : Field} (hfield : field ∈ f.fields) :
    f.TakesTurns everywhere (field.tags.map (field.name, ·)) (f.turns everywhere field) := by
  unfold turns
  induction field.tags with
  | nil => exact .nil
  | cons tag rest ih =>
    rw [List.map_cons, List.filterMap_cons]
    cases hv : f.validator? everywhere tag with
    | none =>
      refine .skips (fun v hm => ?_) ih
      rw [validator?_eq_some_iff.mpr hm] at hv
      cases hv
    | some v => exact .takes hfield (validator?_eq_some_iff.mp hv) ih

end Factory

/-- The fields of a schema with their tags: the properties, then the references by name, and the
tags of each in the order of its metadata. -/
def ModelSchema.tagged (s : ModelSchema) : List (String × String) :=
  (s.properties ++ KeyMap.keys s.references).flatMap fun name =>
    (((s.spec? name).map FieldSpec.tags).getD []).map (name, ·)

namespace Factory

variable {f g : Factory} {everywhere : KeyMap Validator} {binding : Option Actions}

theorem tags_of_resolveField? {name : String} {o : Option Field}
    (h : f.resolveField? f.schema name = .ok o) :
    ((f.schema.spec? name).map FieldSpec.tags).getD [] = (o.map Field.tags).getD [] ∧
      ∀ field, o = some field → field.name = name := by
  unfold ModelSchema.spec?
  cases o with
  | none =>
    unfold resolveField? at h
    cases hentry : KeyMap.get? f.schema.prototype name with
    | none => exact ⟨rfl, fun _ h => nomatch h⟩
    | some entry =>
      rw [hentry] at h
      obtain ⟨_, -, h⟩ := map_eq_ok_iff.mp h
      cases h
  | some field =>
    obtain ⟨entry, hentry, hr⟩ := resolveField?_eq_some_iff.mp h
    obtain ⟨hname, visibility, rfl⟩ := Field.resolve_eq_ok hr
    refine ⟨?_, fun _ h => Option.some.inj h ▸ hname⟩
    rw [hentry, Option.bind_some]
    show (entry.spec?.map FieldSpec.tags).getD [] = (entry.spec?.getD {}).tags
    cases entry.spec? <;> rfl

/-- The validators that are found for the tags of some fields have the turns of these fields. -/
theorem turnsOf_attach (f : Factory) (everywhere : KeyMap Validator) (fields : List Field) :
    turnsOf fields (fields.zipIdx.flatMap (f.attach everywhere)) =
      fields.flatMap (f.turns everywhere) := by
  have hplace : ∀ p ∈ fields.zipIdx, turnsOf fields (f.attach everywhere p) =
      f.turns everywhere p.1 := by
    intro p hp
    unfold turnsOf turns attach
    rw [List.filterMap_filterMap]
    refine List.filterMap_congr fun tag _ => ?_
    rw [Option.bind_map]
    cases f.validator? everywhere tag with
    | none => rfl
    | some v => exact congrArg (Option.map _) (List.mk_mem_zipIdx_iff_getElem?.mp hp)
  calc turnsOf fields (fields.zipIdx.flatMap (f.attach everywhere))
      = fields.zipIdx.flatMap fun p => turnsOf fields (f.attach everywhere p) :=
        List.filterMap_flatMap
    _ = fields.zipIdx.flatMap fun p => f.turns everywhere p.1 := List.flatMap_congr hplace
    _ = (fields.zipIdx.map Prod.fst).flatMap (f.turns everywhere) := (List.flatMap_map ..).symm
    _ = fields.flatMap (f.turns everywhere) := by rw [List.zipIdx_map_fst]

/-- An initialized factory was given the validators that have the turns of its fields. -/
theorem turnsOf_of_init (h : g.init everywhere binding = .ok f) :
    turnsOf f.fields f.attached = f.fields.flatMap (f.turns everywhere) := by
  obtain ⟨schema, fields, -, -, rfl⟩ := Registry.init_eq_ok h
  exact turnsOf_attach g everywhere fields

/-- **The tags of the schema take their turns**, field by field and tag by tag, when a factory is
initialized. -/
theorem takesTurns_of_init (h : g.init everywhere binding = .ok f) :
    f.TakesTurns everywhere f.schema.tagged (turnsOf f.fields f.attached) := by
  rw [turnsOf_of_init h]
  obtain ⟨os, hos, hfields⟩ := resolveFields_eq_ok_iff.mp (resolveFields_of_init h)
  unfold ModelSchema.tagged
  have hmem : ∀ o ∈ os, ∀ field, o = some field → field ∈ f.fields := by
    rintro o ho field rfl
    rw [← hfields]
    exact List.mem_filterMap.mpr ⟨some field, ho, rfl⟩
  rw [← hfields]
  change List.Forall₂ _ (f.schema.properties ++ KeyMap.keys f.schema.references) os at hos
  generalize f.schema.properties ++ KeyMap.keys f.schema.references = names at hos
  clear hfields
  induction hos with
  | nil => exact .nil
  | @cons name o names os ho _ ih =>
    obtain ⟨htags, hname⟩ := tags_of_resolveField? ho
    have hrest := ih fun o ho => hmem o (List.mem_cons_of_mem _ ho)
    rw [List.flatMap_cons, htags]
    cases o with
    | none => exact hrest
    | some field =>
      cases hname field rfl
      exact (takesTurns_turns (hmem _ (List.mem_cons_self ..) field rfl)).append hrest

/-- Validation fails exactly if an error was found, and then it tells all that was found. -/
theorem verdict_eq_error_iff {i : Instance} {e : FactoryError} :
    verdict i = .error e ↔
      (∃ d ∈ i.diagnoses, d.severity = .error) ∧ e = .validation i.diagnoses := by
  have herrors : i.hasErrors = true ↔ ∃ d ∈ i.diagnoses, d.severity = .error := by
    simp [Instance.hasErrors, Diagnosis.isError]
  rw [← herrors]
  unfold verdict
  cases i.hasErrors <;> simp [eq_comm]

/-- **What validation leaves on an instance.** The validators of an initialized factory have their
turns field by field and tag by tag, each tag with its first match, up to the first that stops. What
is found in these turns takes the place of what was found before, however often the instance is
validated; validation fails exactly if an error is among it, and then it tells all of it; and
nothing else of the instance changes. -/
theorem diagnose_of_init (h : g.init everywhere binding = .ok f) (s : Store) (i : Instance) :
    ∃ turns ran found,
      f.TakesTurns everywhere f.schema.tagged turns ∧
      RunsUpTo (fun t => (t.answer s i).proceed = true) turns ran ∧
      found = foundIn ran s i ∧
      ∀ before, (∀ n, (f.diagnose s)^[n + 1] { i with diagnoses := before } =
          { i with diagnoses := found }) ∧
        ∀ e, verdict (f.diagnose s { i with diagnoses := before }) = .error e ↔
          (∃ d ∈ found, d.severity = .error) ∧ e = .validation found := by
  obtain ⟨ran, hran, hfound⟩ := exists_runsUpTo s i f.fields f.attached
  have honce : ∀ before, f.diagnose s { i with diagnoses := before } =
      { i with diagnoses := foundIn ran s i } := by
    intro before
    rw [diagnose_eq]
    exact congrArg (fun found => { i with diagnoses := found }) hfound
  refine ⟨_, ran, _, takesTurns_of_init h, hran, rfl, fun before => ⟨fun n => ?_, ?_⟩⟩
  · induction n with
    | zero => exact honce before
    | succ n ih => rw [Function.iterate_succ_apply', ih, honce]
  · rw [honce before]
    exact fun e => verdict_eq_error_iff

end Factory

namespace Cataloguing

/-- A book has a number, which is unique and checked, and a title. -/
def classes : List ClassDecl :=
  [{ ClassDecl.model "Book" with
     members := [Lending.property "number" "string" ["required", "checked", "unique"],
       Lending.property "title" "string" ["required"]] }]

/-- What looks after the decorator of the class: a number that is no text ends the validation. -/
def checked : Validator where
  name := "checked"
  check _ _ values field :=
    match KeyMap.get? values field.name with
    | some (.string _) => {}
    | _ => { diagnoses := [.errorAt field.name "no number"], proceed := false }

/-- The class has unique values looked up by hand, in place of the connector. -/
def unique : Validator where
  name := "unique"
  check _ _ _ field := { diagnoses :=
    [{ severity := .warning, message := "to be looked up", field := some field.name }] }

/-- The server before it loads the classes. -/
def start : Server :=
  { Server.storing "catalogue" classes with
    classes := [("Book",
      { name := "Book", validators := [("checked", checked), ("unique", unique)] })] }

/-- The server with its models set up. -/
def server : Server := stateLeft (Server.assemble start)

theorem assembled : server.Assembled := Server.assembled_storing_with (by decide +kernel)

/-- The factory of books. -/
def books : Factory := server.factory "Book"

theorem books_mem : books ∈ server.registry.made := Server.factory_mem (by decide +kernel)

/-- A book without a title, about which something was found before. -/
def draft : Instance :=
  { model := "Book", values := [("number", .number (.natural 7))]
    diagnoses := [.errorAt "title" "found before"] }

/-- What is found about it: the second turn warns, the third ends the validation, and so nobody
looks at the title. -/
def found : List Diagnosis :=
  [{ severity := .warning, message := "to be looked up", field := some "number" },
    .errorAt "number" "no number"]

theorem draft_diagnosed :
    (∀ n, (books.diagnose {})^[n + 1] draft = { draft with diagnoses := found }) ∧
      Factory.verdict (books.diagnose {} draft) = .error (.validation found) := by
  obtain ⟨g, binding, hinit⟩ := assembled.exists_init books books_mem
  obtain ⟨turns, ran, diagnoses, -, -, -, hall⟩ := Factory.diagnose_of_init hinit {} draft
  obtain ⟨hagain, hverdict⟩ := hall draft.diagnoses
  have hfound : diagnoses = found := by
    have hone : (books.diagnose {} draft).diagnoses = found := by decide +kernel
    exact (congrArg Instance.diagnoses (hagain 0)).symm.trans hone
  subst hfound
  exact ⟨hagain, (hverdict _).mpr ⟨by decide, rfl⟩⟩

end Cataloguing

end ModelRest
