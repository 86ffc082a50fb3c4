import ModelRest.Proofs.Uniqueness

/-!
# Records that obey their schema

A schema declares fields required, and the values that a field may have. `ModelSchema.Obeyed` says
that the values of a record are so. The validators look at an instance before it is written; after
that, its references are simplified and the store adds the identifier and the times. None of this can
break what the validators have accepted (`Factory.obeyed_of_accepts`). So every record obeys its
schema in every store that requests reach, whatever hooks do to the instances (`Server.obeyed`).
-/

namespace ModelRest

/-! ### What a schema declares -/

namespace ModelSchema

/-- There must be a value in the field. -/
def declaresRequired (s : ModelSchema) (name : String) : Bool :=
  (s.spec? name).any FieldSpec.required

/-- The values that the field may have, if the schema lists them. -/
def choices? (s : ModelSchema) (name : String) : Option (List Json) :=
  (s.spec? name).bind FieldSpec.allowed

/-- The values in a value of the field: the items of an array, of a field for several values, or else
the value alone. -/
def singles (s : ModelSchema) (name : String) (v : Json) : List Json :=
  match v with
  | .array items => if s.holdsSeveral name then items else [.array items]
  | v => [v]

/-- The values of a record are what the schema declares. -/
structure Obeyed (s : ModelSchema) (values : Object) : Prop where
  /-- A required field has a value that is not null, nor an empty array of a field for several values
  that is no reference. -/
  required : ∀ name, s.declaresRequired name = true → ∃ v, KeyMap.get? values name = some v ∧
    v ≠ .null ∧ (s.holdsSeveral name = true → KeyMap.contains s.references name = false →
      v ≠ .array [])
  /-- If the values of a field are listed that is no reference, then each of its values is one of
  them, except null. -/
  allowed : ∀ name choices v, IsOrdinary name → KeyMap.contains s.references name = false →
    s.choices? name = some choices → KeyMap.get? values name = some v → v ≠ .null →
      ∀ w ∈ s.singles name v, Validator.isAllowed choices w = true

end ModelSchema

/-! ### What the validators accept -/

theorem Reference.simplifyOne_ne_null {v : Json} (h : v ≠ .null) : simplifyOne v ≠ .null := by
  unfold simplifyOne
  split
  · exact h
  · exact h
  · rename_i id hne _
    exact hne

/-- A reference that is simplified is null only if it was. -/
theorem Reference.simplify_ne_null {v : Json} (h : v ≠ .null) : simplify v ≠ .null := by
  cases v with
  | array items => exact nofun
  | null | bool | number | string | object => exact simplifyOne_ne_null h

namespace Factory

variable {f : Factory} {everywhere : KeyMap Validator} {s : Store} {i : Instance} {place : Nat}
  {field : Field}

/-- Where the required validator has no error, there is a value. -/
theorem not_isMissing_of_accepts (hstops : ¬f.Stops s i) (hacc : f.accepts s i = true)
    (hfield : f.fields[place]? = some field)
    (ha : { field := place, validator := .required } ∈ f.attached) :
    Validator.isMissing field (i.get? field.name) = false := by
  by_contra hmissing
  rw [Bool.not_eq_false] at hmissing
  have hcheck : (Validator.required.check s i.model i.values field).diagnoses =
      [.errorAt field.name s!"'{field.name}' is required"] := by
    unfold Validator.required
    dsimp only
    rw [show Validator.isMissing field (KeyMap.get? i.values field.name) = true from hmissing,
      if_pos rfl]
  have herror := no_error_of_accepts hstops hacc ha hfield
    (d := .errorAt field.name s!"'{field.name}' is required")
    (by rw [hcheck]; exact List.mem_singleton_self _)
  cases herror

/-- Where the validator of listed values has no error, every value is one of them. -/
theorem isAllowed_of_accepts (hstops : ¬f.Stops s i) (hacc : f.accepts s i = true)
    (hfield : f.fields[place]? = some field)
    (ha : { field := place, validator := .enumeration } ∈ f.attached) {choices : List Json}
    (hchoices : field.allowed = some choices) {w : Json}
    (hw : w ∈ Validator.singleValues field (i.get? field.name)) :
    Validator.isAllowed choices w = true := by
  by_contra hnot
  have hcheck : Diagnosis.errorAt field.name
      ("value " ++ w.render ++ s!" of '{field.name}' is not one of the allowed values") ∈
        (Validator.enumeration.check s i.model i.values field).diagnoses := by
    unfold Validator.enumeration
    dsimp only
    rw [hchoices]
    refine List.mem_map.mpr ⟨w, List.mem_filter.mpr ⟨hw, ?_⟩, rfl⟩
    simpa using hnot
  have herror := no_error_of_accepts hstops hacc ha hfield hcheck
  cases herror

/-- What a value consists of is what the validator of listed values looks at. -/
theorem singles_subset {name : String} (hplural : field.isPlural = f.schema.holdsSeveral name)
    {v w : Json} (hne : v ≠ .null) (hw : w ∈ f.schema.singles name v) :
    w ∈ Validator.singleValues field (some v) := by
  unfold ModelSchema.singles at hw
  rw [← hplural] at hw
  cases v with
  | null => exact (hne rfl).elim
  | bool | number | string | array | object => exact hw

/-- The validators of the library look after the fields that the schema says. -/
structure Guards (f : Factory) : Prop where
  /-- After a required one, the validator for them. -/
  required : ∀ name, f.schema.declaresRequired name = true → ∃ (place : Nat) (field : Field),
    f.fields[place]? = some field ∧ field.name = name ∧
      field.isPlural = f.schema.holdsSeveral name ∧
      { field := place, validator := .required } ∈ f.attached
  /-- After one whose values are listed, the validator for them. -/
  listed : ∀ name choices, f.schema.choices? name = some choices →
    ∃ (place : Nat) (field : Field), f.fields[place]? = some field ∧ field.name = name ∧
      field.isPlural = f.schema.holdsSeveral name ∧ field.allowed = some choices ∧
      { field := place, validator := .enumeration } ∈ f.attached
  /-- None ends the validation. -/
  going : ∀ s i, ¬f.Stops s i

/-- **What the validators accept, obeys the schema** when it is written: with the references
simplified, and texts for what the store writes itself. -/
theorem obeyed_of_accepts (hg : f.Guards) (hacc : f.accepts s i = true) {stored : Object}
    (hordinary : ∀ name, IsOrdinary name →
      KeyMap.get? stored name = KeyMap.get? (f.simplifyValues i.values) name)
    (htexts : ∀ name, ¬IsOrdinary name → ∃ text, KeyMap.get? stored name = some (.string text)) :
    f.schema.Obeyed stored := by
  constructor
  case required =>
    intro name hr
    by_cases hname : IsOrdinary name
    case neg =>
      obtain ⟨text, htext⟩ := htexts name hname
      exact ⟨_, htext, nofun, fun _ _ => nofun⟩
    case pos =>
      obtain ⟨place, field, hfield, rfl, hplural, ha⟩ := hg.required name hr
      have hmissing := not_isMissing_of_accepts (hg.going s i) hacc hfield ha
      cases hv : i.get? field.name with
      | none =>
        rw [hv] at hmissing
        cases hmissing
      | some v =>
        rw [hv] at hmissing
        have hne : v ≠ .null := by
          rintro rfl
          cases hmissing
        have hstored : KeyMap.get? stored field.name =
            some (if KeyMap.contains f.schema.references field.name then Reference.simplify v
              else v) := by
          rw [hordinary _ hname, get?_simplifyValues, show KeyMap.get? i.values field.name = some v from hv]
          rfl
        refine ⟨_, hstored, ?_, fun hseveral href => ?_⟩
        · split
          · exact Reference.simplify_ne_null hne
          · exact hne
        · rw [if_neg (by simp [href])]
          rintro rfl
          simp [Validator.isMissing, hplural, hseveral] at hmissing
  case allowed =>
    intro name choices v hname href hchoices hv hne w hw
    obtain ⟨place, field, hfield, rfl, hplural, hallowed, ha⟩ := hg.listed name choices hchoices
    have hget : i.get? field.name = some v := by
      rw [hordinary _ hname, get?_simplifyValues, href] at hv
      simpa [Instance.get?] using hv
    refine isAllowed_of_accepts (hg.going s i) hacc hfield ha hallowed ?_
    rw [hget]
    exact singles_subset hplural hne hw

end Factory

/-! ### The validators of a factory -/

namespace Validator

/-- The validators of the library. -/
inductive IsBuiltin : Validator → Prop where
  | required : IsBuiltin .required
  | enumeration : IsBuiltin .enumeration
  | unique (database : Nat) : IsBuiltin (.unique database)

/-- None of them ends the validation. -/
theorem IsBuiltin.proceed {v : Validator} (h : v.IsBuiltin) (s : Store) (model : String)
    (values : Object) (field : Field) : (v.check s model values field).proceed = true := by
  cases h with
  | required =>
    unfold Validator.required
    dsimp only
    split <;> rfl
  | enumeration =>
    unfold Validator.enumeration
    dsimp only
    split <;> rfl
  | unique database =>
    unfold Validator.unique
    dsimp only
    split
    · rfl
    · rfl
    · split <;> rfl

end Validator

theorem Registry.validators_withValidators : withValidators.validators =
    [("enum", .enumeration), ("required", .required)] := rfl

namespace Factory

variable {f : Factory}

/-- Without validators of the class, those of the library are found: the connector's for unique
values, and the others for every model. -/
theorem validator?_eq (hcls : f.cls.validators = [])
    (hmemory : ∀ c, f.connector = some c → c.isMemory = true) (everywhere : KeyMap Validator)
    (tag : String) :
    (∃ number, tag = "unique" ∧ f.validator? everywhere tag = some (.unique number)) ∨
      f.validator? everywhere tag = KeyMap.get? everywhere tag := by
  unfold validator?
  rw [hcls]
  cases hc : f.connector with
  | none => exact .inr rfl
  | some c =>
    cases c with
    | external c => cases hmemory _ hc
    | memory datasource number =>
      by_cases htag : tag = "unique"
      · subst htag
        exact .inl ⟨number, rfl, rfl⟩
      · refine .inr ?_
        simp [Connector.validator?, htag, KeyMap.get?_nil]

variable (hf : f.Fitted Registry.withValidators.validators) (hcls : f.cls.validators = [])
  (hmemory : ∀ c, f.connector = some c → c.isMemory = true)

include hf hcls hmemory

/-- All its validators are those of the library. -/
theorem Fitted.isBuiltin {a : AttachedValidator} (ha : a ∈ f.attached) : a.validator.IsBuiltin := by
  obtain ⟨tag, hv⟩ := hf.exists_tag_of_mem_attached ha
  obtain ⟨place, v⟩ := a
  rcases validator?_eq hcls hmemory Registry.withValidators.validators tag with
    ⟨number, -, he⟩ | he
  · rw [he] at hv
    cases hv
    exact .unique number
  · rw [he, Registry.validators_withValidators] at hv
    rcases List.mem_cons.mp (KeyMap.mem_of_get? hv) with h | h
    · cases h
      exact .enumeration
    · cases List.mem_singleton.mp h
      exact .required

/-- **A factory with the validators of the library** has them look after what its schema
declares. -/
theorem Fitted.guards : f.Guards := by
  have hfound : ∀ tag v, tag ≠ "unique" →
      KeyMap.get? Registry.withValidators.validators tag = some v →
        f.validator? Registry.withValidators.validators tag = some v := by
    intro tag v hne hv
    rcases validator?_eq hcls hmemory Registry.withValidators.validators tag with
      ⟨number, he, -⟩ | he
    · exact (hne he).elim
    · rw [he, hv]
  constructor
  case required =>
    intro name hr
    obtain ⟨spec, hspec, hrequired⟩ := Option.any_eq_true _ _ |>.mp hr
    obtain ⟨place, field, hplace, hname, htags, -, hplural⟩ := hf.exists_place hspec
    refine ⟨place, field, hplace, hname, hplural, hf.mem_attached hplace ?_
      (hfound "required" .required (by decide) rfl)⟩
    rw [htags]
    refine FieldSpec.mem_tags ?_
    simp [FieldSpec.flags, hrequired]
  case listed =>
    intro name choices hc
    obtain ⟨spec, hspec, hallowed⟩ := Option.bind_eq_some_iff.mp hc
    obtain ⟨place, field, hplace, hname, htags, hfield, hplural⟩ := hf.exists_place hspec
    refine ⟨place, field, hplace, hname, hplural, hfield.trans hallowed, hf.mem_attached hplace ?_
      (hfound "enum" .enumeration (by decide) rfl)⟩
    rw [htags]
    refine FieldSpec.mem_tags ?_
    simp [FieldSpec.flags, hallowed]
  case going =>
    rintro s i ⟨a, ha, field, -, hstops⟩
    rw [(hf.isBuiltin hcls hmemory ha).proceed] at hstops
    cases hstops

omit hf hcls hmemory

/-- An instance that is made ready is one that the validators accept, whatever the hook did to it. -/
theorem accepts_of_prepare_ok {s : Store} {i : Instance} (h : (f.prepare s i).outcome = .ok ()) :
    ∃ i', (f.prepare s i).saved = f.diagnose s i' ∧ f.accepts s i' = true := by
  unfold prepare at h ⊢
  cases hrun : f.runHook beforeSave i with
  | error e =>
    rw [hrun] at h
    cases h
  | ok i' =>
    rw [hrun] at h
    refine ⟨i', rfl, ?_⟩
    unfold verdict at h
    unfold accepts
    dsimp only at h
    split at h
    · cases h
    · rename_i hno
      simpa using hno

end Factory

/-! ### Stores that requests reach -/

/-- The connectors of the factories are the library's own. -/
theorem Server.Assembled.isMemory_connector {server : Server} (h : server.Assembled) {f : Factory}
    (hf : f ∈ server.registry.made) {c : Connector} (hc : f.connector = some c) :
    c.isMemory = true := by
  obtain ⟨start, validators, hempty, hok⟩ := h.started
  obtain ⟨loaded, numbers, r, fs, hr, hfs, rfl⟩ := assemble_eq_ok hempty hok
  obtain ⟨own, hown, hsetup⟩ := exists_left_of_forall₂ hfs hf
  have hsame : f.bare.connector = own.bare.connector :=
    congrArg Factory.connector (Registry.bare_setup hsetup)
  replace hc : own.connector = some c := hsame.symm.trans hc
  obtain ⟨p, hp, rfl⟩ := (Registry.compiled_of_compile hr).1.connector own hown c hc
  exact h.memory p hp

namespace Store

variable {s : Store} {number : Nat} {collection id : String} {record : StoredRecord}

/-- What the store writes itself are texts. -/
theorem exists_text_of_not_ordinary (hs : s.Sound)
    (hget : KeyMap.get? (s.records number collection) id = some record) (name : String)
    (h : ¬IsOrdinary name) : ∃ text, KeyMap.get? record.values name = some (.string text) := by
  have hrecord := hs _ _ _ _ hget
  by_cases hid : name = idField
  · rw [hid]
    exact ⟨id, hrecord.keyed⟩
  by_cases hcreated : name = createdAtField
  · rw [hcreated]
    exact hrecord.created
  by_cases hupdated : name = updatedAtField
  · rw [hupdated]
    exact hrecord.updated
  · exact (h ⟨hid, hcreated, hupdated⟩).elim

end Store

namespace Server

variable {server : Server} {s : Store}

/-- The only validators are those of the library: for every model, there are no more than these, and
no class has one of its own. -/
structure BuiltinOnly (server : Server) : Prop where
  everywhere : server.registry.validators = Registry.withValidators.validators
  classes : ∀ f ∈ server.registry.made, f.cls.validators = []

/-- Assembling keeps the validators for every model. -/
theorem validators_assemble {start : Server} {validators : KeyMap Validator}
    (hempty : start.registry = { validators := validators })
    (h : succeeded (assemble start) = true) :
    (stateLeft (assemble start)).registry.validators = validators := by
  obtain ⟨u, server, hok⟩ := succeeded_iff.mp h
  rw [hok]
  obtain ⟨loaded, numbers, r, fs, hr, -, rfl⟩ := assemble_eq_ok hempty hok
  obtain ⟨ds, -, -, drafted, -, rfl, -⟩ := compile_eq_ok_iff.mp hr
  rfl

/-- The factories have the validators of the library look after what their schemas declare. -/
theorem Assembled.guards (h : server.Assembled) (hbuiltin : server.BuiltinOnly) {f : Factory}
    (hf : f ∈ server.registry.made) : f.Guards := by
  have hfit := h.fitted f hf
  have hshared : server.registry.sharedValidators = Registry.withValidators.validators := by
    unfold Registry.sharedValidators
    rw [h.deployed.alive, hbuiltin.everywhere]
    rfl
  rw [hshared] at hfit
  exact hfit.guards (hbuiltin.classes f hf) fun c hc => h.isMemory_connector hf hc

/-- Every record of a model's collection obeys the model's schema. -/
def Obeys (server : Server) (s : Store) : Prop :=
  ∀ f ∈ server.registry.made, ∀ number collection,
    f.actions? = some (.memory number collection) → ∀ id record,
      KeyMap.get? (s.records number collection) id = some record → f.schema.Obeyed record.values

/-- A request keeps the records obeying, whether it succeeds or fails. -/
theorem Obeys.after (h : server.Assembled) (hbuiltin : server.BuiltinOnly) (hs : server.Reaches s)
    {call : Call} (hcall : call.factory ∈ server.registry.made) (hobeys : server.Obeys s) :
    server.Obeys (server.registry.after s call) := by
  have hd := hs.deployed h
  have hafter := hs.after hcall
  have hm := hd.memory _ hcall
  have heffect : server.registry.Effect call s (server.registry.after s call) :=
    server.registry.effect_perform hm
  intro f hf number collection hb id record hget
  have htexts := Store.exists_text_of_not_ordinary (hafter.sound h).2 hget
  generalize server.registry.after s call = s' at heffect hget
  cases heffect with
  | nothing => exact hobeys f hf _ _ hb _ _ hget
  | deleted _ hb' => exact hobeys f hf _ _ hb _ _ (Store.get?_of_afterDelete (hm.lt hb') hget)
  | @saved number' collection' i params stored _ hb' _ _ hready hw =>
    obtain ⟨id', record', -, hput, hmakes⟩ := hw.exists_makes (hs.sound h).2
    have hvalues := hmakes.ordinary
    by_cases hhere : number' = number ∧ collection' = collection ∧ id' = id
    case neg =>
      rw [hput.get?_of_ne hhere] at hget
      exact hobeys f hf _ _ hb _ _ hget
    case pos =>
      obtain ⟨rfl, rfl, rfl⟩ := hhere
      rw [hput.get?_self] at hget
      cases hget
      -- models of one collection have one schema
      rw [hd.shared f hf _ hcall _ hb hb']
      obtain ⟨i', hsaved, hacc⟩ := Factory.accepts_of_prepare_ok hready
      rw [hsaved] at hvalues
      exact Factory.obeyed_of_accepts (h.guards hbuiltin hcall) hacc hvalues htexts

/-- **Every record obeys its schema** in every store that requests reach, if the only validators are
those of the library; hooks may do to the instances whatever they like. -/
theorem obeyed (h : server.Assembled) (hbuiltin : server.BuiltinOnly) (hs : server.Reaches s) :
    server.Obeys s := by
  refine Reaches.preserves (fun f _ number collection _ id record hget => ?_)
    (fun s call hs hcall hobeys => hobeys.after h hbuiltin hs hcall) hs
  rw [h.empty] at hget
  cases hget

end Server

namespace Shelfmarks

/-- A book has a title and one of three genres; a hook says which if it has none. A volume stands for
a book. -/
def classes : List ClassDecl :=
  [{ ClassDecl.model "Book" with
     members := [Lending.property "title" "string" ["required"],
       .property
        { name := "genre", type := "string",
          decorators := [{ name := "enumeration", args :=
            [.array [.string "novel", .string "poem", .string "other"]] }] },
       .method { name := "classify", decorators :=
         [{ name := "hook", args := [.string "beforeSave"] }] }] },
    { ClassDecl.named "Volume" with
      decorators :=
        [{ name := "model", args := [.ofMembers [("linkedFactory", .string "Book")]] }] }]

/-- What the hook does. -/
def classify (values : Object) : Except String Object :=
  .ok (if KeyMap.contains values "genre" then values
    else KeyMap.insert values "genre" (.string "other"))

/-- The server before it loads the classes. -/
def start : Server :=
  { Server.storing "shelfmarks" classes with
    classes := [("Book", { name := "Book", hooks := [("classify", classify)] }),
      ("Volume", .plain "Volume")] }

/-- The server with its models set up. -/
def server : Server := stateLeft (Server.assemble start)

theorem succeeded_start : succeeded (Server.assemble start) = true := by decide +kernel

theorem assembled : server.Assembled := Server.assembled_storing_with succeeded_start

theorem builtinOnly : server.BuiltinOnly := by
  have hclasses : ∀ f ∈ server.registry.made, f.cls.validators.isEmpty = true := by
    decide +kernel
  exact ⟨Server.validators_assemble rfl succeeded_start,
    fun f hf => List.isEmpty_iff.mp (hclasses f hf)⟩

/-- The store after a book was created, and changed as a volume. -/
def store : Store := server.storeAfter
  [("Book", .create, { body := .object [("_id", .string "b1"), ("title", .string "Emma")] }),
    ("Volume", .patch, { id := some "b1", body := .object [("genre", .string "novel")] })]

theorem reaches_store : server.Reaches store := Server.reaches_storeAfter (by decide +kernel)

/-- The book obeys the schema of volumes too. -/
theorem book_obeys :
    ∃ record, KeyMap.get? (store.records 0 "Book") "b1" = some record ∧
      (server.factory "Book").schema.Obeyed record.values ∧
      (server.factory "Volume").schema.Obeyed record.values := by
  have hstored : (KeyMap.get? (store.records 0 "Book") "b1").isSome = true := by decide +kernel
  obtain ⟨record, hget⟩ := Option.isSome_iff_exists.mp hstored
  have hobeyed := Server.obeyed assembled builtinOnly reaches_store
  refine ⟨record, hget, ?_, ?_⟩
  · exact hobeyed _ (Server.factory_mem (by decide +kernel)) 0 "Book"
      (Lending.eq_of_collection? (by decide +kernel)) "b1" record hget
  · exact hobeyed _ (Server.factory_mem (by decide +kernel)) 0 "Book"
      (Lending.eq_of_collection? (by decide +kernel)) "b1" record hget

end Shelfmarks

end ModelRest
