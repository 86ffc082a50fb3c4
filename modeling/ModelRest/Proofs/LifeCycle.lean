import ModelRest.Proofs.Deployment
import ModelRest.Proofs.Validation

/-!
# The life of a factory

A factory has three cells, for its schema, for the collection that it stands for, and for its fields
with their validators and actions. Four calls write them (`LifeCall`), in any order and with
anything around them: the other factories and the store may be different at every call. A call looks
at several things before it writes, and one of them may be another factory. `LifeCall.steps` carries
a call out step by step, so that what was written before a step that fails stays written; `steps_eq`
says that this comes to what the functions of factories answer.

A call that succeeds writes its cell, which was empty, and nothing else, and a call that fails
writes nothing (`LifeCall.steps_cases`). So whatever the calls are, every cell is written once at
most and stays as it was written: `Factory.lives_once`. Why a call fails is `Factory.Refuses`.
-/

namespace ModelRest

/-! ### Calls -/

/-- A call that a factory may get in its life, with what there is around it. -/
inductive LifeCall where
  /-- The schema is installed. -/
  | install (schema : ModelSchema)
  /-- The factory is told which collection it stands for. -/
  | link (target : String)
  /-- The factory is initialized, with these validators for every model. -/
  | init (everywhere : KeyMap Validator) (binding : Option Actions)
  /-- The factory is set up, with these factories and this store around it. -/
  | setup (r : Registry) (store : Store)

/-- What is written in the life of a factory. -/
inductive Cell where
  /-- The schema. -/
  | schema
  /-- The collection that the factory stands for. -/
  | link
  /-- The fields with their validators and actions. -/
  | runtime
deriving DecidableEq

namespace LifeCall

/-- The cell that a call is to write. -/
def cell : LifeCall → Cell
  | .install _ => .schema
  | .link _ => .link
  | .init .. => .runtime
  | .setup .. => .runtime

/-- The schema that a call is to write. -/
def schema? : LifeCall → Option ModelSchema
  | .install schema => some schema
  | _ => none

/-- The collection that a call is to write. -/
def target? : LifeCall → Option String
  | .link target => some target
  | _ => none

/-- What becomes of a factory by a call. -/
def result (f : Factory) : LifeCall → Except ConfigError Factory
  | .install schema => f.installSchema schema
  | .link target => f.link target
  | .init everywhere binding => f.init everywhere binding
  | .setup r store => r.setup store f

end LifeCall

namespace Factory

/-- The cell is written. -/
def holds (f : Factory) : Cell → Bool
  | .schema => f.schema?.isSome
  | .link => f.link?.isSome
  | .runtime => f.runtime?.isSome

/-- The factory with a cell emptied. -/
def emptied (f : Factory) : Cell → Factory
  | .schema => { f with schema? := none }
  | .link => { f with link? := none }
  | .runtime => { f with runtime? := none }

/-- No cell is written. -/
def IsNew (f : Factory) : Prop := ∀ cell, f.holds cell = false

end Factory

/-! ### Step by step -/

/-- A computation on a factory that may fail; what it wrote before it failed stays written. -/
abbrev FactoryM := EStateM ConfigError Factory

namespace FactoryM

/-- Works something out without writing anything. -/
def workOut {α : Type} : Except ConfigError α → FactoryM α
  | .ok a => pure a
  | .error e => throw e

/-- Writes a cell, unless it is written. -/
def write (cell : Cell) (put : Factory → Factory) (taken : Factory → ConfigError) :
    FactoryM Unit := do
  let f ← get
  if f.holds cell then throw (taken f)
  set (put f)

/-- Works out the fields and their validators, and writes them with the actions. -/
def furnish (everywhere : KeyMap Validator) (binding : Option Actions) : FactoryM Unit := do
  let f ← get
  let schema ← workOut (f.schema?.elim (.error (.notCompiled f.name)) .ok)
  if f.isInitialized then throw (.alreadyInitialized f.name)
  let fields ← workOut (f.resolveFields schema)
  let runtime : FactoryRuntime :=
    { fields := fields
      validators := fields.zipIdx.flatMap (f.attach everywhere)
      binding := if f.options.persistent then binding else none }
  write .runtime (fun f => { f with runtime? := some runtime }) fun f => .alreadyInitialized f.name

/-- Finds the factory whose records are used, opens its actions and writes what comes of it. -/
def setUp (r : Registry) (store : Store) : FactoryM Unit := do
  let source ← workOut (r.source (← get))
  let binding ← workOut (source.openActions store)
  furnish r.sharedValidators binding

end FactoryM

open FactoryM in
/-- Carries a call out. -/
def LifeCall.steps : LifeCall → FactoryM Unit
  | .install schema =>
    write .schema (fun f => { f with schema? := some schema }) fun f => .alreadyCompiled f.name
  | .link target =>
    write .link (fun f => { f with link? := some target }) fun f => .alreadyCompiled f.name
  | .init everywhere binding => furnish everywhere binding
  | .setup r store => setUp r store

/-- What a computation comes to that makes something of a factory, or fails and leaves it. -/
def Factory.outcome (f : Factory) :
    Except ConfigError Factory → EStateM.Result ConfigError Factory Unit
  | .ok f' => .ok () f'
  | .error e => .error e f

namespace FactoryM

variable {f : Factory}

theorem get_bind {α : Type} (k : Factory → FactoryM α) : (get >>= k) f = k f f := rfl

theorem workOut_bind {α β : Type} (x : Except ConfigError α) (k : α → FactoryM β) :
    (workOut x >>= k) f = match x with
      | .ok a => k a f
      | .error e => .error e f := by
  cases x <;> rfl

theorem write_eq (cell : Cell) (put : Factory → Factory) (taken : Factory → ConfigError) :
    write cell put taken f = if f.holds cell then .error (taken f) f else .ok () (put f) := by
  unfold write
  rw [get_bind]
  cases f.holds cell <;> rfl

theorem furnish_eq (everywhere : KeyMap Validator) (binding : Option Actions) :
    furnish everywhere binding f = f.outcome (f.init everywhere binding) := by
  unfold furnish Factory.init
  rw [get_bind, workOut_bind]
  cases hs : f.schema? with
  | none => rfl
  | some schema =>
    rw [Option.elim_some]
    dsimp only
    cases hi : f.isInitialized with
    | true => rfl
    | false =>
      rw [if_neg Bool.false_ne_true, workOut_bind, if_neg Bool.false_ne_true]
      cases f.resolveFields schema with
      | error e => rfl
      | ok fields =>
        -- nothing was written since the cell was found empty, so writing it does not fail
        have hempty : f.holds .runtime = false := hi
        refine (write_eq ..).trans ?_
        rw [hempty, ← hs]
        rfl

theorem setUp_eq (r : Registry) (store : Store) :
    setUp r store f = f.outcome (r.setup store f) := by
  unfold setUp Registry.setup
  rw [get_bind, workOut_bind]
  cases r.source f with
  | error e => rfl
  | ok source =>
    show (workOut (source.openActions store) >>= _) f = f.outcome (source.openActions store >>= _)
    rw [workOut_bind]
    cases source.openActions store with
    | error e => rfl
    | ok binding => exact furnish_eq ..

end FactoryM

namespace LifeCall

variable {c : LifeCall} {f f' : Factory}

/-- Carried out step by step, a call makes of the factory what the function for it answers, or fails
as that does and leaves the factory as it was. -/
theorem steps_eq (c : LifeCall) (f : Factory) : c.steps f = f.outcome (c.result f) := by
  cases c with
  | install schema =>
    refine (FactoryM.write_eq ..).trans ?_
    unfold result Factory.installSchema Factory.holds
    cases f.schema? <;> rfl
  | link target =>
    refine (FactoryM.write_eq ..).trans ?_
    unfold result Factory.link Factory.holds
    cases f.link? <;> rfl
  | init everywhere binding => exact FactoryM.furnish_eq ..
  | setup r store => exact FactoryM.setUp_eq ..

/-! ### One call -/

theorem runtime?_of_init {everywhere : KeyMap Validator} {binding : Option Actions}
    (h : f.init everywhere binding = .ok f') : f.runtime? = none := by
  unfold Factory.init at h
  cases hs : f.schema? with
  | none => simp [hs, throw, throwThe, MonadExceptOf.throw] at h
  | some schema =>
    simp only [hs] at h
    split at h
    · cases h
    · rename_i hi
      exact Option.not_isSome_iff_eq_none.mp hi

/-- Setting a factory up initializes it. -/
theorem exists_init_of_cell (hc : c.cell = .runtime) (h : c.result f = .ok f') :
    ∃ everywhere binding, f.init everywhere binding = .ok f' := by
  cases c with
  | install schema => cases hc
  | link target => cases hc
  | init everywhere binding => exact ⟨everywhere, binding, h⟩
  | setup r store =>
    obtain ⟨-, binding, -, -, hinit⟩ := Registry.setup_eq_ok_iff.mp h
    exact ⟨_, binding, hinit⟩

/-- **What a call writes**: its cell, which was empty, and nothing else. -/
theorem writes_of_result (h : c.result f = .ok f') :
    f'.holds c.cell = true ∧ f'.emptied c.cell = f := by
  by_cases hc : c.cell = .runtime
  · obtain ⟨everywhere, binding, hinit⟩ := exists_init_of_cell hc h
    have hnone := runtime?_of_init hinit
    obtain ⟨schema, fields, -, -, rfl⟩ := Registry.init_eq_ok hinit
    rw [hc]
    refine ⟨rfl, ?_⟩
    cases f
    cases hnone
    rfl
  · cases c with
    | install schema =>
      unfold result Factory.installSchema at h
      cases f with
      | mk name cls documentation options connector schema? =>
        cases schema? <;> cases h
        exact ⟨rfl, rfl⟩
    | link target =>
      unfold result Factory.link at h
      cases f with
      | mk name cls documentation options connector schema? link? =>
        cases link? <;> cases h
        exact ⟨rfl, rfl⟩
    | init everywhere binding => exact absurd rfl hc
    | setup r store => exact absurd rfl hc

/-- A call fails and leaves the factory as it was, or succeeds and writes its cell. -/
theorem steps_cases (c : LifeCall) (f : Factory) :
    (∃ e, c.result f = .error e ∧ c.steps f = .error e f) ∨
    ∃ f', c.result f = .ok f' ∧ c.steps f = .ok () f' ∧ f'.holds c.cell = true ∧
      f'.emptied c.cell = f := by
  rw [steps_eq]
  cases h : c.result f with
  | error e => exact .inl ⟨e, rfl, rfl⟩
  | ok f' => exact .inr ⟨f', rfl, rfl, writes_of_result h⟩

end LifeCall

/-! ### Many calls -/

namespace Factory

variable {f f' f'' : Factory}

/-- The factory with all cells empty. -/
def asMade (f : Factory) : Factory := { f with schema? := none, link? := none, runtime? := none }

/-- The second factory is the first one later: what was written is there as it was, and nothing but
the cells is different. -/
structure Continues (f f' : Factory) : Prop where
  /-- The schema stays. -/
  schema : ∀ s, f.schema? = some s → f'.schema? = some s
  /-- The collection that it stands for stays. -/
  link : ∀ target, f.link? = some target → f'.link? = some target
  /-- Fields, validators and actions stay. -/
  runtime : ∀ runtime, f.runtime? = some runtime → f'.runtime? = some runtime
  /-- All else stays. -/
  rest : f'.asMade = f.asMade

theorem Continues.refl (f : Factory) : f.Continues f :=
  ⟨fun _ h => h, fun _ h => h, fun _ h => h, rfl⟩

theorem Continues.trans (h : f.Continues f') (h' : f'.Continues f'') : f.Continues f'' where
  schema s hs := h'.schema s (h.schema s hs)
  link target ht := h'.link target (h.link target ht)
  runtime runtime hr := h'.runtime runtime (h.runtime runtime hr)
  rest := h'.rest.trans h.rest

/-- A factory continues what it was before a cell was written. -/
theorem continues_emptied (f : Factory) (cell : Cell) : (f.emptied cell).Continues f := by
  cases cell with
  | schema => exact ⟨nofun, fun _ h => h, fun _ h => h, rfl⟩
  | link => exact ⟨fun _ h => h, nofun, fun _ h => h, rfl⟩
  | runtime => exact ⟨fun _ h => h, fun _ h => h, nofun, rfl⟩

/-- A call continues the life of a factory, whether it succeeds or not. -/
theorem continues_stateLeft (f : Factory) (c : LifeCall) : f.Continues (stateLeft (c.steps f)) := by
  obtain ⟨e, -, hsteps⟩ | ⟨f', -, hsteps, -, hf⟩ := c.steps_cases f
  · rw [hsteps]
    exact .refl f
  · rw [hsteps]
    have hcontinues := f'.continues_emptied c.cell
    rwa [hf] at hcontinues

theorem Continues.holds (h : f.Continues f') {cell : Cell} (hc : f.holds cell = true) :
    f'.holds cell = true := by
  cases cell with
  | schema =>
    obtain ⟨s, hs⟩ := Option.isSome_iff_exists.mp hc
    exact Option.isSome_iff_exists.mpr ⟨s, h.schema s hs⟩
  | link =>
    obtain ⟨target, ht⟩ := Option.isSome_iff_exists.mp hc
    exact Option.isSome_iff_exists.mpr ⟨target, h.link target ht⟩
  | runtime =>
    obtain ⟨runtime, hr⟩ := Option.isSome_iff_exists.mp hc
    exact Option.isSome_iff_exists.mpr ⟨runtime, h.runtime runtime hr⟩

/-- The factory after some calls, of which some may fail. -/
def after (f : Factory) (calls : List LifeCall) : Factory :=
  calls.foldl (fun f c => stateLeft (c.steps f)) f

/-- The calls that succeed. -/
def granted (f : Factory) : List LifeCall → List LifeCall
  | [] => []
  | c :: calls =>
    if succeeded (c.steps f) then c :: granted (stateLeft (c.steps f)) calls
    else granted (stateLeft (c.steps f)) calls

section Calls

variable (f) (c : LifeCall) (calls more : List LifeCall)

@[simp] theorem after_nil : f.after [] = f := rfl

@[simp] theorem after_cons : f.after (c :: calls) = (stateLeft (c.steps f)).after calls := rfl

theorem after_append : f.after (calls ++ more) = (f.after calls).after more := List.foldl_append

/-- **What is written stays**, whatever the calls are. -/
theorem continues_after : f.Continues (f.after calls) := by
  induction calls generalizing f with
  | nil => exact .refl f
  | cons c calls ih => exact (f.continues_stateLeft c).trans (ih _)

/-- A cell that takes an offer only when it is empty has in the end what it had, or else the first
offer. -/
theorem content_after {α : Type} {content : Factory → Option α} {offer : LifeCall → Option α}
    (hstep : ∀ c f, content (stateLeft (LifeCall.steps c f)) = (content f).or (offer c)) :
    content (f.after calls) = (content f).or (calls.findSome? offer) := by
  induction calls generalizing f with
  | nil => exact Option.or_none.symm
  | cons c calls ih =>
    rw [after_cons, ih, hstep, Option.or_assoc, List.findSome?_cons]
    cases offer c <;> rfl

/-- A call leaves what is in another cell. -/
theorem content_stateLeft {α : Type} {content : Factory → Option α} {cell : Cell}
    (hother : ∀ f other, other ≠ cell → content (emptied f other) = content f)
    (hc : c.cell ≠ cell) : content (stateLeft (c.steps f)) = content f := by
  obtain ⟨e, -, hsteps⟩ | ⟨f', -, hsteps, -, hf⟩ := c.steps_cases f
  · rw [hsteps]
    rfl
  · rw [hsteps, ← hf]
    exact (hother f' _ hc).symm

/-- **The first schema stays.** -/
theorem schema?_after :
    (f.after calls).schema? = f.schema?.or (calls.findSome? LifeCall.schema?) := by
  refine f.content_after calls fun c f => ?_
  have hother : ∀ (f : Factory) other, other ≠ .schema → (f.emptied other).schema? = f.schema? := by
    rintro f (_ | _ | _) h
    exacts [absurd rfl h, rfl, rfl]
  cases c with
  | install schema =>
    rw [LifeCall.steps_eq]
    unfold LifeCall.result installSchema
    cases h : f.schema? with
    | none => rfl
    | some s => exact h
  | link | init | setup =>
    exact (f.content_stateLeft _ hother Cell.noConfusion).trans Option.or_none.symm

/-- **The first link stays.** -/
theorem link?_after :
    (f.after calls).link? = f.link?.or (calls.findSome? LifeCall.target?) := by
  refine f.content_after calls fun c f => ?_
  have hother : ∀ (f : Factory) other, other ≠ .link → (f.emptied other).link? = f.link? := by
    rintro f (_ | _ | _) h
    exacts [rfl, absurd rfl h, rfl]
  cases c with
  | link target =>
    rw [LifeCall.steps_eq]
    unfold LifeCall.result link
    cases h : f.link? with
    | none => rfl
    | some t => exact h
  | install | init | setup =>
    exact (f.content_stateLeft _ hother Cell.noConfusion).trans Option.or_none.symm

theorem holds_emptied (cell other : Cell) :
    (f.emptied cell).holds other = if cell = other then false else f.holds other := by
  cases cell <;> cases other <;> rfl

/-- **A cell is written by one call at most**, and by none if it was written before. -/
theorem countP_granted (cell : Cell) : (f.granted calls).countP (fun c => c.cell == cell) =
    if f.holds cell = false ∧ (f.after calls).holds cell = true then 1 else 0 := by
  induction calls generalizing f with
  | nil => simp [granted]
  | cons c calls ih =>
    rw [after_cons, granted]
    obtain ⟨e, -, hsteps⟩ | ⟨f', -, hsteps, hholds, hf⟩ := c.steps_cases f
    · rw [hsteps]
      exact ih f
    · rw [hsteps, succeeded, if_pos rfl, stateLeft, List.countP_cons, ih f']
      have hbefore : f.holds cell = if c.cell = cell then false else f'.holds cell := by
        rw [← holds_emptied, hf]
      have hlater := (f'.continues_after calls).holds hholds
      rw [hbefore]
      -- a call for this cell is the one that counts, as the cell stays written from there on
      by_cases hc : c.cell = cell
      · subst hc
        simp [hholds, hlater]
      · simp [hc]

end Calls

end Factory

/-! ### Why a call fails -/

/-- The predicate that hides a field, if its metadata names one. -/
def ModelSchema.predicate? (s : ModelSchema) (name : String) : Option String :=
  match (s.spec? name).bind FieldSpec.invisible with
  | some (.predicate predicate) => some predicate
  | _ => none

namespace Factory

variable {f : Factory} {name : String} {e : ConfigError}

/-- A field is to be hidden by a predicate that the class does not have. -/
def Lacks (f : Factory) (name predicate : String) : Prop :=
  f.schema.predicate? name = some predicate ∧ KeyMap.get? f.cls.predicates predicate = none

/-- Why a factory is not given its fields. -/
inductive RefusesInit (f : Factory) : ConfigError → Prop where
  /-- It has no schema. -/
  | notCompiled (h : f.isCompiled = false) : RefusesInit f (.notCompiled f.name)
  /-- It has its fields. -/
  | alreadyInitialized (hc : f.isCompiled = true) (h : f.isInitialized = true) :
    RefusesInit f (.alreadyInitialized f.name)
  /-- A field, and none before it, is to be hidden by a predicate that there is not. -/
  | unknownPredicate {before after : List String} {name predicate : String}
    (hc : f.isCompiled = true) (hi : f.isInitialized = false)
    (hnames : f.schema.fieldNames = before ++ name :: after)
    (hbefore : ∀ n ∈ before, ∀ p, ¬f.Lacks n p) (h : f.Lacks name predicate) :
    RefusesInit f (.unknownPredicate f.name name predicate)

/-- Why a call fails. -/
inductive Refuses (f : Factory) : LifeCall → ConfigError → Prop where
  /-- There is a schema. -/
  | install {schema : ModelSchema} (h : f.isCompiled = true) :
    Refuses f (.install schema) (.alreadyCompiled f.name)
  /-- It stands for a collection. -/
  | link {target : String} (h : f.link?.isSome = true) :
    Refuses f (.link target) (.alreadyCompiled f.name)
  /-- It is not given its fields. -/
  | init {everywhere : KeyMap Validator} {binding : Option Actions} {e : ConfigError}
    (h : f.RefusesInit e) : Refuses f (.init everywhere binding) e
  /-- The registry is gone, or has no factory of the collection that it stands for. -/
  | source {r : Registry} {store : Store} {name : String} (hl : f.link? = some name)
    (h : r.alive = false ∨ r.find? name = none) :
    Refuses f (.setup r store) (.unknownLinkedFactory f.name name)
  /-- The connector of the factory whose records are used does not serve its collection. -/
  | connector {r : Registry} {store : Store} {source : Factory} {c : Connector} {cause : String}
    (hs : r.source f = .ok source) (hc : source.connector = some c)
    (hp : source.options.persistent = true)
    (h : c.actions store source.name (source.options.datasource.getD c.datasource) =
      .error cause) : Refuses f (.setup r store) (.connector cause)
  /-- The records are there, but it is not given its fields. -/
  | setup {r : Registry} {store : Store} {source : Factory} {binding : Option Actions}
    {e : ConfigError} (hs : r.source f = .ok source) (hb : source.openActions store = .ok binding)
    (h : f.RefusesInit e) : Refuses f (.setup r store) e

theorem resolveField?_eq_error_iff : f.resolveField? f.schema name = .error e ↔
    ∃ predicate, f.Lacks name predicate ∧ e = .unknownPredicate f.name name predicate := by
  unfold resolveField? Lacks ModelSchema.predicate? ModelSchema.spec?
  cases KeyMap.get? f.schema.prototype name with
  | none => simp
  | some entry =>
    rw [Option.bind_some]
    unfold Field.resolve
    dsimp only
    cases entry.spec?.bind FieldSpec.invisible with
    | none => simp
    | some invisibility =>
      cases invisibility with
      | flag hidden => simp
      | predicate predicate =>
        cases hp : KeyMap.get? f.cls.predicates predicate with
        | none => simp [hp, eq_comm]
        | some hides => simp [hp]

theorem exists_resolveField?_eq_ok_iff : (∃ field?, f.resolveField? f.schema name = .ok field?) ↔
    ∀ predicate, ¬f.Lacks name predicate := by
  constructor
  · rintro ⟨field?, hok⟩ predicate hlacks
    have herror := resolveField?_eq_error_iff.mpr ⟨predicate, hlacks, rfl⟩
    rw [hok] at herror
    cases herror
  · intro h
    cases hresolve : f.resolveField? f.schema name with
    | ok field? => exact ⟨field?, rfl⟩
    | error e =>
      obtain ⟨predicate, hlacks, -⟩ := resolveField?_eq_error_iff.mp hresolve
      exact absurd hlacks (h predicate)

theorem resolveFields_eq_error_iff : f.resolveFields f.schema = .error e ↔
    ∃ before name after predicate, f.schema.fieldNames = before ++ name :: after ∧
      (∀ n ∈ before, ∀ p, ¬f.Lacks n p) ∧ f.Lacks name predicate ∧
        e = .unknownPredicate f.name name predicate := by
  -- leaving names without an entry out comes after the fields are resolved, and never fails
  have hmap : f.resolveFields f.schema = .error e ↔
      f.schema.fieldNames.mapM (f.resolveField? f.schema) = .error e := by
    unfold resolveFields
    cases f.schema.fieldNames.mapM (f.resolveField? f.schema) <;> simp [Functor.map, Except.map]
  rw [hmap]
  constructor
  · intro h
    obtain ⟨before, name, after, hnames, hbefore, he⟩ := exists_error_of_mapM h
    obtain ⟨predicate, hlacks, rfl⟩ := resolveField?_eq_error_iff.mp he
    exact ⟨before, name, after, predicate, hnames,
      fun n hn => exists_resolveField?_eq_ok_iff.mp (hbefore n hn), hlacks, rfl⟩
  · rintro ⟨before, name, after, predicate, hnames, hbefore, hlacks, rfl⟩
    rw [hnames]
    exact mapM_eq_error (fun n hn => exists_resolveField?_eq_ok_iff.mpr (hbefore n hn))
      (resolveField?_eq_error_iff.mpr ⟨predicate, hlacks, rfl⟩)

theorem init_eq_error_iff {everywhere : KeyMap Validator} {binding : Option Actions} :
    f.init everywhere binding = .error e ↔ f.RefusesInit e := by
  unfold init
  cases hs : f.schema? with
  | none =>
    have hc : f.isCompiled = false := by rw [isCompiled, hs]; rfl
    constructor
    · rintro ⟨⟩
      exact .notCompiled hc
    · rintro (_ | ⟨hc', _⟩ | ⟨hc', _⟩)
      · rfl
      all_goals exact absurd (hc.symm.trans hc') Bool.false_ne_true
  | some schema =>
    have hc : f.isCompiled = true := by rw [isCompiled, hs]; rfl
    have hschema : f.schema = schema := by rw [Factory.schema, hs]; rfl
    dsimp only
    split
    · rename_i hi
      constructor
      · rintro ⟨⟩
        exact .alreadyInitialized hc hi
      · rintro (hc' | _ | ⟨_, hi', _⟩)
        · exact absurd (hc'.symm.trans hc) Bool.false_ne_true
        · rfl
        · exact absurd (hi'.symm.trans hi) Bool.false_ne_true
    · rename_i hi
      have hi := Bool.eq_false_iff.mpr hi
      rw [← hschema]
      constructor
      · intro h
        cases hfields : f.resolveFields f.schema with
        | ok fields =>
          rw [hfields] at h
          cases h
        | error e' =>
          rw [hfields] at h
          cases h
          obtain ⟨before, name, after, predicate, hnames, hbefore, hlacks, rfl⟩ :=
            resolveFields_eq_error_iff.mp hfields
          exact .unknownPredicate hc hi hnames hbefore hlacks
      · rintro (hc' | ⟨_, hi'⟩ | ⟨_, _, hnames, hbefore, hlacks⟩)
        · exact absurd (hc'.symm.trans hc) Bool.false_ne_true
        · exact absurd (hi.symm.trans hi') Bool.false_ne_true
        · have herror := resolveFields_eq_error_iff.mpr
            ⟨_, _, _, _, hnames, hbefore, hlacks, rfl⟩
          rw [herror]
          rfl

theorem source_eq_error_iff {r : Registry} : r.source f = .error e ↔
    ∃ name, f.link? = some name ∧ (r.alive = false ∨ r.find? name = none) ∧
      e = .unknownLinkedFactory f.name name := by
  unfold Registry.source Registry.resolve
  cases f.link? with
  | none => simp
  | some name =>
    cases r.alive with
    | false => simp [eq_comm]
    | true => cases h : r.find? name <;> simp [h, eq_comm]

theorem openActions_eq_error_iff {store : Store} : f.openActions store = .error e ↔
    ∃ c cause, f.connector = some c ∧ f.options.persistent = true ∧
      c.actions store f.name (f.options.datasource.getD c.datasource) = .error cause ∧
        e = .connector cause := by
  unfold openActions
  cases f.connector with
  | none => simp
  | some c =>
    cases f.options.persistent with
    | false => simp
    | true =>
      cases h : c.actions store f.name (f.options.datasource.getD c.datasource) <;>
        simp [h, eq_comm]

theorem setup_eq_error_iff {r : Registry} {store : Store} : r.setup store f = .error e ↔
    r.source f = .error e ∨ ∃ source, r.source f = .ok source ∧
      (source.openActions store = .error e ∨
        ∃ binding, source.openActions store = .ok binding ∧ f.RefusesInit e) := by
  unfold Registry.setup
  simp only [andThen_eq_error_iff, init_eq_error_iff]

/-- **A call fails exactly if there is a reason for it**, and says which. -/
theorem result_eq_error_iff {c : LifeCall} : c.result f = .error e ↔ f.Refuses c e := by
  cases c with
  | install schema =>
    have hfails : f.installSchema schema = .error e ↔
        f.isCompiled = true ∧ e = .alreadyCompiled f.name := by
      unfold installSchema isCompiled
      cases f.schema? <;> simp [eq_comm]
    refine hfails.trans ⟨fun ⟨hc, he⟩ => he ▸ .install hc, ?_⟩
    rintro (hc | _)
    exact ⟨hc, rfl⟩
  | link target =>
    have hfails : f.link target = .error e ↔
        f.link?.isSome = true ∧ e = .alreadyCompiled f.name := by
      unfold link
      cases f.link? <;> simp [eq_comm]
    refine hfails.trans ⟨fun ⟨hl, he⟩ => he ▸ .link hl, ?_⟩
    rintro (_ | hl)
    exact ⟨hl, rfl⟩
  | init everywhere binding =>
    refine init_eq_error_iff.trans ⟨.init, ?_⟩
    rintro (_ | _ | h)
    exact h
  | setup r store =>
    refine setup_eq_error_iff.trans ⟨?_, ?_⟩
    · rintro (hs | ⟨source, hs, hb | ⟨binding, hb, hinit⟩⟩)
      · obtain ⟨name, hl, hgone, rfl⟩ := source_eq_error_iff.mp hs
        exact .source hl hgone
      · obtain ⟨c, cause, hc, hp, hactions, rfl⟩ := openActions_eq_error_iff.mp hb
        exact .connector hs hc hp hactions
      · exact .setup hs hb hinit
    · rintro (_ | _ | _ | ⟨hl, hgone⟩ | ⟨hs, hc, hp, hactions⟩ | ⟨hs, hb, hinit⟩)
      · exact .inl (source_eq_error_iff.mpr ⟨_, hl, hgone, rfl⟩)
      · exact .inr ⟨_, hs, .inl (openActions_eq_error_iff.mpr ⟨_, _, hc, hp, hactions, rfl⟩)⟩
      · exact .inr ⟨_, hs, .inr ⟨_, hb, hinit⟩⟩

/-! ### A whole life -/

variable {made : Factory}

theorem IsNew.eq_none (h : made.IsNew) :
    made.schema? = none ∧ made.link? = none ∧ made.runtime? = none :=
  ⟨Option.not_isSome_iff_eq_none.mp (Bool.eq_false_iff.mp (h .schema)),
    Option.not_isSome_iff_eq_none.mp (Bool.eq_false_iff.mp (h .link)),
    Option.not_isSome_iff_eq_none.mp (Bool.eq_false_iff.mp (h .runtime))⟩

/-- A factory that is given its fields has a schema by then. -/
theorem exists_install_of_start (h : made.IsNew) {calls : List LifeCall} {c : LifeCall}
    {f' : Factory} (hc : c.cell = .runtime) (hok : c.result (made.after calls) = .ok f') :
    ∃ schema, .install schema ∈ calls := by
  obtain ⟨everywhere, binding, hinit⟩ := LifeCall.exists_init_of_cell hc hok
  obtain ⟨schema, -, hschema, -, -⟩ := Registry.init_eq_ok hinit
  rw [schema?_after, h.eq_none.1, Option.none_or] at hschema
  obtain ⟨x, hx, hinstalls⟩ := List.exists_of_findSome?_eq_some hschema
  cases x with
  | install s => exact ⟨s, hx⟩
  | link | init | setup => cases hinstalls

/-- **A model that is not stored gets no actions.** -/
theorem actions?_after (hnone : f.actions? = none) (hp : f.options.persistent = false)
    (calls : List LifeCall) : (f.after calls).actions? = none := by
  induction calls generalizing f with
  | nil => exact hnone
  | cons c calls ih =>
    rw [after_cons]
    refine ih ?_ ?_
    · by_cases hc : c.cell = .runtime
      · obtain ⟨e, -, hsteps⟩ | ⟨f', hok, hsteps, -, -⟩ := c.steps_cases f
        · rw [hsteps]
          exact hnone
        · obtain ⟨everywhere, binding, hinit⟩ := LifeCall.exists_init_of_cell hc hok
          obtain ⟨schema, fields, -, -, rfl⟩ := Registry.init_eq_ok hinit
          rw [hsteps]
          exact if_neg (Bool.eq_false_iff.mp hp)
      · refine (f.content_stateLeft c (fun f other hother => ?_) hc).trans hnone
        cases other with
        | schema | link => rfl
        | runtime => exact absurd rfl hother
    · have hrest := congrArg (fun f => f.options.persistent) (f.continues_stateLeft c).rest
      exact hrest.trans hp

/-- A call that fails might as well not have been made. -/
theorem after_drop {e : ConfigError} {f' : Factory} {calls more : List LifeCall} {c : LifeCall}
    (h : c.steps (made.after calls) = .error e f') :
    made.after (calls ++ c :: more) = made.after (calls ++ more) := by
  rw [after_append, after_append, after_cons]
  obtain ⟨_, -, hsteps⟩ | ⟨_, -, hsteps, -, -⟩ := c.steps_cases (made.after calls)
  · rw [hsteps]
    rfl
  · rw [hsteps] at h
    cases h

/-- **A factory lives once.** Whatever calls a new factory gets, in any order and with anything
around it: its schema is the first one installed, and one without anything before that; it stands
for the first collection that it was told; every cell that is written was written by one call. A
call that succeeds makes of it what the function for the call answers. A call fails exactly if there
is a reason for it, and leaves everything as it was, so that it might as well not have been made.
The factory is not given its fields before it has a schema. Once there are fields, these, the
validators and the actions stay, and there are no actions if the model is not stored. -/
theorem lives_once (h : made.IsNew) (calls : List LifeCall) :
    (made.after calls).schema = (calls.findSome? LifeCall.schema?).getD {} ∧
    (made.after calls).link? = calls.findSome? LifeCall.target? ∧
    (∀ cell, (made.granted calls).countP (fun c => c.cell == cell) =
      if (made.after calls).holds cell then 1 else 0) ∧
    (∀ (c : LifeCall) f', c.steps (made.after calls) = .ok () f' ↔
      c.result (made.after calls) = .ok f') ∧
    (∀ (c : LifeCall) e f', c.steps (made.after calls) = .error e f' ↔
      f' = made.after calls ∧ (made.after calls).Refuses c e) ∧
    (∀ (c : LifeCall) f', c.cell = .runtime → c.steps (made.after calls) = .ok () f' →
      ∃ schema, .install schema ∈ calls) ∧
    (∀ (c : LifeCall) e f' more, c.steps (made.after calls) = .error e f' →
      made.after (calls ++ c :: more) = made.after (calls ++ more)) ∧
    ((made.after calls).isInitialized = true →
      ∀ more, (made.after (calls ++ more)).runtime? = (made.after calls).runtime?) ∧
    (made.options.persistent = false → (made.after calls).actions? = none) := by
  obtain ⟨hschema, hlink, hruntime⟩ := h.eq_none
  have hok : ∀ (c : LifeCall) f', c.steps (made.after calls) = .ok () f' ↔
      c.result (made.after calls) = .ok f' := by
    intro c f'
    rw [LifeCall.steps_eq]
    cases c.result (made.after calls) <;> simp [outcome]
  refine ⟨?_, ?_, fun cell => ?_, hok, fun c e f' => ?_, fun c f' hc hc' => ?_,
    fun _ _ _ _ => after_drop, fun hi more => ?_, fun hp => ?_⟩
  · rw [Factory.schema, schema?_after, hschema, Option.none_or]
  · rw [link?_after, hlink, Option.none_or]
  · rw [countP_granted, h cell]
    simp
  · rw [← result_eq_error_iff, LifeCall.steps_eq]
    cases c.result (made.after calls) <;> simp [outcome, and_comm, eq_comm]
  · exact exists_install_of_start h hc ((hok c f').mp hc')
  · obtain ⟨runtime, hr⟩ := Option.isSome_iff_exists.mp hi
    rw [after_append, hr]
    exact ((made.after calls).continues_after more).runtime runtime hr
  · exact actions?_after (by rw [actions?, hruntime]; rfl) hp calls

end Factory

namespace Beginning

/-- The factory of books, which are stored in the first database. -/
def books : Factory where
  name := "Book"
  cls := .plain "Book"
  options := { persistent := true }
  connector := some (.memory memoryDatasource 0)

/-- The books get their schema between two calls that come too early. -/
def early : List LifeCall :=
  [.init [] none, .install .initial, .setup {} { databases := [{ connected := false }] }]

/-- The books are set up, and then called twice more, in vain. -/
def late : List LifeCall :=
  [.setup {} { databases := [{ connected := true }] }, .install {}, .init [] none]

/-- The books get their first schema and, at the second try, their fields and actions; what comes
before and after that does nothing. -/
theorem books_started :
    (books.after (early ++ late)).schema = .initial ∧
    (books.granted (early ++ late)).countP (fun c => c.cell == .runtime) = 1 ∧
    (books.after (early ++ late)).runtime? = (books.after (early ++ late.take 1)).runtime? ∧
    (books.after early).actions?.isSome = false ∧
    (books.after (early ++ late)).actions?.isSome = true ∧
    books.after (early ++ late) = books.after (early.tail ++ late) ∧
    (LifeCall.install {}).steps (books.after early) =
      .error (.alreadyCompiled "Book") (books.after early) := by
  have hnew : books.IsNew := fun cell => by cases cell <;> rfl
  obtain ⟨hschema, -, hcells, -⟩ := Factory.lives_once hnew (early ++ late)
  obtain ⟨-, -, -, -, -, -, -, hstays, -⟩ := Factory.lives_once hnew (early ++ late.take 1)
  obtain ⟨-, -, -, -, hfails, -⟩ := Factory.lives_once hnew early
  obtain ⟨-, -, -, -, hnotYet, -, hdrop, -⟩ := Factory.lives_once hnew []
  refine ⟨hschema, ?_, ?_, by decide +kernel, by decide +kernel, ?_, ?_⟩
  · rw [hcells, if_pos (by decide +kernel)]
  · exact hstays (by decide +kernel) (late.drop 1)
  · exact hdrop _ _ _ (early.tail ++ late) ((hnotYet _ _ _).mpr ⟨rfl, .init (.notCompiled rfl)⟩)
  · exact (hfails _ _ _).mpr ⟨rfl, .install (by decide +kernel)⟩

end Beginning

end ModelRest
