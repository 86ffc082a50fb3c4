import ModelRest.Controller
import ModelRest.Proofs.Saving

/-!
# The stages of a request

A request that writes does three things: it plans the instance to be written (`Registry.plan`),
saves it, and answers with what it shows (`Registry.answer`). This is `perform_writes`. Planning and
answering leave the store as it is (`keeps_plan`, `keeps_answer`), and so do requests that only read.
What is planned is one of three things (`Plans`), which `planCreate_eq_ok_iff`,
`planRecord_eq_ok_iff` and `planReference_eq_ok_iff` describe.
-/

namespace ModelRest

/-! ### Operations -/

/-- What a request asks for. -/
inductive Operation where
  /-- The records that a query looks for. -/
  | query
  /-- A record. -/
  | read
  /-- A new record. -/
  | create
  /-- A record with its values replaced. -/
  | replace
  /-- A record with some of its values changed. -/
  | patch
  /-- No record any more. -/
  | delete
deriving DecidableEq

/-- The operation writes an instance. -/
def Operation.writes : Operation → Bool
  | .create | .replace | .patch => true
  | _ => false

/-- A request to a model. -/
structure Call where
  /-- What is asked for. -/
  operation : Operation
  /-- The factory of the model. -/
  factory : Factory
  /-- The request. -/
  request : Request

namespace Registry

/-- Answers a request to a model. -/
def perform (r : Registry) (call : Call) : StoreM RequestError Outcome :=
  match call.operation with
  | .query => r.query call.factory call.request
  | .read => r.read call.factory call.request
  | .create => r.create call.factory call.request
  | .replace => r.replace call.factory call.request
  | .patch => r.patch call.factory call.request
  | .delete => call.factory.delete call.request

/-! ### Stages -/

/-- The instance that a change of a reference writes, with the parameters of the request. -/
def planReference (r : Registry) (f : Factory) (req : Request) (reference : String)
    (append : Bool) : StoreM RequestError (Instance × Parameters) := do
  let _ ← liftLookup (r.target f reference)
  let params ← liftResult req.parameters
  let i ← f.loadFor req params
  let value ← liftResult (Reference.written reference ((f.field? reference).any Field.isPlural)
    append (i.get? reference) (Reference.simplify req.body))
  pure (i.set reference value, params)

/-- The instance that a change of a record writes, with the parameters of the request. -/
def planRecord (f : Factory) (req : Request) (deleteMissing : Bool) :
    StoreM RequestError (Instance × Parameters) := do
  liftResult req.requireObject
  let params ← liftResult req.parameters
  let i ← f.loadFor req params
  pure (f.updateValues i req.body { params with deleteMissing := deleteMissing }, params)

/-- The instance that a change writes, with the parameters of the request. -/
def planChange (r : Registry) (f : Factory) (req : Request) (deleteMissing : Bool) :
    StoreM RequestError (Instance × Parameters) :=
  match req.reference with
  | some reference => r.planReference f req reference (!deleteMissing)
  | none => planRecord f req deleteMissing

/-- The instance that a creation writes, with the parameters of the request. -/
def planCreate (f : Factory) (req : Request) : StoreM RequestError (Instance × Parameters) := do
  liftResult req.requireObject
  let params ← liftResult req.parameters
  pure (f.instanceOf req.body, params)

/-- The instance that a request writes, with the parameters of the request; one that does not write
has none. -/
def plan (r : Registry) (call : Call) : StoreM RequestError (Instance × Parameters) :=
  match call.operation with
  | .create => planCreate call.factory call.request
  | .replace => r.planChange call.factory call.request true
  | .patch => r.planChange call.factory call.request false
  | _ => throw .crashed

/-- The answer after an instance was written. -/
def answer (r : Registry) (call : Call) (i : Instance) (params : Parameters) :
    StoreM RequestError Outcome :=
  match call.operation, call.request.reference with
  | .create, _ => Outcome.created <$> liftFactory (r.serialize call.factory i params)
  | _, some reference => Outcome.ok <$> r.readReference call.factory i reference
  | _, none => Outcome.ok <$> liftFactory (r.serialize call.factory i params)

/-- A request that writes plans, saves and answers. -/
theorem perform_writes (r : Registry) {call : Call} (h : call.operation.writes = true) :
    r.perform call = (do
      let p ← r.plan call
      let i ← liftFactory (call.factory.saveInstance p.1 p.2)
      r.answer call i p.2) := by
  obtain ⟨operation, f, req⟩ := call
  have hchange : ∀ deleteMissing operation, operation = .replace ∨ operation = .patch →
      r.write f req deleteMissing = (do
        let p ← r.planChange f req deleteMissing
        let i ← liftFactory (f.saveInstance p.1 p.2)
        r.answer { operation := operation, factory := f, request := req } i p.2) := by
    intro deleteMissing operation hop
    unfold write planChange answer
    cases hr : req.reference with
    | some reference =>
      rcases hop with rfl | rfl <;>
        simp only [writeReference, planReference, bind_assoc, pure_bind]
    | none =>
      rcases hop with rfl | rfl <;>
        simp only [writeRecord, planRecord, bind_assoc, pure_bind]
  cases operation with
  | create =>
    simp only [perform, create, plan, planCreate, answer, bind_assoc, pure_bind]
    rfl
  | replace => exact hchange true .replace (.inl rfl)
  | patch => exact hchange false .patch (.inr rfl)
  | query | read | delete => cases h

end Registry

/-! ### What leaves the store as it is -/

theorem keeps_liftResult {ε α : Type} (x : Except ε α) : Keeps (liftResult x : StoreM ε α) := by
  cases x with
  | ok a => exact keeps_pure a
  | error e => exact keeps_throw e

theorem keeps_liftLookup {α : Type} (x : Except FactoryError α) : Keeps (liftLookup x) :=
  (keeps_liftResult x).adaptExcept _

theorem Actions.keeps_outside {α : Type} (x : Except String α) : Keeps (outside x) := by
  cases x with
  | ok a => exact keeps_pure a
  | error e => exact keeps_throw e

theorem Actions.keeps_query (a : Actions) (filter : Object) (params : Parameters) :
    Keeps (a.query filter params) := by
  cases a with
  | memory number collection => exact fun _ => rfl
  | service s => exact keeps_outside _

theorem Actions.keeps_read (a : Actions) (id : String) (params : Parameters) :
    Keeps (a.read id params) := by
  cases a with
  | memory number collection => exact fun _ => rfl
  | service s => exact keeps_outside _

namespace Factory

theorem keeps_fetchAll (f : Factory) (filter : Object) (params : Parameters) :
    Keeps (f.fetchAll filter params) :=
  (keeps_liftResult _).bind fun a => ((a.keeps_query filter params).adaptExcept _).bind fun _ =>
    keeps_pure _

theorem keeps_fetch (f : Factory) (id : String) (params : Parameters) :
    Keeps (f.fetch id params) :=
  (keeps_liftResult _).bind fun a => ((a.keeps_read id params).adaptExcept _).bind fun _ =>
    keeps_pure _

theorem keeps_loadFor (f : Factory) (req : Request) (params : Parameters) :
    Keeps (f.loadFor req params) := by
  refine (keeps_liftResult _).bind fun id => ((f.keeps_fetch id params).adaptExcept _).bind ?_
  intro i
  cases i with
  | none => exact keeps_throw _
  | some i => exact keeps_pure i

end Factory

theorem Reference.keeps_populateOne (actions : Actions) (select : Option String) (v : Json) :
    Keeps (populateOne actions select v) := by
  unfold populateOne
  split
  · exact keeps_pure v
  · refine ((actions.keeps_read _ _).adaptExcept _).bind fun record => ?_
    cases record with
    | none => exact keeps_pure _
    | some record => exact keeps_pure _

theorem Reference.keeps_populate (actions : Actions) (select : Option String) (v : Json) :
    Keeps (populate actions select v) := by
  unfold populate
  split
  · exact (Keeps.mapM (keeps_populateOne actions select) _).map _
  · exact keeps_populateOne actions select v

namespace Registry

theorem keeps_populateField (r : Registry) (f : Factory) (params : Parameters) (item : Json)
    (key : String) : Keeps (r.populateField f params item key) := by
  unfold populateField
  split
  · split
    · exact keeps_pure _
    · exact keeps_pure _
    · exact (keeps_liftResult _).bind fun target => (keeps_liftResult _).bind fun actions =>
        (Reference.keeps_populate actions _ _).bind fun _ => keeps_pure _
  · exact keeps_pure _

theorem keeps_serialize (r : Registry) (f : Factory) (i : Instance) (params : Parameters) :
    Keeps (r.serialize f i params) :=
  Keeps.foldlM (r.keeps_populateField f params) _ _

theorem keeps_readReference (r : Registry) (f : Factory) (i : Instance) (reference : String) :
    Keeps (r.readReference f i reference) :=
  (keeps_liftLookup _).bind fun _ =>
    ((r.keeps_populateField f _ _ reference).adaptExcept _).bind fun _ => keeps_pure _

theorem keeps_query (r : Registry) (f : Factory) (req : Request) : Keeps (r.query f req) :=
  (keeps_liftResult _).bind fun filter => (keeps_liftResult _).bind fun params =>
    ((f.keeps_fetchAll filter params).adaptExcept _).bind fun found =>
      (Keeps.mapM (fun i => (r.keeps_serialize f i params).adaptExcept _) found).bind fun _ =>
        keeps_pure _

theorem keeps_read (r : Registry) (f : Factory) (req : Request) : Keeps (r.read f req) := by
  refine (keeps_liftResult _).bind fun params => (f.keeps_loadFor req params).bind fun i => ?_
  cases req.reference with
  | some reference => exact (r.keeps_readReference f i reference).map _
  | none => exact ((r.keeps_serialize f i params).adaptExcept _).map _

/-- Planning leaves the store as it is. -/
theorem keeps_plan (r : Registry) (call : Call) : Keeps (r.plan call) := by
  have hchange : ∀ deleteMissing, Keeps (r.planChange call.factory call.request deleteMissing) := by
    intro deleteMissing
    unfold planChange
    split
    · exact (keeps_liftLookup _).bind fun _ => (keeps_liftResult _).bind fun params =>
        (call.factory.keeps_loadFor _ params).bind fun _ => (keeps_liftResult _).bind fun _ =>
          keeps_pure _
    · exact (keeps_liftResult _).bind fun _ => (keeps_liftResult _).bind fun params =>
        (call.factory.keeps_loadFor _ params).bind fun _ => keeps_pure _
  unfold plan
  split
  · exact (keeps_liftResult _).bind fun _ => (keeps_liftResult _).bind fun _ => keeps_pure _
  · exact hchange true
  · exact hchange false
  · exact keeps_throw _

/-- Answering leaves the store as it is. -/
theorem keeps_answer (r : Registry) (call : Call) (i : Instance) (params : Parameters) :
    Keeps (r.answer call i params) := by
  unfold answer
  split
  · exact ((r.keeps_serialize _ i params).adaptExcept _).map _
  · exact (r.keeps_readReference _ i _).map _
  · exact ((r.keeps_serialize _ i params).adaptExcept _).map _

end Registry

/-! ### What is planned -/

theorem liftFactory_apply {α : Type} (x : StoreM FactoryError α) (s : Store) :
    liftFactory x s = match x s with
      | .ok a s => .ok a s
      | .error e s => .error e.toRequest s := by
  unfold liftFactory
  rw [adaptExcept_apply]
  cases x s <;> rfl

theorem liftFactory_eq_ok_iff {α : Type} {x : StoreM FactoryError α} {s s' : Store} {a : α} :
    liftFactory x s = .ok a s' ↔ x s = .ok a s' := by
  rw [liftFactory_apply]
  cases x s <;> simp

theorem liftResult_eq_ok_iff {ε α : Type} {x : Except ε α} {s s' : Store} {a : α} :
    (liftResult x : StoreM ε α) s = .ok a s' ↔ x = .ok a ∧ s' = s := by
  cases x with
  | ok b =>
    simp only [liftResult, pure, EStateM.pure, EStateM.Result.ok.injEq, Except.ok.injEq]
    exact and_congr_right fun _ => eq_comm
  | error e =>
    constructor
    · intro h
      cases h
    · rintro ⟨h, -⟩
      cases h

theorem liftLookup_eq_ok_iff {α : Type} {x : Except FactoryError α} {s s' : Store} {a : α} :
    liftLookup x s = .ok a s' ↔ x = .ok a ∧ s' = s := by
  rw [← @liftResult_eq_ok_iff FactoryError]
  unfold liftLookup
  rw [liftFactory_apply]
  cases (liftResult x : StoreM FactoryError α) s <;> simp

namespace Factory

variable {f : Factory} {number : Nat} {collection : String} {s s' : Store}

/-- The instance that a request is about, of a model stored in memory. -/
theorem loadFor_eq (hb : f.actions? = some (.memory number collection)) (req : Request)
    (params : Parameters) :
    f.loadFor req params s =
      match req.id with
      | none => .error (.badRequest "missing instance id") s
      | some id =>
        match KeyMap.get? (s.records number collection) id with
        | none => .error (f.unknownId id) s
        | some record => .ok { model := f.name, values := record.values } s := by
  unfold loadFor Request.requireId
  cases req.id with
  | none => rfl
  | some id =>
    have hfetch : f.fetch id params s = .ok ((KeyMap.get? (s.records number collection) id).map
        fun record => { model := f.name, values := record.values }) s := by
      unfold fetch requireActions
      simp only [hb]
      show EStateM.Result.ok (((KeyMap.get? (s.records number collection) id).map
        StoredRecord.values |>.map Json.object).bind f.ofRecord?) s = _
      cases KeyMap.get? (s.records number collection) id <;> rfl
    have hload : f.load id params s = match KeyMap.get? (s.records number collection) id with
        | none => .error (f.unknownId id) s
        | some record => .ok { model := f.name, values := record.values } s := by
      unfold load
      rw [bind_apply, liftFactory_apply, hfetch]
      cases KeyMap.get? (s.records number collection) id <;> rfl
    exact hload

theorem loadFor_eq_ok_iff (hb : f.actions? = some (.memory number collection)) {req : Request}
    {params : Parameters} {i : Instance} :
    f.loadFor req params s = .ok i s' ↔ s' = s ∧ ∃ id record, req.id = some id ∧
      KeyMap.get? (s.records number collection) id = some record ∧
        i = { model := f.name, values := record.values } := by
  rw [loadFor_eq hb]
  cases req.id with
  | none => simp
  | some id =>
    cases hget : KeyMap.get? (s.records number collection) id with
    | none => simp [hget]
    | some record =>
      simp only [hget]
      constructor
      · rintro ⟨⟩
        exact ⟨rfl, id, record, rfl, hget, rfl⟩
      · rintro ⟨rfl, _, _, ⟨⟩, hget', rfl⟩
        rw [hget] at hget'
        cases hget'
        rfl

/-- A model that is not stored has no records. -/
theorem loadFor_of_unbound (hb : f.actions? = none) (req : Request) (params : Parameters) :
    ∃ e, f.loadFor req params s = .error e s := by
  unfold loadFor Request.requireId
  cases req.id with
  | none => exact ⟨_, rfl⟩
  | some id =>
    refine ⟨(FactoryError.notPersistent f.name).toRequest, ?_⟩
    show f.load id params s = _
    unfold load liftFactory fetch requireActions
    simp only [hb]
    rfl

end Factory

namespace Request

theorem requireObject_eq_ok_iff {req : Request} {u : Unit} :
    req.requireObject = .ok u ↔ ∃ body, req.body = .object body := by
  unfold requireObject
  cases req.body <;> simp

end Request

namespace Registry

variable {r : Registry} {f : Factory} {req : Request} {number : Nat} {collection : String}
  {s s' : Store} {i : Instance} {params : Parameters}

/-- A creation writes an instance of the body. -/
theorem planCreate_eq_ok_iff :
    planCreate f req s = .ok (i, params) s' ↔ s' = s ∧ ∃ body, req.body = .object body ∧
      req.parameters = .ok params ∧ i = f.instanceOf (.object body) := by
  unfold planCreate
  simp only [bind_eq_ok_iff, liftResult_eq_ok_iff, Request.requireObject_eq_ok_iff]
  constructor
  · rintro ⟨_, _, ⟨⟨body, hbody⟩, rfl⟩, _, _, ⟨hparams, rfl⟩, h⟩
    cases h
    exact ⟨rfl, body, hbody, hparams, by rw [hbody]⟩
  · rintro ⟨rfl, body, hbody, hparams, rfl⟩
    exact ⟨(), _, ⟨⟨body, hbody⟩, rfl⟩, params, _, ⟨hparams, rfl⟩, by rw [← hbody]; rfl⟩

/-- A change of a record writes the record with the body assigned to it. -/
theorem planRecord_eq_ok_iff (hb : f.actions? = some (.memory number collection))
    {deleteMissing : Bool} :
    planRecord f req deleteMissing s = .ok (i, params) s' ↔ s' = s ∧ ∃ body id record,
      req.body = .object body ∧ req.parameters = .ok params ∧ req.id = some id ∧
        KeyMap.get? (s.records number collection) id = some record ∧
        i = { model := f.name,
              values := f.assignAll { params with deleteMissing := deleteMissing } body
                record.values } := by
  unfold planRecord
  simp only [bind_eq_ok_iff, liftResult_eq_ok_iff, Request.requireObject_eq_ok_iff,
    Factory.loadFor_eq_ok_iff hb]
  constructor
  · rintro ⟨_, _, ⟨⟨body, hbody⟩, rfl⟩, _, _, ⟨hparams, rfl⟩, _, _,
      ⟨rfl, id, record, hid, hget, rfl⟩, h⟩
    cases h
    exact ⟨rfl, body, id, record, hbody, hparams, hid, hget, by rw [hbody]; rfl⟩
  · rintro ⟨rfl, body, id, record, hbody, hparams, hid, hget, rfl⟩
    refine ⟨(), _, ⟨⟨body, hbody⟩, rfl⟩, params, _, ⟨hparams, rfl⟩, _, _,
      ⟨rfl, id, record, hid, hget, rfl⟩, ?_⟩
    rw [hbody]
    rfl

/-- A change of a reference writes the record with the reference set. -/
theorem planReference_eq_ok_iff (hb : f.actions? = some (.memory number collection))
    {reference : String} {append : Bool} :
    r.planReference f req reference append s = .ok (i, params) s' ↔ s' = s ∧
      ∃ target id record value, r.target f reference = .ok target ∧
        req.parameters = .ok params ∧ req.id = some id ∧
        KeyMap.get? (s.records number collection) id = some record ∧
        Reference.written reference ((f.field? reference).any Field.isPlural) append
          (KeyMap.get? record.values reference) (Reference.simplify req.body) = .ok value ∧
        i = { model := f.name, values := KeyMap.insert record.values reference value } := by
  unfold planReference
  simp only [bind_eq_ok_iff, liftResult_eq_ok_iff, liftLookup_eq_ok_iff,
    Factory.loadFor_eq_ok_iff hb]
  constructor
  · rintro ⟨target, _, ⟨htarget, rfl⟩, _, _, ⟨hparams, rfl⟩, _, _,
      ⟨rfl, id, record, hid, hget, rfl⟩, value, _, ⟨hvalue, rfl⟩, h⟩
    cases h
    exact ⟨rfl, target, id, record, value, htarget, hparams, hid, hget, hvalue, rfl⟩
  · rintro ⟨rfl, target, id, record, value, htarget, hparams, hid, hget, hvalue, rfl⟩
    exact ⟨target, _, ⟨htarget, rfl⟩, params, _, ⟨hparams, rfl⟩, _, _,
      ⟨rfl, id, record, hid, hget, rfl⟩, value, _, ⟨hvalue, rfl⟩, rfl⟩

/-- What a request plans to write. -/
inductive Plans (r : Registry) (call : Call) (s : Store) (i : Instance) (params : Parameters)
    (s' : Store) : Prop where
  /-- A new record. -/
  | create (hop : call.operation = .create)
      (h : planCreate call.factory call.request s = .ok (i, params) s') : Plans r call s i params s'
  /-- A record with a reference changed. -/
  | reference {reference : String} {append : Bool}
      (hop : call.operation = .replace ∨ call.operation = .patch)
      (href : call.request.reference = some reference)
      (h : r.planReference call.factory call.request reference append s = .ok (i, params) s') :
      Plans r call s i params s'
  /-- A record with its values changed. -/
  | record {deleteMissing : Bool} (hop : call.operation = .replace ∨ call.operation = .patch)
      (href : call.request.reference = none)
      (h : planRecord call.factory call.request deleteMissing s = .ok (i, params) s') :
      Plans r call s i params s'

theorem plans_of_plan {call : Call} (h : r.plan call s = .ok (i, params) s') :
    r.Plans call s i params s' := by
  have hchange : ∀ deleteMissing, call.operation = .replace ∨ call.operation = .patch →
      r.planChange call.factory call.request deleteMissing s = .ok (i, params) s' →
        r.Plans call s i params s' := by
    intro deleteMissing hop hplan
    unfold planChange at hplan
    cases href : call.request.reference with
    | some reference =>
      rw [href] at hplan
      exact .reference hop href hplan
    | none =>
      rw [href] at hplan
      exact .record hop href hplan
  unfold plan at h
  cases hop : call.operation with
  | create =>
    rw [hop] at h
    exact .create hop h
  | replace =>
    rw [hop] at h
    exact hchange true (.inl hop) h
  | patch =>
    rw [hop] at h
    exact hchange false (.inr hop) h
  | query | read | delete =>
    rw [hop] at h
    cases h

end Registry

end ModelRest
