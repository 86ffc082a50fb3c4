import Mathlib.Logic.Function.Iterate
import ModelRest.Proofs.Transitions

/-!
# Requests that take turns

A request waits at every access to the store, and others may go on meanwhile. `Registry.advance` is
what a request does from one wait to the next: it loads what it is about, lets the validators look at
the instance, updates its record, creates one if there was none, and answers; a deletion loads the
record and deletes it. Each of these steps is done at once.

`Registry.race` lets several requests take turns in any order. A request that takes its turns alone
does what `Registry.perform` does (`race_alone`). For models without hooks, stored in memory,
`check_eq`, `updateStored_eq` and `createStored_eq` say what the steps of saving do.
-/

namespace ModelRest

/-! ### The steps of saving -/

namespace Factory

/-- The instance, if it is as wanted. -/
def Saved.result : Saved × Store → EStateM.Result FactoryError Store Instance
  | ({ saved, outcome := .ok () }, s) => .ok saved s
  | ({ outcome := .error e, .. }, s) => .error e s

/-- Makes an instance ready to be written. -/
def check (f : Factory) (i : Instance) : StoreM FactoryError Instance := fun s =>
  Saved.result (f.prepare s i, s)

/-- Takes over what is stored of an instance. -/
def takeOver (f : Factory) (i : Instance) (stored : Json) : StoreM FactoryError Instance := fun s =>
  Saved.result (f.finish i stored, s)

/-- Updates the record of an instance, if there is one. -/
def updateStored (f : Factory) (i : Instance) (params : Parameters) :
    StoreM FactoryError (Option Instance) := do
  let actions ← liftResult f.requireActions
  match i.id? with
  | none => pure none
  | some id =>
    match ← liftAction (actions.update id (.object (f.simplifyValues i.values))
      { params with deleteMissing := true }) with
    | none => pure none
    | some stored =>
      let i ← f.takeOver i stored
      pure (some i)

/-- Creates a record of an instance. -/
def createStored (f : Factory) (i : Instance) (params : Parameters) :
    StoreM FactoryError Instance := do
  let actions ← liftResult f.requireActions
  let stored ← liftAction (actions.create (.object (f.simplifyValues i.values)) params)
  f.takeOver i stored

variable {f : Factory} {actions : Actions} {i : Instance} {params : Parameters} {s : Store}

theorem createStored_apply (h : f.requireActions = .ok actions) : f.createStored i params s =
    match actions.create (.object (f.simplifyValues i.values)) params s with
    | .error cause s => .error (.datastore cause) s
    | .ok stored s => f.takeOver i stored s := by
  unfold createStored
  rw [h, bind_apply]
  show (liftAction _ >>= _) s = _
  rw [bind_apply, liftAction, adaptExcept_apply]
  cases actions.create (.object (f.simplifyValues i.values)) params s <;> rfl

theorem updateStored_apply (h : f.requireActions = .ok actions) : f.updateStored i params s =
    match i.id? with
    | none => .ok none s
    | some id =>
      match actions.update id (.object (f.simplifyValues i.values))
        { params with deleteMissing := true } s with
      | .error cause s => .error (.datastore cause) s
      | .ok none s => .ok none s
      | .ok (some stored) s =>
        match f.takeOver i stored s with
        | .ok i s => .ok (some i) s
        | .error e s => .error e s := by
  unfold updateStored
  rw [h, bind_apply]
  cases i.id? with
  | none => rfl
  | some id =>
    show (liftAction _ >>= _) s = _
    rw [bind_apply, liftAction, adaptExcept_apply]
    dsimp only
    cases actions.update id (.object (f.simplifyValues i.values))
      { params with deleteMissing := true } s with
    | error cause s => rfl
    | ok stored? s =>
      cases stored? with
      | none => rfl
      | some stored =>
        dsimp only
        rw [bind_apply]
        cases f.takeOver i stored s <;> rfl

/-- **Saving is done in three steps**, the last of them only where there is no record to update. -/
theorem saveInstance_eq_steps (f : Factory) (i : Instance) (params : Parameters) :
    f.saveInstance i params = (do
      let i ← f.check i
      match ← f.updateStored i params with
      | some i => pure i
      | none => f.createStored i params) := by
  funext s
  rw [bind_apply]
  have hsave : f.saveInstance i params s = Saved.result (f.save i params s) := by
    unfold saveInstance
    obtain ⟨⟨saved, outcome⟩, s'⟩ := f.save i params s
    cases outcome <;> rfl
  rw [hsave]
  unfold save check
  obtain ⟨saved, outcome⟩ := f.prepare s i
  cases outcome with
  | error e => rfl
  | ok u =>
    dsimp only [Saved.result]
    rw [bind_apply]
    cases hactions : f.requireActions with
    | error e =>
      unfold updateStored
      rw [hactions]
      rfl
    | ok actions =>
      rw [updateStored_apply hactions]
      unfold write
      cases saved.id? with
      | none =>
        dsimp only
        rw [createStored_apply hactions]
        cases actions.create (.object (f.simplifyValues saved.values)) params s <;> rfl
      | some id =>
        dsimp only
        rw [bind_apply]
        cases actions.update id (.object (f.simplifyValues saved.values))
          { params with deleteMissing := true } s with
        | error cause s => rfl
        | ok stored? s =>
          cases stored? with
          | none =>
            dsimp only
            rw [createStored_apply hactions]
            cases actions.create (.object (f.simplifyValues saved.values)) params s <;> rfl
          | some stored =>
            show f.takeOver saved stored s = _
            dsimp only
            cases f.takeOver saved stored s <;> rfl

/-! ### The steps of a deletion -/

/-- Loads the instance of the record that is to be deleted. -/
def loadDoomed (f : Factory) (req : Request) : StoreM RequestError Instance := do
  let params ← liftResult req.parameters
  f.loadFor req params

/-- Deletes the record of an instance that was loaded. -/
def deleteLoaded (f : Factory) (i : Instance) : StoreM RequestError Outcome := do
  if ← liftFactory (f.deleteInstance i) then pure .deleted
  else throw (f.unknownId (i.id?.getD ""))

theorem delete_eq_steps (f : Factory) (req : Request) :
    f.delete req = f.loadDoomed req >>= f.deleteLoaded := by
  unfold delete loadDoomed
  rw [bind_assoc]
  rfl

/-! ### Steps over databases in memory -/

variable {number : Nat} {collection : String}

/-- Without hooks, the validators decide whether an instance may be written. -/
theorem check_eq (hf : f.HookFree) : f.check i s =
    if f.accepts s i then .ok (f.diagnose s i) s
    else .error (.validation (f.diagnose s i).diagnoses) s := by
  unfold check accepts
  rw [prepare_eq hf]
  unfold verdict
  cases (f.diagnose s i).hasErrors <;> rfl

theorem takeOver_eq (hf : f.HookFree) (values : Object) :
    f.takeOver i (.object values) s = .ok (i.replace values) s := by
  unfold takeOver finish runHook
  simp only [hf.2]
  rfl

theorem requireActions_eq (hb : f.actions? = some actions) : f.requireActions = .ok actions := by
  unfold requireActions
  rw [hb]

theorem updateStored_of_stored (hf : f.HookFree)
    (hb : f.actions? = some (.memory number collection)) {id : String} {old : StoredRecord}
    (hid : i.id? = some id) (hold : KeyMap.get? (s.records number collection) id = some old) :
    f.updateStored i params s =
      .ok (some (i.replace (updatedValues old.values (f.simplifyValues i.values) id true s.nextStamp)))
        (s.afterUpdate number collection id
          { old with
            values := updatedValues old.values (f.simplifyValues i.values) id true s.nextStamp }) := by
  rw [updateStored_apply (requireActions_eq hb), hid]
  simp only [Actions.update, Store.update_object, hold, takeOver_eq hf]

theorem updateStored_of_not_stored (hb : f.actions? = some (.memory number collection))
    (h : ∀ id, i.id? = some id → KeyMap.get? (s.records number collection) id = none) :
    f.updateStored i params s = .ok none s := by
  rw [updateStored_apply (requireActions_eq hb)]
  cases hid : i.id? with
  | none => rfl
  | some id => simp only [Actions.update, Store.update_object, h id hid]

theorem createStored_eq (hf : f.HookFree) (hb : f.actions? = some (.memory number collection)) :
    f.createStored i params s =
      if KeyMap.contains (s.records number collection) (s.newId (f.simplifyValues i.values)) then
        .error (.datastore
          s!"duplicate _id '{s.newId (f.simplifyValues i.values)}' in '{collection}'") s
      else
        .ok (i.replace (createdValues (f.simplifyValues i.values)
            (s.newId (f.simplifyValues i.values)) s.nextStamp))
          (s.afterCreate number collection (f.simplifyValues i.values)) := by
  rw [createStored_apply (requireActions_eq hb)]
  simp only [Actions.create, Store.create_object]
  by_cases hc : KeyMap.contains (s.records number collection)
      (s.newId (f.simplifyValues i.values)) = true
  · simp only [hc, if_true]
  · simp only [hc, Bool.false_eq_true, if_false, takeOver_eq hf]

end Factory

/-! ### How far a request is -/

/-- How far a request is. -/
inductive Progress where
  /-- It has not begun. -/
  | asked
  /-- It has an instance to write. -/
  | planned (i : Instance) (params : Parameters)
  /-- The instance is ready to be written. -/
  | ready (i : Instance) (params : Parameters)
  /-- There was no record of the instance to be updated. -/
  | missed (i : Instance) (params : Parameters)
  /-- The instance is written. -/
  | saved (i : Instance) (params : Parameters)
  /-- It has the instance of the record that it deletes. -/
  | loaded (i : Instance)
  /-- It is answered. -/
  | answered (result : Except RequestError Outcome)

namespace Progress

/-- How far a request is after a step, with the store that the step left; an error is its answer. -/
def ofResult {α : Type} (next : α → Progress) :
    EStateM.Result RequestError Store α → Progress × Store
  | .ok a s => (next a, s)
  | .error e s => (.answered (.error e), s)

/-- The request is answered with an outcome. -/
def succeeded (outcome : Outcome) : Progress := .answered (.ok outcome)

/-- The request has succeeded. -/
def hasSucceeded : Progress → Bool
  | .answered (.ok _) => true
  | _ => false

/-- The request has failed. -/
def hasFailed : Progress → Bool
  | .answered (.error _) => true
  | _ => false

/-- The request has deleted a record. -/
def hasDeleted : Progress → Bool
  | .answered (.ok .deleted) => true
  | _ => false

/-- The request is answered. -/
def isAnswered : Progress → Bool
  | .answered _ => true
  | _ => false

/-- The request will not write any more. -/
def isPast : Progress → Bool
  | .saved .. | .answered _ => true
  | _ => false

/-- The request has an instance that it has not written yet. -/
def isWriting : Progress → Bool
  | .planned .. | .ready .. | .missed .. => true
  | _ => false

theorem of_hasSucceeded {progress : Progress} (h : progress.hasSucceeded = true) :
    progress.hasFailed = false ∧ progress.isPast = true := by
  cases progress with
  | answered result =>
    cases result with
    | ok outcome => exact ⟨rfl, rfl⟩
    | error e => cases h
  | asked | planned | ready | missed | saved | loaded => cases h

end Progress

namespace Registry

/-- The first step of a request, which is all there is to one that only reads. -/
def firstStep (r : Registry) (call : Call) (s : Store) : Progress × Store :=
  if call.operation.writes then Progress.ofResult (fun p => .planned p.1 p.2) (r.plan call s)
  else if call.operation = .delete then
    Progress.ofResult .loaded (call.factory.loadDoomed call.request s)
  else Progress.ofResult .succeeded (r.perform call s)

/-- The next step of a request. -/
def advance (r : Registry) (call : Call) : Progress → Store → Progress × Store
  | .asked, s => r.firstStep call s
  | .planned i params, s =>
    Progress.ofResult (.ready · params) (liftFactory (call.factory.check i) s)
  | .ready i params, s =>
    Progress.ofResult (·.elim (.missed i params) (.saved · params))
      (liftFactory (call.factory.updateStored i params) s)
  | .missed i params, s =>
    Progress.ofResult (.saved · params) (liftFactory (call.factory.createStored i params) s)
  | .saved i params, s => Progress.ofResult .succeeded (r.answer call i params s)
  | .loaded i, s => Progress.ofResult .succeeded (call.factory.deleteLoaded i s)
  | .answered result, s => (.answered result, s)

/-! ### A request alone -/

/-- A request and its store after a step. -/
def step (r : Registry) (call : Call) (p : Progress × Store) : Progress × Store :=
  r.advance call p.1 p.2

variable {r : Registry} {call : Call}

/-- An answered request is done. -/
theorem iterate_step_answered (n : Nat) (result : Except RequestError Outcome) (s : Store) :
    (r.step call)^[n] (.answered result, s) = (.answered result, s) :=
  Function.iterate_fixed rfl n

/-- If a request goes on with each result of a step as a computation does, then it does from the step
on as the two computations do. -/
theorem iterate_step_bind {α : Type} {n : Nat} {next : α → Progress} {x : StoreM RequestError α}
    {rest : α → StoreM RequestError Outcome}
    (h : ∀ a s, (r.step call)^[n] (next a, s) = Progress.ofResult .succeeded (rest a s)) (s : Store) :
    (r.step call)^[n] (Progress.ofResult next (x s)) =
      Progress.ofResult .succeeded ((x >>= rest) s) := by
  rw [bind_apply]
  cases x s with
  | ok a s => exact h a s
  | error e s => exact iterate_step_answered n _ s

/-- An outcome is the last thing that a request comes to. -/
theorem iterate_step_last (n : Nat) (x : StoreM RequestError Outcome) (s : Store) :
    (r.step call)^[n] (Progress.ofResult .succeeded (x s)) = Progress.ofResult .succeeded (x s) := by
  cases x s with
  | ok outcome s => exact iterate_step_answered n (.ok outcome) s
  | error e s => exact iterate_step_answered n (.error e) s

theorem iterate_step_saved (n : Nat) (i : Instance) (params : Parameters) (s : Store) :
    (r.step call)^[n + 1] (.saved i params, s) =
      Progress.ofResult .succeeded (r.answer call i params s) :=
  iterate_step_last n (r.answer call i params) s

theorem iterate_step_missed (n : Nat) (i : Instance) (params : Parameters) (s : Store) :
    (r.step call)^[n + 2] (.missed i params, s) = Progress.ofResult .succeeded
      ((liftFactory (call.factory.createStored i params) >>= (r.answer call · params)) s) :=
  iterate_step_bind (fun i => iterate_step_saved n i params) s

/-- An instance that is ready is updated or created, and the request answered. -/
theorem iterate_step_ready (n : Nat) (i : Instance) (params : Parameters) (s : Store) :
    (r.step call)^[n + 3] (.ready i params, s) = Progress.ofResult .succeeded
      ((liftFactory (call.factory.updateStored i params) >>= fun i? => match i? with
        | some i => r.answer call i params
        | none => liftFactory (call.factory.createStored i params) >>= (r.answer call · params)) s) := by
  refine iterate_step_bind (fun i? s => ?_) s
  cases i? with
  | some i => exact iterate_step_saved (n + 1) i params s
  | none => exact iterate_step_missed n i params s

theorem liftFactory_bind {α β : Type} (x : StoreM FactoryError α) (f : α → StoreM FactoryError β) :
    liftFactory (x >>= f) = liftFactory x >>= fun a => liftFactory (f a) := by
  funext s
  rw [bind_apply, liftFactory_apply, liftFactory_apply, bind_apply]
  cases x s with
  | ok a s => exact (liftFactory_apply (f a) s).symm
  | error e s => rfl

/-- **The steps together are the request.** -/
theorem iterate_step_asked (r : Registry) (call : Call) (n : Nat) (s : Store) :
    (r.step call)^[n + 5] (.asked, s) = Progress.ofResult .succeeded (r.perform call s) := by
  rw [Function.iterate_succ_apply]
  show (r.step call)^[n + 4] (r.firstStep call s) = _
  unfold firstStep
  by_cases hw : call.operation.writes = true
  case pos =>
    rw [if_pos hw, perform_writes r hw]
    refine iterate_step_bind (fun p s => ?_) s
    rw [Factory.saveInstance_eq_steps, liftFactory_bind, bind_assoc]
    refine iterate_step_bind (fun i s => ?_) s
    refine (iterate_step_ready n i p.2 s).trans (congrArg _ ?_)
    rw [liftFactory_bind, bind_assoc]
    refine congrFun (congrArg (_ >>= ·) (funext fun i? => ?_)) s
    cases i? with
    | some i => rfl
    | none => rfl
  case neg =>
    rw [if_neg hw]
    by_cases hd : call.operation = .delete
    case pos =>
      have hperform : r.perform call = call.factory.loadDoomed call.request >>=
          call.factory.deleteLoaded := by
        rw [← Factory.delete_eq_steps]
        unfold perform
        rw [hd]
      rw [if_pos hd, hperform]
      refine iterate_step_bind (fun i s => ?_) s
      exact iterate_step_last (n + 3) (call.factory.deleteLoaded i) s
    case neg =>
      rw [if_neg hd]
      exact iterate_step_last (n + 4) (r.perform call) s

end Registry

/-! ### Requests in turn -/

/-- Several requests under way over one store. -/
structure Race (ι : Type) where
  /-- The store. -/
  store : Store
  /-- How far each request is. -/
  progress : ι → Progress

namespace Registry

section Turns

variable {ι : Type} [DecidableEq ι]

/-- The requests after a turn of one of them. -/
def turn (r : Registry) (calls : ι → Call) (race : Race ι) (party : ι) : Race ι where
  store := (r.advance (calls party) (race.progress party) race.store).2
  progress := Function.update race.progress party
    (r.advance (calls party) (race.progress party) race.store).1

/-- The requests after they have taken these turns over a store. -/
def race (r : Registry) (calls : ι → Call) (s : Store) (turns : List ι) : Race ι :=
  turns.foldl (r.turn calls) { store := s, progress := fun _ => .asked }

variable {r : Registry} {calls : ι → Call} {s : Store}

/-- One turn more. -/
theorem race_append_singleton (turns : List ι) (party : ι) :
    r.race calls s (turns ++ [party]) = r.turn calls (r.race calls s turns) party :=
  List.foldl_append

/-- At some time it was so with the requests and the store. -/
def Sometime (r : Registry) (calls : ι → Call) (s : Store) (turns : List ι)
    (so : Race ι → Prop) : Prop :=
  ∃ before, before <+: turns ∧ so (r.race calls s before)

theorem sometime_nil {so : Race ι → Prop} : r.Sometime calls s [] so ↔ so (r.race calls s []) := by
  unfold Sometime
  simp

theorem sometime_append_singleton {so : Race ι → Prop} {turns : List ι} {party : ι} :
    r.Sometime calls s (turns ++ [party]) so ↔
      r.Sometime calls s turns so ∨ so (r.turn calls (r.race calls s turns) party) := by
  unfold Sometime
  rw [← race_append_singleton]
  simp only [List.prefix_concat_iff]
  constructor
  · rintro ⟨before, rfl | hbefore, h⟩
    · exact .inr h
    · exact .inl ⟨before, hbefore, h⟩
  · rintro (⟨before, hbefore, h⟩ | h)
    · exact ⟨before, .inr hbefore, h⟩
    · exact ⟨_, .inl rfl, h⟩

theorem turn_store (r : Registry) (calls : ι → Call) (race : Race ι) (party : ι) :
    (r.turn calls race party).store =
      (r.advance (calls party) (race.progress party) race.store).2 := rfl

theorem turn_progress_self (r : Registry) (calls : ι → Call) (race : Race ι) (party : ι) :
    (r.turn calls race party).progress party =
      (r.advance (calls party) (race.progress party) race.store).1 :=
  Function.update_self ..

theorem turn_progress_of_ne (r : Registry) (calls : ι → Call) (race : Race ι) {party other : ι}
    (h : other ≠ party) : (r.turn calls race party).progress other = race.progress other :=
  Function.update_of_ne h ..

/-- **A request that takes its turns alone** does what it does at once. -/
theorem race_alone (r : Registry) (calls : ι → Call) (s : Store) (party : ι) {n : Nat} (hn : 5 ≤ n) :
    ((r.race calls s (List.replicate n party)).progress party,
      (r.race calls s (List.replicate n party)).store) =
      Progress.ofResult .succeeded (r.perform (calls party) s) := by
  have hsteps : ∀ n, ((r.race calls s (List.replicate n party)).progress party,
      (r.race calls s (List.replicate n party)).store) = (r.step (calls party))^[n] (.asked, s) := by
    intro n
    induction n with
    | zero => rfl
    | succ n ih =>
      rw [List.replicate_succ', race_append_singleton, turn_progress_self, turn_store,
        Function.iterate_succ_apply', ← ih]
      rfl
  obtain ⟨k, rfl⟩ := Nat.exists_eq_add_of_le hn
  rw [hsteps, Nat.add_comm]
  exact iterate_step_asked r (calls party) k s

end Turns

/-! ### Steps over databases in memory -/

section Memory

variable {r : Registry} {call : Call} {s : Store} {number : Nat} {collection : String}
  {i : Instance} {params : Parameters}

/-- The validators decide whether an instance becomes ready. -/
theorem advance_planned (hooks : call.factory.HookFree) :
    r.advance call (.planned i params) s =
      (if call.factory.accepts s i then .ready (call.factory.diagnose s i) params
        else .answered (.error
          (FactoryError.validation (call.factory.diagnose s i).diagnoses).toRequest), s) := by
  rw [advance, liftFactory_apply, Factory.check_eq hooks]
  cases call.factory.accepts s i <;> rfl

/-- An instance that is ready takes the place of the record of its identifier. -/
theorem advance_ready_of_stored (hooks : call.factory.HookFree)
    (hb : call.factory.actions? = some (.memory number collection)) {id : String}
    {old : StoredRecord} (hid : i.id? = some id)
    (hold : KeyMap.get? (s.records number collection) id = some old) :
    r.advance call (.ready i params) s =
      (.saved (i.replace (updatedValues old.values (call.factory.simplifyValues i.values) id true
          s.nextStamp)) params,
        s.afterUpdate number collection id { old with
          values := updatedValues old.values (call.factory.simplifyValues i.values) id true
            s.nextStamp }) := by
  rw [advance, liftFactory_apply, Factory.updateStored_of_stored hooks hb hid hold]
  rfl

/-- If there is no such record, then one is to be created. -/
theorem advance_ready_of_not_stored
    (hb : call.factory.actions? = some (.memory number collection))
    (h : ∀ id, i.id? = some id → KeyMap.get? (s.records number collection) id = none) :
    r.advance call (.ready i params) s = (.missed i params, s) := by
  rw [advance, liftFactory_apply, Factory.updateStored_of_not_stored hb h]
  rfl

/-- A record is created unless there is one of the identifier. -/
theorem advance_missed (r : Registry) (hooks : call.factory.HookFree)
    (hb : call.factory.actions? = some (.memory number collection)) (i : Instance)
    (params : Parameters) (s : Store) :
    (∃ e, r.advance call (.missed i params) s = (.answered (.error e), s) ∧
        KeyMap.contains (s.records number collection)
          (s.newId (call.factory.simplifyValues i.values)) = true) ∨
      (∃ i', r.advance call (.missed i params) s =
        (.saved i' params, s.afterCreate number collection (call.factory.simplifyValues i.values))) ∧
        KeyMap.contains (s.records number collection)
          (s.newId (call.factory.simplifyValues i.values)) = false := by
  rw [advance, liftFactory_apply, Factory.createStored_eq hooks hb]
  cases hc : KeyMap.contains (s.records number collection)
      (s.newId (call.factory.simplifyValues i.values)) with
  | true => exact .inl ⟨_, rfl, rfl⟩
  | false => exact .inr ⟨⟨_, rfl⟩, rfl⟩

theorem deleteLoaded_eq (hb : call.factory.actions? = some (.memory number collection)) :
    call.factory.deleteLoaded i s =
      match i.id? with
      | none => .error (call.factory.unknownId "") s
      | some id =>
        if KeyMap.contains (s.records number collection) id then
          .ok .deleted (s.afterDelete number collection id)
        else .error (call.factory.unknownId id) s := by
  unfold Factory.deleteLoaded
  rw [bind_apply, Factory.deleteInstance_eq hb]
  cases i.id? with
  | none => rfl
  | some id =>
    dsimp only
    cases KeyMap.contains (s.records number collection) id <;> rfl

end Memory

end Registry

/-! ### What a step does to the store -/

/-- What a step of a request to a model without hooks, stored in memory, does to the store. -/
inductive Store.Touched (number : Nat) (collection : String) (s : Store) : Store → Prop where
  /-- Nothing. -/
  | nothing : Touched number collection s s
  /-- A record was written. -/
  | written {id? : Option String} {values stored : Object} {s' : Store}
      (hw : Store.Written s s' number collection id? values stored) : Touched number collection s s'
  /-- A record was deleted. -/
  | deleted (id : String) : Touched number collection s (s.afterDelete number collection id)

namespace Store.Touched

variable {number : Nat} {collection : String} {s s' : Store}

theorem size (h : s.Touched number collection s') : s'.databases.length = s.databases.length := by
  cases h with
  | nothing => rfl
  | written hw => exact hw.size
  | deleted => exact List.length_set

theorem sound (h : s.Touched number collection s') (hn : number < s.databases.length)
    (hs : s.Sound) : s'.Sound := by
  cases h with
  | nothing => exact hs
  | written hw => exact hw.sound hs
  | deleted => exact hs.afterDelete hn

end Store.Touched

theorem Progress.ofResult_snd {α : Type} (next : α → Progress)
    (x : EStateM.Result RequestError Store α) : (ofResult next x).2 = stateLeft x := by
  cases x <;> rfl

namespace Registry

variable {r : Registry} {call : Call} {s : Store} {number : Nat} {collection : String}

/-- The first step leaves the store as it is. -/
theorem firstStep_snd (r : Registry) (call : Call) (s : Store) : (r.firstStep call s).2 = s := by
  unfold firstStep
  by_cases hw : call.operation.writes = true
  case pos =>
    rw [if_pos hw, Progress.ofResult_snd]
    exact r.keeps_plan call s
  case neg =>
    rw [if_neg hw]
    by_cases hd : call.operation = .delete
    case pos =>
      have hload : Keeps (call.factory.loadDoomed call.request) :=
        (keeps_liftResult _).bind fun params => call.factory.keeps_loadFor call.request params
      rw [if_pos hd, Progress.ofResult_snd]
      exact hload s
    case neg =>
      rw [if_neg hd, Progress.ofResult_snd]
      obtain ⟨operation, f, req⟩ := call
      cases operation with
      | query => exact r.keeps_query f req s
      | read => exact r.keeps_read f req s
      | create | replace | patch => exact (hw rfl).elim
      | delete => exact (hd rfl).elim

/-- **What a step does to the store.** -/
theorem advance_touches (r : Registry) (hooks : call.factory.HookFree)
    (hb : call.factory.actions? = some (.memory number collection))
    (hn : number < s.databases.length) (progress : Progress) :
    s.Touched number collection (r.advance call progress s).2 := by
  have hsame : ∀ {s' : Store}, s' = s → s.Touched number collection s' := by
    rintro s' rfl
    exact .nothing
  cases progress with
  | asked => exact hsame (r.firstStep_snd call s)
  | planned i params => exact hsame (congrArg Prod.snd (advance_planned hooks))
  | ready i params =>
    rcases Factory.stored_or_not (s.records number collection) i.id? with
      ⟨id, old, hid, hold⟩ | hnew
    · rw [advance_ready_of_stored hooks hb hid hold]
      exact .written (.updated hid hold (Store.put_afterUpdate hn _))
    · exact hsame (congrArg Prod.snd (advance_ready_of_not_stored hb hnew))
  | missed i params =>
    rcases r.advance_missed hooks hb i params s with ⟨e, h, -⟩ | ⟨⟨i', h⟩, hfree⟩
    · exact hsame (congrArg Prod.snd h)
    · have hwritten : s.Written
          (s.afterCreate number collection (call.factory.simplifyValues i.values)) number collection
          none _ _ := .created nofun hfree (Store.put_afterCreate hn _)
      rw [h]
      exact .written hwritten
  | saved i params =>
    refine hsame ?_
    rw [advance, Progress.ofResult_snd]
    exact r.keeps_answer call i params s
  | loaded i =>
    rw [advance, Progress.ofResult_snd, deleteLoaded_eq hb]
    cases i.id? with
    | none => exact .nothing
    | some id =>
      dsimp only
      cases KeyMap.contains (s.records number collection) id with
      | true => exact .deleted id
      | false => exact .nothing
  | answered result => exact .nothing

/-- What does not write any more leaves the store as it is. -/
theorem advance_of_isPast (r : Registry) (call : Call) {progress : Progress}
    (h : progress.isPast = true) :
    (r.advance call progress s).2 = s ∧ (r.advance call progress s).1.isPast = true := by
  cases progress with
  | saved i params =>
    rw [advance, Progress.ofResult_snd]
    refine ⟨r.keeps_answer call i params s, ?_⟩
    cases r.answer call i params s <;> rfl
  | answered result => exact ⟨rfl, rfl⟩
  | asked | planned | ready | missed | loaded => cases h

/-- A request that has failed stays so. -/
theorem hasFailed_advance {progress : Progress} (h : progress.hasFailed = true) :
    (r.advance call progress s).1.hasFailed = true := by
  cases progress with
  | answered result => exact h
  | asked | planned | ready | missed | saved | loaded => cases h

/-- Requests that take turns keep the databases that there are, and all records in order. -/
theorem race_sound {ι : Type} [DecidableEq ι] (r : Registry) {calls : ι → Call}
    (hooks : ∀ party, (calls party).factory.HookFree)
    (hb : ∀ party, (calls party).factory.actions? = some (.memory number collection))
    (hn : number < s.databases.length) (hs : s.Sound) (turns : List ι) :
    (r.race calls s turns).store.databases.length = s.databases.length ∧
      (r.race calls s turns).store.Sound := by
  induction turns using List.reverseRecOn with
  | nil => exact ⟨rfl, hs⟩
  | append_singleton turns party ih =>
    obtain ⟨hsize, hsound⟩ := ih
    have hn' : number < (r.race calls s turns).store.databases.length := by omega
    have htouched := r.advance_touches (hooks party) (hb party) hn'
      ((r.race calls s turns).progress party)
    rw [race_append_singleton]
    exact ⟨htouched.size.trans hsize, htouched.sound hn' hsound⟩

end Registry

/-! ### Two requests -/

/-- One of two. -/
inductive Party where
  | first
  | second
deriving DecidableEq

namespace Party

/-- The other one. -/
def other : Party → Party
  | first => second
  | second => first

theorem other_ne (party : Party) : party.other ≠ party := by
  cases party <;> decide

theorem other_other (party : Party) : party.other.other = party := by
  cases party <;> rfl

theorem eq_or_eq_other (party q : Party) : q = party ∨ q = party.other := by
  cases party <;> cases q <;> decide

end Party

end ModelRest
