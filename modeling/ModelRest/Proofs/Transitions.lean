import ModelRest.Proofs.Requests

/-!
# What requests do to a store

A request to a model that is stored in memory or not at all has one of three effects: none, a record
deleted, or the instance written that was planned (`Effect`, `effect_perform`). From this follows
what every sequence of requests preserves: the databases that there are, and that all records are in
order (`Store.Sound`).
-/

namespace ModelRest

namespace Factory

/-- If the model is stored, then in one of so many databases in memory. -/
def InMemory (f : Factory) (size : Nat) : Prop := ∀ actions, f.actions? = some actions →
  ∃ number collection, actions = .memory number collection ∧ number < size

variable {f : Factory} {number : Nat} {collection : String} {s : Store}

theorem InMemory.lt {size : Nat} (h : f.InMemory size)
    (hb : f.actions? = some (.memory number collection)) : number < size := by
  obtain ⟨_, _, he, hn⟩ := h _ hb
  cases he
  exact hn

theorem deleteInstance_eq (hb : f.actions? = some (.memory number collection)) (i : Instance) :
    liftFactory (f.deleteInstance i) s =
      match i.id? with
      | none => .ok false s
      | some id =>
        if KeyMap.contains (s.records number collection) id then
          .ok true (s.afterDelete number collection id)
        else .ok false s := by
  rw [liftFactory_apply]
  unfold deleteInstance requireActions
  rw [hb]
  cases i.id? with
  | none => rfl
  | some id =>
    have hdelete : (do
          let actions ← liftResult (.ok (Actions.memory number collection))
          liftAction (actions.delete id) : StoreM FactoryError Bool) s =
        EStateM.adaptExcept .datastore (Store.delete number collection id) s := rfl
    dsimp only
    rw [hdelete, adaptExcept_apply, Store.delete_eq]
    by_cases hc : KeyMap.contains (s.records number collection) id = true
    · simp only [hc, if_true]
    · simp only [hc, Bool.false_eq_true, if_false]

/-- Deleting fails without a trace, or deletes a record. -/
theorem delete_cases (hb : f.actions? = some (.memory number collection)) (req : Request) :
    (∃ e, f.delete req s = .error e s) ∨
      ∃ id, f.delete req s = .ok .deleted (s.afterDelete number collection id) := by
  unfold delete
  cases hp : req.parameters with
  | error e => exact .inl ⟨e, rfl⟩
  | ok params =>
    rw [bind_apply]
    show (∃ e, (f.loadFor req params >>= _) s = _) ∨ ∃ id, (f.loadFor req params >>= _) s = _
    rw [bind_apply]
    cases hload : f.loadFor req params s with
    | error e s₁ =>
      have hs := (f.keeps_loadFor req params).of_error hload
      subst hs
      exact .inl ⟨e, rfl⟩
    | ok i s₁ =>
      have hs := (f.keeps_loadFor req params).of_ok hload
      subst hs
      dsimp only
      rw [bind_apply, deleteInstance_eq hb]
      cases i.id? with
      | none => exact .inl ⟨_, rfl⟩
      | some id =>
        dsimp only
        by_cases hc : KeyMap.contains (s₁.records number collection) id = true
        · simp only [hc, if_true]
          exact .inr ⟨id, rfl⟩
        · simp only [hc, Bool.false_eq_true, if_false]
          exact .inl ⟨_, rfl⟩

/-- Of a model that is not stored nothing is deleted. -/
theorem delete_of_unbound (hb : f.actions? = none) (req : Request) :
    ∃ e, f.delete req s = .error e s := by
  unfold delete
  cases hp : req.parameters with
  | error e => exact ⟨e, rfl⟩
  | ok params =>
    obtain ⟨e, he⟩ := loadFor_of_unbound (s := s) hb req params
    refine ⟨e, ?_⟩
    rw [bind_apply]
    show (f.loadFor req params >>= _) s = _
    rw [bind_apply, he]

end Factory

namespace Registry

variable {r : Registry} {call : Call} {s s' : Store} {number : Nat} {collection : String}

/-- How a request that writes can go: it is not planned, or the instance is not saved, and the store
stays; or the instance is saved, and then the request is answered. -/
theorem perform_writes_cases (hw : call.operation.writes = true) (hf : call.factory.HookFree)
    (hb : call.factory.actions? = some (.memory number collection))
    (hn : number < s.databases.length) :
    (∃ e, r.plan call s = .error e s ∧ r.perform call s = .error e s) ∨
    (∃ i params e, r.plan call s = .ok (i, params) s ∧
      call.factory.saveInstance i params s = .error e s ∧
      r.perform call s = .error e.toRequest s) ∨
    ∃ i params i' s', r.plan call s = .ok (i, params) s ∧
      call.factory.saveInstance i params s = .ok i' s' ∧
      r.perform call s = r.answer call i' params s' := by
  rw [perform_writes r hw, bind_apply]
  cases hp : r.plan call s with
  | error e s₁ =>
    have hs := (r.keeps_plan call).of_error hp
    subst hs
    exact .inl ⟨e, rfl, rfl⟩
  | ok p s₁ =>
    have hs := (r.keeps_plan call).of_ok hp
    subst hs
    obtain ⟨i, params⟩ := p
    dsimp only
    rw [bind_apply, liftFactory_apply]
    cases hsave : call.factory.saveInstance i params s₁ with
    | error e s₂ =>
      obtain ⟨rfl, -⟩ := Factory.saveInstance_error hf hb hn hsave
      exact .inr (.inl ⟨i, params, e, rfl, hsave, rfl⟩)
    | ok i' s₂ =>
      exact .inr (.inr ⟨i, params, i', s₂, rfl, hsave, rfl⟩)

/-- The request is to write what is there already, the time of the last change included. -/
def Repeats (r : Registry) (call : Call) (s : Store) : Prop :=
  ∃ number collection i params, call.factory.actions? = some (.memory number collection) ∧
    r.plan call s = .ok (i, params) s ∧
    s.Repeats number collection i.id? (call.factory.simplifyValues i.values)

/-- A request that has saved an instance has left the records as they were exactly if it repeats what
was there. -/
theorem sameRecords_iff_repeats (hf : call.factory.HookFree)
    (hb : call.factory.actions? = some (.memory number collection))
    (hn : number < s.databases.length) {i i' : Instance} {params : Parameters}
    (hplan : r.plan call s = .ok (i, params) s)
    (hsave : call.factory.saveInstance i params s = .ok i' s') :
    s.SameRecords s' ↔ r.Repeats call s := by
  rw [(Factory.saveInstance_ok hf hb hn hsave).2.sameRecords_iff]
  refine ⟨fun h => ⟨number, collection, i, params, hb, hplan, h⟩, ?_⟩
  rintro ⟨number', collection', i', params', hb', hplan', h⟩
  cases hb.symm.trans hb'
  cases hplan.symm.trans hplan'
  exact h

/-- A request that writes leaves the store as saving leaves it, if an instance is planned. -/
theorem stateLeft_perform_writes (r : Registry) (hw : call.operation.writes = true) (s : Store) :
    stateLeft (r.perform call s) = s ∨ ∃ i params, r.plan call s = .ok (i, params) s ∧
      stateLeft (r.perform call s) = stateLeft (call.factory.saveInstance i params s) := by
  rw [perform_writes r hw, bind_apply]
  cases hp : r.plan call s with
  | error e s₁ => exact .inl ((r.keeps_plan call).of_error hp)
  | ok p s₁ =>
    have hs := (r.keeps_plan call).of_ok hp
    subst hs
    obtain ⟨i, params⟩ := p
    refine .inr ⟨i, params, rfl, ?_⟩
    dsimp only
    rw [bind_apply, liftFactory_apply]
    cases call.factory.saveInstance i params s₁ with
    | error e s₂ => rfl
    | ok i' s₂ => exact r.keeps_answer call i' params s₂

/-- A request that writes leaves the store as it is if the model is not stored. -/
theorem stateLeft_perform_of_unbound (hw : call.operation.writes = true)
    (hb : call.factory.actions? = none) : stateLeft (r.perform call s) = s := by
  rcases r.stateLeft_perform_writes hw s with h | ⟨i, params, -, h⟩
  · exact h
  · obtain ⟨e, he⟩ := Factory.saveInstance_of_unbound (s := s) hb i params
    rw [h, he]
    rfl

/-- What a request has done to a store. -/
inductive Effect (r : Registry) (call : Call) (s : Store) : Store → Prop where
  /-- Nothing. -/
  | nothing : Effect r call s s
  /-- A record was deleted. -/
  | deleted {number : Nat} {collection : String} (id : String)
      (hb : call.factory.actions? = some (.memory number collection))
      (hop : call.operation = .delete) : Effect r call s (s.afterDelete number collection id)
  /-- The planned instance was made ready and written. -/
  | saved {number : Nat} {collection : String} {i : Instance} {params : Parameters}
      {stored : Object} {s' : Store}
      (hb : call.factory.actions? = some (.memory number collection))
      (hop : call.operation.writes = true) (hp : r.plan call s = .ok (i, params) s)
      (hready : (call.factory.prepare s i).outcome = .ok ())
      (hw : Store.Written s s' number collection (call.factory.prepare s i).saved.id?
        (call.factory.simplifyValues (call.factory.prepare s i).saved.values) stored) :
      Effect r call s s'

/-- A request has one of the effects, whether it succeeds or fails. -/
theorem effect_perform (r : Registry) (hm : call.factory.InMemory s.databases.length) :
    Effect r call s (stateLeft (r.perform call s)) := by
  have hkeeps : Keeps (r.perform call) → Effect r call s (stateLeft (r.perform call s)) := by
    intro hk
    rw [hk s]
    exact .nothing
  cases hop : call.operation.writes with
  | true =>
    cases ha : call.factory.actions? with
    | none =>
      rw [stateLeft_perform_of_unbound hop ha]
      exact .nothing
    | some actions =>
      obtain ⟨number, collection, rfl, hn⟩ := hm actions ha
      rcases r.stateLeft_perform_writes hop s with hs | ⟨i, params, hplan, hs⟩
      · rw [hs]
        exact .nothing
      · rw [hs]
        rcases Factory.saveInstance_cases ha hn i params with hs | ⟨hready, stored, hw⟩
        · rw [hs]
          exact .nothing
        · exact .saved ha hop hplan hready hw
  | false =>
    obtain ⟨operation, f, req⟩ := call
    cases operation with
    | query => exact hkeeps (r.keeps_query f req)
    | read => exact hkeeps (r.keeps_read f req)
    | delete =>
      show Effect r _ s (stateLeft (f.delete req s))
      cases ha : f.actions? with
      | none =>
        obtain ⟨e, he⟩ := Factory.delete_of_unbound (s := s) ha req
        rw [he]
        exact .nothing
      | some actions =>
        obtain ⟨number, collection, rfl, -⟩ := hm actions ha
        rcases Factory.delete_cases (s := s) ha req with ⟨e, he⟩ | ⟨id, he⟩
        · rw [he]
          exact .nothing
        · rw [he]
          exact .deleted id ha rfl
    | create | replace | patch => cases hop

/-! ### What every sequence of requests preserves -/

variable {r : Registry} {call : Call} {s s' : Store}

/-- The store after a request. -/
def after (r : Registry) (s : Store) (call : Call) : Store := stateLeft (r.perform call s)

/-- The databases that there are stay. -/
theorem Effect.size (h : Effect r call s s') : s'.databases.length = s.databases.length := by
  cases h with
  | nothing => rfl
  | deleted => exact List.length_set
  | saved _ _ _ _ hw => exact hw.size

/-- Records in order stay in order. -/
theorem Effect.sound (h : Effect r call s s') (hm : call.factory.InMemory s.databases.length)
    (hs : s.Sound) : s'.Sound := by
  cases h with
  | nothing => exact hs
  | deleted id hb => exact hs.afterDelete (hm.lt hb)
  | saved _ _ _ _ hw => exact hw.sound hs

/-- The store after a sequence of requests to models in memory is in order, and has the databases
that it had. -/
theorem foldl_after_sound {size : Nat} (calls : List Call)
    (hm : ∀ call ∈ calls, call.factory.InMemory size)
    (hsize : s.databases.length = size) (hs : s.Sound) :
    (calls.foldl r.after s).databases.length = size ∧ (calls.foldl r.after s).Sound := by
  induction calls generalizing s with
  | nil => exact ⟨hsize, hs⟩
  | cons call rest ih =>
    have hm' := hm call (List.mem_cons_self ..)
    rw [← hsize] at hm'
    have he := r.effect_perform hm'
    exact ih (fun c hc => hm c (List.mem_cons_of_mem _ hc)) (he.size.trans hsize) (he.sound hm' hs)

end Registry

end ModelRest
