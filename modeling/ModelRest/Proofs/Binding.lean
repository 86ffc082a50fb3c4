import ModelRest.Proofs.Atomicity
import ModelRest.Web.Router

/-!
# What stored models never answer

A model that is bound to actions is stored, and then no request for it is answered by saying that it
is not, whatever the connector does. Other models may be named so, those that its references lead
to; so the statements speak of one name, and of a registry that leads to no other model of that name
(`Factory.IsBound`). They follow the operations down: an error of a factory is of another kind or
names another model, and the error of a request and the response tell the two apart
(`Web.Halt.spares_ofError`).
-/

namespace ModelRest

/-- The error does not say that the model of this name is not stored. -/
def FactoryError.Spares (name : String) (e : FactoryError) : Prop := e ≠ .notPersistent name

/-- The error does not say that the model of this name is not stored. -/
def RequestError.Spares (name : String) (e : RequestError) : Prop :=
  e ≠ (FactoryError.notPersistent name).toRequest

/-- What is said about a model names it. -/
theorem FactoryError.Spares.toRequest {name : String} {e : FactoryError} (h : e.Spares name) :
    e.toRequest.Spares name := by
  cases e with
  | notPersistent model =>
    intro he
    apply h
    have htext : "model '" ++ model ++ "' is not persistent" =
        "model '" ++ name ++ "' is not persistent" := RequestError.badRequest.inj he
    have hname : model.toList = name.toList := by
      simpa using congrArg String.toList htext
    rw [String.toList_inj.mp hname]
  | _ => exact nofun

theorem RequestError.spares_of_not_isUnstored {name : String} {e : RequestError}
    (h : ¬ e.IsUnstored) : e.Spares name :=
  fun he => h ⟨name, he⟩

/-- The registry leads from a factory to no other factory of its name, and the factory has
actions. -/
structure Factory.IsBound (f : Factory) (r : Registry) : Prop where
  /-- There are actions. -/
  bound : f.actions?.isSome = true
  /-- No other factory of the name is found. -/
  unique : ∀ path target, r.target f path = .ok target → target.name = f.name → target = f

/-! ### Errors of factories -/

theorem spares_liftAction {α : Type} (name : String) (x : StoreM String α) :
    FailsOnly (FactoryError.Spares name) (liftAction x) := by
  have hany : FailsOnly (fun _ => True) x := fun _ _ _ _ => trivial
  exact hany.adaptExcept fun _ _ => nofun

namespace Factory

variable {f : Factory} {r : Registry}

theorem spares_requireActions (h : f.actions?.isSome = true) :
    FailsOnly (FactoryError.Spares f.name) (liftResult f.requireActions) := by
  obtain ⟨actions, ha⟩ := Option.isSome_iff_exists.mp h
  rw [requireActions, ha]
  exact failsOnly_pure actions

theorem spares_fetch (h : f.actions?.isSome = true) (id : String) (params : Parameters) :
    FailsOnly (FactoryError.Spares f.name) (f.fetch id params) :=
  (spares_requireActions h).bind fun _ => (spares_liftAction _ _).bind fun _ => failsOnly_pure _

theorem spares_fetchAll (h : f.actions?.isSome = true) (filter : Object) (params : Parameters) :
    FailsOnly (FactoryError.Spares f.name) (f.fetchAll filter params) :=
  (spares_requireActions h).bind fun _ => (spares_liftAction _ _).bind fun _ => failsOnly_pure _

theorem spares_deleteInstance (h : f.actions?.isSome = true) (i : Instance) :
    FailsOnly (FactoryError.Spares f.name) (f.deleteInstance i) := by
  unfold deleteInstance
  split
  · exact failsOnly_pure _
  · exact (spares_requireActions h).bind fun _ => spares_liftAction _ _

/-- A hook fails as a hook. -/
theorem spares_runHook {name hook : String} {i : Instance} {e : FactoryError}
    (h : f.runHook hook i = .error e) : e.Spares name := by
  unfold runHook at h
  split at h
  · cases h
  · split at h <;> cases h
    exact nofun

/-- An instance is not made ready because of a hook or of what the validation finds. -/
theorem spares_prepare {name : String} {s : Store} {i : Instance} {e : FactoryError}
    (h : (f.prepare s i).outcome = .error e) : e.Spares name := by
  unfold prepare at h
  split at h
  · rename_i e' hhook
    cases h
    exact spares_runHook hhook
  · dsimp only [verdict] at h
    split at h <;> cases h
    exact nofun

theorem spares_finish {name : String} {i : Instance} {stored : Json} {e : FactoryError}
    (h : (f.finish i stored).outcome = .error e) : e.Spares name := by
  simp only [finish] at h
  split at h <;> cases h
  rename_i hhook
  exact spares_runHook hhook

theorem spares_save (hb : f.actions?.isSome = true) {s : Store} {i : Instance}
    {params : Parameters} {e : FactoryError} (h : (f.save i params s).1.outcome = .error e) :
    e.Spares f.name := by
  obtain ⟨actions, ha⟩ := Option.isSome_iff_exists.mp hb
  unfold save at h
  split at h
  · rename_i i' e' hprepare
    cases h
    exact spares_prepare (congrArg Saved.outcome hprepare)
  · rw [requireActions, ha] at h
    dsimp only at h
    split at h
    · cases h
      simp [FactoryError.Spares]
    · exact spares_finish h

theorem spares_saveInstance (hb : f.actions?.isSome = true) (i : Instance) (params : Parameters) :
    FailsOnly (FactoryError.Spares f.name) (f.saveInstance i params) := by
  intro s e s' h
  unfold saveInstance at h
  split at h
  · cases h
  · rename_i hsave
    cases h
    exact spares_save hb (congrArg (fun p => p.1.outcome) hsave)

end Factory

namespace Reference

theorem spares_populateOne (name : String) (actions : Actions) (select : Option String) (v : Json) :
    FailsOnly (FactoryError.Spares name) (populateOne actions select v) := by
  unfold populateOne
  split
  · exact failsOnly_pure _
  · refine (spares_liftAction _ _).bind fun record => ?_
    cases record with
    | none => exact failsOnly_pure _
    | some record => exact failsOnly_pure _

theorem spares_populate (name : String) (actions : Actions) (select : Option String) (v : Json) :
    FailsOnly (FactoryError.Spares name) (populate actions select v) := by
  unfold populate
  split
  · exact (FailsOnly.mapM (spares_populateOne name actions select) _).map _
  · exact spares_populateOne name actions select _

end Reference

/-- Looking a reference up fails in its own ways. -/
theorem Registry.spares_target {r : Registry} {f : Factory} {path name : String} {e : FactoryError}
    (h : r.target f path = .error e) : e.Spares name := by
  unfold target resolve at h
  split at h
  · cases h
    exact nofun
  · split at h
    · split at h <;> cases h
      exact nofun
    · cases h
      exact nofun

/-- A model of another name is said not to be stored under that name. -/
theorem Factory.spares_requireActions_of_ne {f : Factory} {name : String} (h : f.name ≠ name) :
    FailsOnly (FactoryError.Spares name) (liftResult f.requireActions) := by
  refine failsOnly_liftResult fun e he => ?_
  unfold requireActions at he
  split at he <;> cases he
  exact fun hname => h (FactoryError.notPersistent.inj hname)

namespace Factory.IsBound

variable {f : Factory} {r : Registry}

/-- A reference leads to a model that is not stored only if that is another model. -/
theorem spares_populateField (h : f.IsBound r) (params : Parameters) (item : Json) (key : String) :
    FailsOnly (FactoryError.Spares f.name) (r.populateField f params item key) := by
  unfold Registry.populateField
  split
  · split
    · exact failsOnly_pure _
    · exact failsOnly_pure _
    · cases ht : r.target f key with
      | error e => exact failsOnly_throw (Registry.spares_target ht)
      | ok target =>
        have hactions : FailsOnly (FactoryError.Spares f.name)
            (liftResult target.requireActions) := by
          by_cases hn : target.name = f.name
          · rw [h.unique _ _ ht hn]
            exact spares_requireActions h.bound
          · exact spares_requireActions_of_ne hn
        exact hactions.bind fun actions =>
          (Reference.spares_populate _ actions _ _).bind fun _ => failsOnly_pure _
  · exact failsOnly_pure _

theorem spares_serialize (h : f.IsBound r) (i : Instance) (params : Parameters) :
    FailsOnly (FactoryError.Spares f.name) (r.serialize f i params) :=
  FailsOnly.foldlM (fun key _ item => h.spares_populateField params item key) _

end Factory.IsBound

/-! ### Errors of requests -/

theorem spares_liftFactory {α : Type} {name : String} {x : StoreM FactoryError α}
    (h : FailsOnly (FactoryError.Spares name) x) :
    FailsOnly (RequestError.Spares name) (liftFactory x) :=
  h.adaptExcept fun _ he => he.toRequest

theorem Request.spares_parameters (name : String) (req : Request) :
    FailsOnly (RequestError.Spares name) (liftResult req.parameters) :=
  req.failsOnly_parameters.mono fun _ => RequestError.spares_of_not_isUnstored

theorem Request.spares_requireObject (name : String) (req : Request) :
    FailsOnly (RequestError.Spares name) (liftResult req.requireObject) :=
  req.failsOnly_requireObject.mono fun _ => RequestError.spares_of_not_isUnstored

/-- A filter that cannot be read is a bad request of its own. -/
theorem Parameters.spares_filterOf (name : String) (query : KeyMap String) :
    FailsOnly (RequestError.Spares name) (liftResult (Parameters.filterOf query)) := by
  refine failsOnly_liftResult fun e he => RequestError.spares_of_not_isUnstored ?_
  unfold filterOf at he
  split at he
  · cases he
  · split at he <;> cases he
    · exact RequestError.not_isUnstored_badRequest (by decide)
    · exact RequestError.not_isUnstored_badRequest (by decide)

theorem Request.spares_requireId (name : String) (req : Request) :
    FailsOnly (RequestError.Spares name) (liftResult req.requireId) := by
  refine failsOnly_liftResult fun e he => RequestError.spares_of_not_isUnstored ?_
  unfold requireId at he
  split at he <;> cases he
  exact RequestError.not_isUnstored_badRequest (by decide)

/-- The code of a model fails in its own ways. -/
theorem Factory.spares_handled {α : Type} (name : String) (x : Except HandlerFault α) :
    FailsOnly (RequestError.Spares name) (handled x) := by
  cases x with
  | ok a => exact failsOnly_pure a
  | error fault =>
    refine failsOnly_throw ?_
    cases fault <;> exact nofun

namespace Factory.IsBound

variable {f : Factory} {r : Registry} (h : f.IsBound r)

include h

theorem spares_loadFor (req : Request) (params : Parameters) :
    FailsOnly (RequestError.Spares f.name) (f.loadFor req params) := by
  refine (req.spares_requireId f.name).bind fun id => ?_
  refine (spares_liftFactory (spares_fetch h.bound id params)).bind fun i => ?_
  cases i with
  | none => exact failsOnly_throw nofun
  | some i => exact failsOnly_pure i

theorem spares_readReference (i : Instance) (reference : String) :
    FailsOnly (RequestError.Spares f.name) (r.readReference f i reference) := by
  have htarget : FailsOnly (RequestError.Spares f.name) (liftLookup (r.target f reference)) :=
    spares_liftFactory (failsOnly_liftResult fun _ => Registry.spares_target)
  exact htarget.bind fun _ =>
    (spares_liftFactory (h.spares_populateField _ _ reference)).bind fun _ => failsOnly_pure _

theorem spares_answer (i : Instance) (params : Parameters) (outcome : Json → Outcome) :
    FailsOnly (RequestError.Spares f.name) (outcome <$> liftFactory (r.serialize f i params)) :=
  (spares_liftFactory (h.spares_serialize i params)).map outcome

theorem spares_query (req : Request) : FailsOnly (RequestError.Spares f.name) (r.query f req) := by
  refine (Parameters.spares_filterOf f.name _).bind fun filter => ?_
  refine (req.spares_parameters f.name).bind fun params => ?_
  refine (spares_liftFactory (spares_fetchAll h.bound filter params)).bind fun found => ?_
  exact (FailsOnly.mapM (fun i => spares_liftFactory (h.spares_serialize i params)) found).bind
    fun _ => failsOnly_pure _

theorem spares_read (req : Request) : FailsOnly (RequestError.Spares f.name) (r.read f req) := by
  refine (req.spares_parameters f.name).bind fun params => ?_
  refine (h.spares_loadFor req params).bind fun i => ?_
  cases req.reference with
  | none => exact h.spares_answer i params _
  | some reference => exact (h.spares_readReference i reference).map _

theorem spares_create (req : Request) :
    FailsOnly (RequestError.Spares f.name) (r.create f req) := by
  refine (req.spares_requireObject f.name).bind fun _ => ?_
  refine (req.spares_parameters f.name).bind fun params => ?_
  have hnew : FailsOnly (RequestError.Spares f.name)
      (liftLookup (r.createNew f (.values req.body) none)) :=
    spares_liftFactory (failsOnly_liftResult nofun)
  refine hnew.bind fun new => ?_
  exact (spares_liftFactory (spares_saveInstance h.bound _ params)).bind fun i =>
    h.spares_answer i params _

theorem spares_writeRecord (req : Request) (deleteMissing : Bool) :
    FailsOnly (RequestError.Spares f.name) (r.writeRecord f req deleteMissing) := by
  refine (req.spares_requireObject f.name).bind fun _ => ?_
  refine (req.spares_parameters f.name).bind fun params => ?_
  refine (h.spares_loadFor req params).bind fun i => ?_
  exact (spares_liftFactory (spares_saveInstance h.bound _ params)).bind fun i =>
    h.spares_answer i params _

theorem spares_writeReference (req : Request) (reference : String) (append : Bool) :
    FailsOnly (RequestError.Spares f.name) (r.writeReference f req reference append) := by
  have htarget : FailsOnly (RequestError.Spares f.name) (liftLookup (r.target f reference)) :=
    spares_liftFactory (failsOnly_liftResult fun _ => Registry.spares_target)
  refine htarget.bind fun _ => ?_
  refine (req.spares_parameters f.name).bind fun params => ?_
  refine (h.spares_loadFor req params).bind fun i => ?_
  refine ((Reference.failsOnly_written _ _ _ _ _).mono fun _ =>
    RequestError.spares_of_not_isUnstored).bind fun value => ?_
  exact (spares_liftFactory (spares_saveInstance h.bound _ params)).bind fun i =>
    (h.spares_readReference i reference).map _

theorem spares_write (req : Request) (deleteMissing : Bool) :
    FailsOnly (RequestError.Spares f.name) (r.write f req deleteMissing) := by
  unfold Registry.write
  split
  · exact h.spares_writeReference req _ _
  · exact h.spares_writeRecord req _

theorem spares_delete (req : Request) : FailsOnly (RequestError.Spares f.name) (f.delete req) := by
  refine (req.spares_parameters f.name).bind fun params => ?_
  refine (h.spares_loadFor req params).bind fun i => ?_
  refine (spares_liftFactory (spares_deleteInstance h.bound i)).bind fun deleted => ?_
  cases deleted with
  | false => exact failsOnly_throw nofun
  | true => exact failsOnly_pure _

theorem spares_executeMethod (id name : String) (body : Json) :
    FailsOnly (RequestError.Spares f.name) (f.executeMethod id name body) := by
  unfold executeMethod
  dsimp only
  split
  · exact failsOnly_throw nofun
  · refine (spares_liftFactory (spares_fetch h.bound id {})).bind fun i => ?_
    cases i with
    | none => exact failsOnly_throw nofun
    | some i => exact spares_handled f.name _

end Factory.IsBound

/-- Methods of the class are called whether or not the model is stored. -/
theorem Factory.spares_executeService (f : Factory) (called name : String) (body : Json) :
    FailsOnly (RequestError.Spares name) (f.executeService called body) := by
  unfold executeService
  dsimp only
  split
  · exact failsOnly_throw nofun
  · exact spares_handled name _

/-! ### Responses -/

namespace Web

/-- Handling does not end by saying that the model of this name is not stored. -/
def Halt.Spares (name : String) (halt : Halt) : Prop :=
  halt ≠ .ofError (FactoryError.notPersistent name).toRequest

/-- The response to a bad request is that to no other error. -/
theorem Halt.ofError_eq_badRequest {e : RequestError} {text : String}
    (h : Halt.ofError e = .ofError (.badRequest text)) : e = .badRequest text := by
  cases e with
  | badRequest other =>
    have hresponse := Halt.answered.inj h
    have hbody := Body.json.inj (congrArg Response.body hresponse)
    have hmessage : ∀ t, (Json.ofMembers ([("error", Json.string "bad_request"),
        ("message", .string t)] ++ [])).member? "message" = some (.string t) := fun t => by
      simp [Json.ofMembers, Json.member?, Json.object?, KeyMap.get?_ofPairs]
    have htext : some (Json.string other) = some (.string text) := by
      rw [← hmessage other, ← hmessage text]
      exact congrArg (Json.member? · "message") hbody
    simpa using htext
  | crashed => cases h
  | notFound other =>
    have hstatus := congrArg Response.status (Halt.answered.inj h)
    cases hstatus
  | internal other =>
    have hstatus := congrArg Response.status (Halt.answered.inj h)
    cases hstatus
  | validation diagnoses =>
    have hstatus := congrArg Response.status (Halt.answered.inj h)
    cases hstatus

/-- The response to an error of a request tells errors apart. -/
theorem Halt.spares_ofError {name : String} {e : RequestError} (h : e.Spares name) :
    (Halt.ofError e).Spares name :=
  fun he => h (ofError_eq_badRequest he)

theorem Halt.spares_ofText (name : String) (status : Nat) (text : String) :
    (Halt.answered (.ofText status text)).Spares name := by
  intro h
  cases congrArg Response.body (Halt.answered.inj h)

theorem spares_liftRequest {α : Type} {name : String} {x : StoreM RequestError α}
    (h : FailsOnly (RequestError.Spares name) x) : FailsOnly (Halt.Spares name) (liftRequest x) :=
  h.adaptExcept fun _ => Halt.spares_ofError

section Parts

variable (name : String) (taken : Taken)

theorem spares_decodeTaken : FailsOnly (Halt.Spares name) (decodeTaken taken) := by
  refine FailsOnly.mapM (fun part => ?_) _
  unfold decodePart
  dsimp only
  split
  · exact failsOnly_pure _
  · exact failsOnly_throw (Halt.spares_ofText _ _ _)

theorem spares_onePart : FailsOnly (Halt.Spares name) (onePart taken) := by
  refine (spares_decodeTaken name taken).bind fun parts => ?_
  split
  · exact failsOnly_pure _
  · exact failsOnly_throw (Halt.spares_ofText _ _ _)

theorem spares_twoParts : FailsOnly (Halt.Spares name) (twoParts taken) := by
  refine (spares_decodeTaken name taken).bind fun parts => ?_
  split
  · exact failsOnly_pure _
  · exact failsOnly_throw (Halt.spares_ofText _ _ _)

theorem spares_decodeBody (body : String) :
    FailsOnly (Halt.Spares name) (liftChecked (decodeBody body)) := by
  refine spares_liftRequest (failsOnly_liftResult fun e he => ?_)
  apply RequestError.spares_of_not_isUnstored
  unfold decodeBody at he
  split at he
  · cases he
  · split at he <;> cases he
    exact RequestError.not_isUnstored_badRequest (by decide)

end Parts

/-- A model with actions is served by requests for its records. -/
theorem requireController_eq {f : Factory} (h : f.actions?.isSome = true) :
    requireController f = pure () := by
  obtain ⟨actions, ha⟩ := Option.isSome_iff_exists.mp h
  rw [requireController, ha]

theorem spares_withoutBody {f : Factory} (h : f.actions?.isSome = true) (req : Request)
    {answer : Request → StoreM RequestError Outcome}
    (ha : ∀ req, FailsOnly (RequestError.Spares f.name) (answer req)) :
    FailsOnly (Halt.Spares f.name) (withoutBody f req answer) := by
  rw [withoutBody, requireController_eq h]
  exact (failsOnly_pure ()).bind fun _ => (spares_liftRequest (ha req)).map render

theorem spares_withBody {f : Factory} (h : f.actions?.isSome = true) (req : Request)
    (body : String) {answer : Request → StoreM RequestError Outcome}
    (ha : ∀ req, FailsOnly (RequestError.Spares f.name) (answer req)) :
    FailsOnly (Halt.Spares f.name) (withBody f req body answer) := by
  rw [withBody, requireController_eq h]
  exact (spares_decodeBody f.name body).bind fun _ => (failsOnly_pure ()).bind fun _ =>
    (spares_liftRequest (ha _)).map render

/-- A handler that the class provides is called, and fails in its own ways. -/
theorem spares_handleCustom {f : Factory} {handler : String}
    {run : RouteRequest → Except HandlerFault Json}
    (h : KeyMap.get? f.cls.routes handler = some run) (params : List (String × String))
    (req : Incoming) :
    FailsOnly (Halt.Spares f.name) (handleCustom f handler params req) := by
  rw [handleCustom, h]
  exact (spares_decodeBody f.name req.body).bind fun _ =>
    (spares_liftRequest (Factory.spares_handled f.name _)).bind fun _ => failsOnly_pure _

/-- The endpoint is about the records of a model. -/
def Endpoint.isOfRecords : Endpoint → Bool
  | .executeService => false
  | .custom _ => false
  | _ => true

/-- Requests for the records of a model that is stored are not answered by saying that it is not. -/
theorem spares_handle_of_bound {r : Registry} {f : Factory} (hb : f.IsBound r) {endpoint : Endpoint}
    (he : endpoint.isOfRecords = true) (taken : Taken) (req : Incoming) :
    FailsOnly (Halt.Spares f.name) (handle r f taken req endpoint) := by
  cases endpoint with
  | query => exact spares_withoutBody hb.bound _ hb.spares_query
  | create => exact spares_withBody hb.bound _ _ hb.spares_create
  | read =>
    exact (spares_onePart f.name taken).bind fun id =>
      spares_withoutBody hb.bound _ hb.spares_read
  | replace =>
    exact (spares_onePart f.name taken).bind fun id =>
      spares_withBody hb.bound _ _ fun req => hb.spares_write req true
  | patch =>
    exact (spares_onePart f.name taken).bind fun id =>
      spares_withBody hb.bound _ _ fun req => hb.spares_write req false
  | delete =>
    exact (spares_onePart f.name taken).bind fun id =>
      spares_withoutBody hb.bound _ hb.spares_delete
  | readReference =>
    exact (spares_twoParts f.name taken).bind fun parts =>
      spares_withoutBody hb.bound _ hb.spares_read
  | replaceReference =>
    exact (spares_twoParts f.name taken).bind fun parts =>
      spares_withBody hb.bound _ _ fun req => hb.spares_write req true
  | patchReference =>
    exact (spares_twoParts f.name taken).bind fun parts =>
      spares_withBody hb.bound _ _ fun req => hb.spares_write req false
  | executeMethod =>
    refine (spares_twoParts f.name taken).bind fun parts => ?_
    refine (spares_decodeBody f.name req.body).bind fun body => ?_
    exact (spares_liftRequest (hb.spares_executeMethod _ _ body)).bind fun _ => failsOnly_pure _
  | executeService => cases he
  | custom handler => cases he

/-- What a factory serves an endpoint with is there. -/
structure Endpoint.IsReady (endpoint : Endpoint) (r : Registry) (f : Factory) : Prop where
  /-- There are actions on the records that the endpoint is about. -/
  bound : endpoint.isOfRecords = true → f.actions?.isSome = true
  /-- The class provides the handler that the endpoint calls. -/
  handler : ∀ handler, endpoint = .custom handler →
    ∃ run, KeyMap.get? f.cls.routes handler = some run
  /-- No other factory of the name is found. -/
  unique : ∀ path target, r.target f path = .ok target → target.name = f.name → target = f

/-- **A request that is served where all is ready** is not answered by saying that the model is not
stored. -/
theorem Endpoint.IsReady.spares_handle {endpoint : Endpoint} {r : Registry} {f : Factory}
    (h : endpoint.IsReady r f) (taken : Taken) (req : Incoming) :
    FailsOnly (Halt.Spares f.name) (handle r f taken req endpoint) := by
  cases hr : endpoint.isOfRecords with
  | true => exact spares_handle_of_bound ⟨h.bound hr, h.unique⟩ hr taken req
  | false =>
    cases endpoint with
    | executeService =>
      refine (spares_onePart f.name taken).bind fun called => ?_
      refine (spares_decodeBody f.name req.body).bind fun body => ?_
      exact (spares_liftRequest (f.spares_executeService called f.name body)).bind fun _ =>
        failsOnly_pure _
    | custom handler =>
      obtain ⟨run, hrun⟩ := h.handler handler rfl
      exact (spares_decodeTaken f.name taken).bind fun params => spares_handleCustom hrun params req
    | _ => cases hr

end Web

end ModelRest
