import ModelRest.Proofs.Deployment

/-!
# Requests that fail

A request that writes plans, saves and answers. Planning leaves the store as it is, and so does
saving when it fails; what remains is an answer that cannot be given although the record is written
already. This happens in one way only: the answer is to populate a reference to a model that is not
stored. No plan for a stored model fails with that error (`failsOnly_plan`), and no answer fails with
any other (`failsOnly_answer`).

The main statement is `Server.changes_of_error_iff`: the error says whether a request that failed has
written. It has changed the contents of the store then, unless it has written what was there already
(`Registry.Repeats`).
-/

namespace ModelRest

/-! ### The error -/

/-- The error says that a model is not stored. -/
def RequestError.IsUnstored (e : RequestError) : Prop :=
  ∃ model, e = (FactoryError.notPersistent model).toRequest

theorem RequestError.not_isUnstored_notFound (text : String) :
    ¬(notFound text).IsUnstored := by
  rintro ⟨model, h⟩
  cases h

theorem RequestError.not_isUnstored_internal (text : String) :
    ¬(internal text).IsUnstored := by
  rintro ⟨model, h⟩
  cases h

/-- The wording of the error begins as no other wording of a bad request does. -/
theorem RequestError.not_isUnstored_badRequest {text : String}
    (h : text.toList.take 2 ≠ ['m', 'o']) : ¬(badRequest text).IsUnstored := by
  rintro ⟨model, he⟩
  have htext : text = "model '" ++ model ++ "' is not persistent" := RequestError.badRequest.inj he
  refine h ?_
  rw [htext, String.toList_append, String.toList_append]
  rfl

/-- What goes wrong when a reference is looked up is something else. -/
theorem Registry.not_isUnstored_of_target {r : Registry} {f : Factory} {path : String}
    {e : FactoryError} (h : r.target f path = .error e) : ¬e.toRequest.IsUnstored := by
  have hkind : (∃ text, e.toRequest = .notFound text) ∨ ∃ text, e.toRequest = .internal text := by
    unfold target resolve at h
    split at h
    · cases h
      exact .inl ⟨_, rfl⟩
    · split at h
      · split at h
        · cases h
        · cases h
          exact .inl ⟨_, rfl⟩
      · cases h
        exact .inr ⟨_, rfl⟩
  rcases hkind with ⟨text, he⟩ | ⟨text, he⟩
  · rw [he]
    exact RequestError.not_isUnstored_notFound text
  · rw [he]
    exact RequestError.not_isUnstored_internal text

/-- What goes wrong when an instance is saved in memory is something else. -/
theorem Factory.not_isUnstored_of_saveInstance {f : Factory} (hf : f.HookFree)
    {number : Nat} {collection : String} (hb : f.actions? = some (.memory number collection))
    {s s' : Store} (hn : number < s.databases.length) {i : Instance} {params : Parameters}
    {e : FactoryError} (h : f.saveInstance i params s = .error e s') :
    ¬e.toRequest.IsUnstored := by
  rintro ⟨model, he⟩
  obtain ⟨-, ⟨diagnoses, rfl⟩ | ⟨cause, rfl⟩⟩ := saveInstance_error hf hb hn h
  · cases he
  · cases he

/-! ### Parameters -/

/-- A text that is no list of references is a bad request. -/
theorem Include.not_isUnstored_of_parse {raw : String} {e : RequestError}
    (h : parse raw = .error e) : ¬e.IsUnstored := by
  have hitem : ∀ v e, ofItem? v = .error e → ¬e.IsUnstored := by
    intro v e h
    unfold ofItem? at h
    split at h
    · cases h
    · split at h
      · cases h
      · cases h
        exact RequestError.not_isUnstored_badRequest (by decide)
  have hitems : ∀ (vs : List Json) e, vs.mapM ofItem? = .error e → ¬e.IsUnstored := by
    intro vs e h
    obtain ⟨_, v, _, -, -, hv⟩ := exists_error_of_mapM h
    exact hitem v e hv
  unfold parse at h
  dsimp only at h
  split at h
  · split at h
    · rename_i v _
      cases v <;> exact hitems _ _ h
    · cases h
      exact RequestError.not_isUnstored_badRequest (by decide)
  · split at h
    · rename_i v _
      cases v <;> exact hitems _ _ h
    · cases h
      exact RequestError.not_isUnstored_badRequest (by decide)
  · cases h

theorem Request.not_isUnstored_of_parameters {req : Request} {e : RequestError}
    (h : req.parameters = .error e) : ¬e.IsUnstored := by
  have hquery : Parameters.ofQuery req.query = .error e := by
    unfold parameters at h
    cases hq : Parameters.ofQuery req.query with
    | ok params =>
      rw [hq] at h
      cases h
    | error e' =>
      rw [hq] at h
      cases h
      rfl
  unfold Parameters.ofQuery at hquery
  dsimp only at hquery
  split at hquery
  · rename_i raw _
    cases hp : Include.parse raw with
    | ok includes =>
      rw [hp] at hquery
      cases hquery
    | error e' =>
      rw [hp] at hquery
      cases hquery
      exact Include.not_isUnstored_of_parse hp
  · cases hquery

/-! ### Planning -/

theorem failsOnly_liftResult {ε α : Type} {kind : ε → Prop} {x : Except ε α}
    (h : ∀ e, x = .error e → kind e) : FailsOnly kind (liftResult x : StoreM ε α) := by
  cases x with
  | ok a => exact failsOnly_pure a
  | error e => exact failsOnly_throw (h e rfl)

namespace Factory

variable {f : Factory} {number : Nat} {collection : String}

theorem failsOnly_loadFor (hb : f.actions? = some (.memory number collection)) (req : Request)
    (params : Parameters) : FailsOnly (¬·.IsUnstored) (f.loadFor req params) := by
  intro s e s' h
  rw [loadFor_eq hb] at h
  split at h
  · cases h
    exact RequestError.not_isUnstored_badRequest (by decide)
  · split at h
    · cases h
      exact RequestError.not_isUnstored_notFound _
    · cases h

end Factory

theorem Request.failsOnly_requireObject (req : Request) :
    FailsOnly (¬·.IsUnstored) (liftResult req.requireObject : StoreM RequestError Unit) := by
  refine failsOnly_liftResult fun e h => ?_
  unfold requireObject at h
  split at h
  · cases h
  · cases h
    exact RequestError.not_isUnstored_badRequest (by decide)

theorem Request.failsOnly_parameters (req : Request) :
    FailsOnly (¬·.IsUnstored) (liftResult req.parameters : StoreM RequestError Parameters) :=
  failsOnly_liftResult fun _ h => not_isUnstored_of_parameters h

theorem Reference.failsOnly_written (reference : String) (plural append : Bool)
    (old : Option Json) (given : Json) :
    FailsOnly (¬·.IsUnstored)
      (liftResult (written reference plural append old given) : StoreM RequestError Json) := by
  refine failsOnly_liftResult fun e h => ?_
  unfold written at h
  split at h
  · split at h
    · cases h
    · split at h <;> cases h
  · split at h
    · cases h
      refine RequestError.not_isUnstored_badRequest ?_
      have htext : s!"reference '{reference}' holds a single value" =
          "reference '" ++ reference ++ "' holds a single value" := rfl
      rw [htext, String.toList_append, String.toList_append]
      simp
    · cases h

namespace Registry

variable {r : Registry} {call : Call} {number : Nat} {collection : String}

/-- **No plan for a stored model** fails because a model is not stored. -/
theorem failsOnly_plan (r : Registry)
    (hb : call.factory.actions? = some (.memory number collection)) :
    FailsOnly (¬·.IsUnstored) (r.plan call) := by
  have hrecord : ∀ deleteMissing,
      FailsOnly (¬·.IsUnstored) (planRecord call.factory call.request deleteMissing) :=
    fun _ => call.request.failsOnly_requireObject.bind fun _ =>
      call.request.failsOnly_parameters.bind fun params =>
        (Factory.failsOnly_loadFor hb call.request params).bind fun _ => failsOnly_pure _
  have hreference : ∀ reference append, FailsOnly (¬·.IsUnstored)
      (r.planReference call.factory call.request reference append) := by
    intro reference append
    have htarget : FailsOnly (¬·.IsUnstored) (liftLookup (r.target call.factory reference)) :=
      (@failsOnly_liftResult _ _ (fun e => ¬e.toRequest.IsUnstored) _
        fun _ h => not_isUnstored_of_target h).adaptExcept fun _ h => h
    exact htarget.bind fun _ => call.request.failsOnly_parameters.bind fun params =>
      (Factory.failsOnly_loadFor hb call.request params).bind fun _ =>
        (Reference.failsOnly_written _ _ _ _ _).bind fun _ => failsOnly_pure _
  have hchange : ∀ deleteMissing, FailsOnly (¬·.IsUnstored)
      (r.planChange call.factory call.request deleteMissing) := by
    intro deleteMissing
    unfold planChange
    split
    · exact hreference _ _
    · exact hrecord _
  unfold plan
  split
  · exact call.request.failsOnly_requireObject.bind fun _ =>
      call.request.failsOnly_parameters.bind fun _ => failsOnly_pure _
  · exact hchange true
  · exact hchange false
  · refine failsOnly_throw ?_
    rintro ⟨model, h⟩
    cases h

end Registry

/-! ### Answering -/

/-- The error says that a model is not stored. -/
def FactoryError.IsUnstored (e : FactoryError) : Prop := ∃ model, e = .notPersistent model

theorem failsOnly_liftFactory {α : Type} {x : StoreM FactoryError α}
    (h : FailsOnly FactoryError.IsUnstored x) :
    FailsOnly RequestError.IsUnstored (liftFactory x) :=
  h.adaptExcept fun _ ⟨model, he⟩ => ⟨model, congrArg FactoryError.toRequest he⟩

/-- Reading from memory does not fail. -/
theorem Actions.failsOnly_read {kind : String → Prop} (number : Nat) (collection id : String)
    (params : Parameters) : FailsOnly kind ((Actions.memory number collection).read id params) := by
  intro s e s' h
  cases h

theorem Reference.failsOnly_populateOne {kind : FactoryError → Prop} (number : Nat)
    (collection : String) (select : Option String) (v : Json) :
    FailsOnly kind (populateOne (.memory number collection) select v) := by
  unfold populateOne
  split
  · exact failsOnly_pure v
  · have hread := @Actions.failsOnly_read (fun _ => False) number collection
    refine ((hread _ _).adaptExcept fun _ h => h.elim).bind fun record => ?_
    cases record with
    | none => exact failsOnly_pure _
    | some record => exact failsOnly_pure _

theorem Reference.failsOnly_populate {kind : FactoryError → Prop} (number : Nat)
    (collection : String) (select : Option String) (v : Json) :
    FailsOnly kind (populate (.memory number collection) select v) := by
  unfold populate
  split
  · exact (FailsOnly.mapM (failsOnly_populateOne number collection select) _).map _
  · exact failsOnly_populateOne number collection select v

namespace Registry

variable {r : Registry} {f target : Factory} {s : Store}

/-- A field that leads to a model in memory is populated, unless that model is not stored. -/
theorem failsOnly_populateField {size : Nat} {key : String} (ht : r.target f key = .ok target)
    (hm : target.InMemory size) (params : Parameters) (item : Json) :
    FailsOnly FactoryError.IsUnstored (r.populateField f params item key) := by
  unfold populateField
  split
  · split
    · exact failsOnly_pure _
    · exact failsOnly_pure _
    · rw [ht]
      show FailsOnly _ (liftResult target.requireActions >>= _)
      unfold Factory.requireActions
      cases ha : target.actions? with
      | none =>
        intro s e s' h
        cases h
        exact ⟨target.name, rfl⟩
      | some actions =>
        obtain ⟨number, collection, rfl, -⟩ := hm actions ha
        show FailsOnly _ (Reference.populate (.memory number collection) _ _ >>= _)
        exact (Reference.failsOnly_populate number collection _ _).bind fun _ => failsOnly_pure _
  · exact failsOnly_pure _

/-- Serializing an instance fails in no other way either. -/
theorem Deployed.failsOnly_serialize (hd : r.Deployed s) (hf : f ∈ r.made) (i : Instance)
    (params : Parameters) : FailsOnly FactoryError.IsUnstored (r.serialize f i params) := by
  refine FailsOnly.foldlM (fun key hkey item => ?_) _
  obtain ⟨field, hfield, rfl⟩ := List.mem_map.mp hkey
  obtain ⟨hfield, href⟩ := List.mem_filter.mp hfield
  obtain ⟨target, htm, ht⟩ := hd.targets f hf field hfield href
  exact failsOnly_populateField ht (hd.memory target htm) params item

/-- Nor does reading a reference that leads to a model. -/
theorem Deployed.failsOnly_readReference (hd : r.Deployed s) {reference : String}
    (ht : r.target f reference = .ok target) (i : Instance) :
    FailsOnly RequestError.IsUnstored (r.readReference f i reference) := by
  unfold readReference
  rw [ht]
  show FailsOnly _ (liftFactory (r.populateField f _ _ reference) >>= _)
  exact (failsOnly_liftFactory (failsOnly_populateField ht
    (hd.memory target (mem_made_of_target ht)) _ _)).bind fun _ => failsOnly_pure _

/-- A plan to change a reference has found the model that it leads to. -/
theorem target_of_plan {call : Call} {s' : Store} {i : Instance} {params : Parameters}
    {reference : String} (href : call.request.reference = some reference)
    (hop : call.operation = .replace ∨ call.operation = .patch)
    (h : r.plan call s = .ok (i, params) s') :
    ∃ target, r.target call.factory reference = .ok target := by
  cases plans_of_plan h with
  | create hcreate =>
    rw [hcreate] at hop
    rcases hop with hop | hop <;> cases hop
  | reference _ href' h =>
    cases href.symm.trans href'
    obtain ⟨target, _, ht, -⟩ := bind_eq_ok_iff.mp h
    exact ⟨target, (liftLookup_eq_ok_iff.mp ht).1⟩
  | record _ href' => cases href.symm.trans href'

/-- **No answer after writing** fails in another way than because a model is not stored. -/
theorem Deployed.failsOnly_answer (hd : r.Deployed s) {call : Call} (hf : call.factory ∈ r.made)
    (hw : call.operation.writes = true) {i i' : Instance} {params : Parameters} {s₁ : Store}
    (h : r.plan call s = .ok (i, params) s₁) :
    FailsOnly RequestError.IsUnstored (r.answer call i' params) := by
  have hserialize := failsOnly_liftFactory (hd.failsOnly_serialize hf i' params)
  unfold answer
  split
  · exact hserialize.map _
  · rename_i reference href hop
    have hchange : call.operation = .replace ∨ call.operation = .patch := by
      cases hc : call.operation with
      | replace => exact .inl rfl
      | patch => exact .inr rfl
      | create => exact (hop hc).elim
      | query | read | delete =>
        rw [hc] at hw
        cases hw
    obtain ⟨target, ht⟩ := target_of_plan href hchange h
    exact (hd.failsOnly_readReference ht i').map _
  · exact hserialize.map _

/-! ### Requests -/

/-- A request that does not write leaves the store as it is when it fails. -/
theorem eq_of_error_of_not_writes {call : Call} (hw : call.operation.writes = false)
    (hm : call.factory.InMemory s.databases.length) {e : RequestError} {s' : Store}
    (h : r.perform call s = .error e s') : s' = s := by
  obtain ⟨operation, f, req⟩ := call
  cases operation with
  | query => exact (r.keeps_query f req).of_error h
  | read => exact (r.keeps_read f req).of_error h
  | delete =>
    have hdelete : f.delete req s = .error e s' := h
    cases ha : f.actions? with
    | none =>
      obtain ⟨e', he⟩ := Factory.delete_of_unbound (s := s) ha req
      rw [he] at hdelete
      cases hdelete
      rfl
    | some actions =>
      obtain ⟨number, collection, rfl, -⟩ := hm actions ha
      rcases Factory.delete_cases (s := s) ha req with ⟨e', he⟩ | ⟨id, he⟩
      · rw [he] at hdelete
        cases hdelete
        rfl
      · rw [he] at hdelete
        cases hdelete
  | create | replace | patch => cases hw

end Registry

/-- **The error says whether anything has changed.** A request that failed has changed the contents
of the store exactly if it was to write an instance of a stored model, other than what is there, and
the error says that a model is not stored. -/
theorem Server.changes_of_error_iff {server : Server} (h : server.Assembled) {s s' : Store}
    (hs : server.Reaches s) {call : Call} (hf : call.factory ∈ server.registry.made)
    (hooks : call.factory.HookFree) {e : RequestError}
    (he : server.registry.perform call s = .error e s') :
    ¬s.SameRecords s' ↔
      call.operation.writes = true ∧ call.factory.actions?.isSome = true ∧ e.IsUnstored ∧
        ¬server.registry.Repeats call s := by
  have hd := hs.deployed h
  have hm := hd.memory call.factory hf
  have hsame : s' = s → ¬¬s.SameRecords s' := by
    rintro rfl hne
    exact hne (Store.SameRecords.refl _)
  cases hw : call.operation.writes with
  | false =>
    have hs' := Registry.eq_of_error_of_not_writes hw hm he
    exact ⟨fun hne => (hsame hs' hne).elim, fun hand => by cases hand.1⟩
  | true =>
    cases ha : call.factory.actions? with
    | none =>
      have hs' := Registry.stateLeft_perform_of_unbound (r := server.registry) (s := s) hw ha
      rw [he] at hs'
      exact ⟨fun hne => (hsame hs' hne).elim, fun hand => by cases hand.2.1⟩
    | some actions =>
      obtain ⟨number, collection, rfl, hn⟩ := hm actions ha
      rcases server.registry.perform_writes_cases hw hooks ha hn with
        ⟨e', hplan, hp⟩ | ⟨i, params, e', -, hsave, hp⟩ | ⟨i, params, i', s₁, hplan, hsave, hp⟩
      · rw [hp] at he
        cases he
        have hother := server.registry.failsOnly_plan ha s e s hplan
        exact ⟨fun hne => (hsame rfl hne).elim, fun hand => (hother hand.2.2.1).elim⟩
      · rw [hp] at he
        cases he
        have hother := Factory.not_isUnstored_of_saveInstance hooks ha hn hsave
        exact ⟨fun hne => (hsame rfl hne).elim, fun hand => (hother hand.2.2.1).elim⟩
      · rw [hp] at he
        have hs' := (server.registry.keeps_answer call i' params).of_error he
        have hunstored := hd.failsOnly_answer hf hw hplan s₁ e s' he
        rw [hs', Registry.sameRecords_iff_repeats hooks ha hn hplan hsave]
        exact ⟨fun hnot => ⟨rfl, rfl, hunstored, hnot⟩, fun hand => hand.2.2.2⟩

namespace Lending

/-- A new book, which the answer is to show with its note. -/
def noted : Call :=
  { operation := .create, factory := books, request :=
    { query := [("includes", "note")], body := .object [("note", .string "n1")] } }

/-- The note of a book that is there already. -/
def renoted : Call :=
  { operation := .replace, factory := books, request :=
    { id := some "b1", reference := some "note", body := .string "n1" } }

/-- The store with one book. -/
def oneBook : Store :=
  storeAfter [(.create, { body := .object [("_id", .string "b1"), ("title", .string "Emma")] })]

/-- How a note is said to be stored nowhere. -/
def noNotes : RequestError := (FactoryError.notPersistent "Note").toRequest

theorem noted_fails : server.registry.perform noted server.store =
    .error noNotes (server.registry.after server.store noted) :=
  failure?_eq_some_iff.mp (by decide +kernel)

theorem renoted_fails : server.registry.perform renoted oneBook =
    .error noNotes (server.registry.after oneBook renoted) :=
  failure?_eq_some_iff.mp (by decide +kernel)

/-- The note is written although it cannot be shown. -/
theorem renoted_changes : ¬oneBook.SameRecords (server.registry.after oneBook renoted) ∧
    ¬server.registry.Repeats renoted oneBook := by
  have hchanged : ¬oneBook.SameRecords (server.registry.after oneBook renoted) := by
    intro hsame
    have hbook : KeyMap.get? ((server.registry.after oneBook renoted).records 0 "Book") "b1" ≠
        KeyMap.get? (oneBook.records 0 "Book") "b1" := by decide +kernel
    exact hbook (hsame 0 "Book" "b1")
  have hiff := Server.changes_of_error_iff assembled (reaches_storeAfter _) books_mem
    (hookFree _ books_mem) renoted_fails
  exact ⟨hchanged, (hiff.mp hchanged).2.2.2⟩

-- the clock of this server stands still, so that to write the note again changes nothing
example : let s := server.registry.after oneBook renoted
    (server.registry.after s renoted).records 0 "Book" = s.records 0 "Book" := by decide +kernel

/-- Not every request that fails leaves the store as it is: the book is there in the end. -/
theorem noted_not_atomic : ¬∀ e s', server.registry.perform noted server.store = .error e s' →
    server.store.SameRecords s' := by
  intro h
  have hsame := h _ _ noted_fails 0 "Book" (server.store.newId [])
  rw [assembled.empty] at hsame
  have hbook : (KeyMap.get? ((server.registry.after server.store noted).records 0 "Book")
      (server.store.newId [])).isSome = true := by
    decide +kernel
  rw [hsame] at hbook
  cases hbook

end Lending

end ModelRest
