import ModelRest.Proofs.ReadBack
import ModelRest.Proofs.Revision

/-!
# What a query cannot do

Of the query of a request only four things are made: the references to populate, the records to look
for, whether missing values are deleted, and that protected values stay protected. The parameters
that carry them go through loading, changing, saving and showing. Every step either does not look at
them, or looks at the references to populate alone, or has what becomes of missing values put in by
the operation: so there is one lemma for each step that says that it does the same with parameters
that agree (`Parameters.Agree`).

`Server.perform_eq_of_alike` puts them together: two requests that differ only in their queries, and
there neither in the references to populate nor in the records to look for, are answered alike, with
an outcome or with an error, and leave the same store; and so do sequences of such requests
(`Registry.foldl_after_congr`). `Registry.spares_of_plan` says what they have in common when they
change a record: whatever the query says, protected values stay, and a change that is no replacement
removes nothing.
-/

namespace ModelRest

/-! ### Parameters that agree -/

/-- The parameters say the same, but perhaps not about missing values. -/
structure Parameters.Agree (p p' : Parameters) : Prop where
  /-- The same references are populated. -/
  includes : p.includes = p'.includes
  /-- The request is about the same reference. -/
  reference : p.reference = p'.reference
  /-- Protected values are treated alike. -/
  ignoreReadOnly : p.ignoreReadOnly = p'.ignoreReadOnly

/-- Parameters that agree are the same once it is said what becomes of missing values. -/
theorem Parameters.Agree.with_deleteMissing {p p' : Parameters} (h : p.Agree p') (b : Bool) :
    { p with deleteMissing := b } = { p' with deleteMissing := b } := by
  rw [h.includes, h.reference, h.ignoreReadOnly]

namespace Request

/-- The requests are the same, except that their queries may say different things about anything but
the references to populate and the records to look for. -/
structure Alike (req req' : Request) : Prop where
  /-- They name the same identifier. -/
  id : req.id = req'.id
  /-- They name the same reference. -/
  reference : req.reference = req'.reference
  /-- They have the same body. -/
  body : req.body = req'.body
  /-- They ask for the same references to be populated. -/
  includes : KeyMap.get? req.query "includes" = KeyMap.get? req'.query "includes"
  /-- They look for the same records. -/
  filter : KeyMap.get? req.query "where" = KeyMap.get? req'.query "where"

variable {req req' : Request} {α : Type}

theorem Alike.filterOf (h : req.Alike req') :
    Parameters.filterOf req.query = Parameters.filterOf req'.query := by
  unfold Parameters.filterOf
  rw [h.filter]

theorem Alike.requireObject (h : req.Alike req') : req.requireObject = req'.requireObject := by
  unfold Request.requireObject
  rw [h.body]

/-- The parameters of the requests fail alike, or agree. -/
theorem Alike.parameters (h : req.Alike req') :
    (∃ e, req.parameters = .error e ∧ req'.parameters = .error e) ∨
      ∃ p p', req.parameters = .ok p ∧ req'.parameters = .ok p' ∧ p.Agree p' := by
  unfold Request.parameters Parameters.ofQuery
  rw [h.includes, h.reference]
  cases KeyMap.get? req'.query "includes" with
  | none => exact .inr ⟨_, _, rfl, rfl, rfl, rfl, rfl⟩
  | some raw =>
    dsimp only
    cases Include.parse raw with
    | error e => exact .inl ⟨e, rfl, rfl⟩
    | ok includes => exact .inr ⟨_, _, rfl, rfl, rfl, rfl, rfl⟩

/-- What does the same with parameters that agree does the same with the parameters of the
requests. -/
theorem Alike.bind_parameters (h : req.Alike req') {x x' : Parameters → StoreM RequestError α}
    (hx : ∀ p p', p.Agree p' → x p = x' p') :
    (liftResult req.parameters >>= x) = (liftResult req'.parameters >>= x') := by
  rcases h.parameters with ⟨e, he, he'⟩ | ⟨p, p', hp, hp', hagree⟩
  · rw [he, he']
    rfl
  · rw [hp, hp']
    exact hx p p' hagree

end Request

/-! ### Steps that do the same -/

namespace Factory

variable {f : Factory} {size : Nat}

/-- Records in memory are looked for without the parameters. -/
theorem fetchAll_congr (hm : f.InMemory size) (filter : Object) (p p' : Parameters) :
    f.fetchAll filter p = f.fetchAll filter p' := by
  unfold fetchAll requireActions
  cases hb : f.actions? with
  | none => rfl
  | some actions =>
    obtain ⟨number, collection, rfl, -⟩ := hm actions hb
    rfl

/-- A record in memory is read without the parameters. -/
theorem fetch_congr (hm : f.InMemory size) (id : String) (p p' : Parameters) :
    f.fetch id p = f.fetch id p' := by
  unfold fetch requireActions
  cases hb : f.actions? with
  | none => rfl
  | some actions =>
    obtain ⟨number, collection, rfl, -⟩ := hm actions hb
    rfl

theorem loadFor_congr (hm : f.InMemory size) {req req' : Request} (h : req.Alike req')
    (p p' : Parameters) : f.loadFor req p = f.loadFor req' p' := by
  unfold loadFor load Request.requireId
  rw [h.id]
  simp only [f.fetch_congr hm _ p p']

/-- A record in memory is written without the parameters: it is always replaced. -/
theorem saveInstance_congr (hm : f.InMemory size) (i : Instance) (p p' : Parameters) :
    f.saveInstance i p = f.saveInstance i p' := by
  have hsave : ∀ store, f.save i p store = f.save i p' store := by
    intro store
    unfold save requireActions
    cases hb : f.actions? with
    | none => rfl
    | some actions =>
      obtain ⟨number, collection, rfl, -⟩ := hm actions hb
      rfl
  funext store
  unfold saveInstance
  rw [hsave]

end Factory

namespace Registry

variable {r : Registry} {f : Factory} {size : Nat} {req req' : Request}

/-- What an instance shows depends on the references to populate alone. -/
theorem serialize_congr {p p' : Parameters} (h : p.Agree p') (i : Instance) :
    r.serialize f i p = r.serialize f i p' := by
  unfold serialize populateFields
  rw [populateField_congr h.includes]

theorem query_congr (hm : f.InMemory size) (h : req.Alike req') :
    r.query f req = r.query f req' := by
  unfold query
  rw [h.filterOf]
  refine congrArg _ (funext fun filter => h.bind_parameters fun p p' hp => ?_)
  rw [f.fetchAll_congr hm filter p p']
  simp only [serialize_congr hp]

theorem read_congr (hm : f.InMemory size) (h : req.Alike req') :
    r.read f req = r.read f req' := by
  unfold read
  refine h.bind_parameters fun p p' hp => ?_
  rw [f.loadFor_congr hm h p p', h.reference]
  simp only [serialize_congr hp]

theorem create_congr (hm : f.InMemory size) (h : req.Alike req') :
    r.create f req = r.create f req' := by
  unfold create
  rw [h.requireObject, h.body]
  refine congrArg _ (funext fun _ => h.bind_parameters fun p p' hp => ?_)
  simp only [f.saveInstance_congr hm _ p p', serialize_congr hp]

theorem writeReference_congr (hm : f.InMemory size) (h : req.Alike req') (reference : String)
    (append : Bool) :
    r.writeReference f req reference append = r.writeReference f req' reference append := by
  unfold writeReference
  refine congrArg _ (funext fun _ => h.bind_parameters fun p p' _ => ?_)
  rw [f.loadFor_congr hm h p p', h.body]
  simp only [f.saveInstance_congr hm _ p p']

/-- What becomes of missing values is up to the operation. -/
theorem writeRecord_congr (hm : f.InMemory size) (h : req.Alike req') (deleteMissing : Bool) :
    r.writeRecord f req deleteMissing = r.writeRecord f req' deleteMissing := by
  unfold writeRecord
  rw [h.requireObject, h.body]
  refine congrArg _ (funext fun _ => h.bind_parameters fun p p' hp => ?_)
  rw [f.loadFor_congr hm h p p', hp.with_deleteMissing deleteMissing]
  simp only [f.saveInstance_congr hm _ p p', serialize_congr hp]

theorem write_congr (hm : f.InMemory size) (h : req.Alike req') (deleteMissing : Bool) :
    r.write f req deleteMissing = r.write f req' deleteMissing := by
  unfold write
  rw [h.reference]
  cases req'.reference with
  | some reference => exact writeReference_congr hm h reference _
  | none => exact writeRecord_congr hm h deleteMissing

theorem delete_congr (hm : f.InMemory size) (h : req.Alike req') :
    f.delete req = f.delete req' := by
  unfold Factory.delete
  refine h.bind_parameters fun p p' _ => ?_
  rw [f.loadFor_congr hm h p p']

end Registry

/-! ### Requests -/

/-- The requests ask for the same of the same model, and are alike. -/
structure Call.Alike (call call' : Call) : Prop where
  /-- They ask for the same. -/
  operation : call.operation = call'.operation
  /-- They are about the same model. -/
  factory : call.factory = call'.factory
  /-- The requests are alike. -/
  request : call.request.Alike call'.request

namespace Registry

variable {r : Registry} {size : Nat} {call call' : Call}

/-- Requests that are alike do the same. -/
theorem perform_congr (hm : call.factory.InMemory size) (h : call.Alike call') :
    r.perform call = r.perform call' := by
  obtain ⟨operation, f, req⟩ := call
  obtain ⟨operation', f', req'⟩ := call'
  obtain ⟨rfl, rfl, hreq⟩ := h
  cases operation with
  | query => exact query_congr hm hreq
  | read => exact read_congr hm hreq
  | create => exact create_congr hm hreq
  | replace => exact write_congr hm hreq true
  | patch => exact write_congr hm hreq false
  | delete => exact delete_congr hm hreq

/-- Sequences of requests that are alike leave the same store. -/
theorem foldl_after_congr {calls calls' : List Call} (h : List.Forall₂ Call.Alike calls calls')
    (hm : ∀ call ∈ calls, call.factory.InMemory size) (s : Store) :
    calls.foldl r.after s = calls'.foldl r.after s := by
  induction h generalizing s with
  | nil => rfl
  | @cons call call' rest rest' hcall _ ih =>
    have hafter : r.after s call = r.after s call' := by
      unfold after
      rw [perform_congr (hm call (List.mem_cons_self ..)) hcall]
    rw [List.foldl_cons, List.foldl_cons, hafter]
    exact ih (fun c hc => hm c (List.mem_cons_of_mem _ hc)) _

end Registry

/-! ### What a change keeps -/

/-- A value that is not given stays, if missing values are not to be removed. -/
theorem Field.assign_of_missing {f : Field} {hasId : Bool} {params : Parameters}
    {data values : Object} (hgiven : KeyMap.get? data f.name = none)
    (hmissing : params.deleteMissing = false) : assign hasId params data values f = values := by
  unfold assign
  dsimp only
  rw [hgiven, hmissing]
  simp only [Bool.false_eq_true, if_false, ite_self]

theorem Factory.get?_assignAll_of_missing {f : Factory} {params : Parameters}
    {data values : Object} {name : String} (hgiven : KeyMap.get? data name = none)
    (hmissing : params.deleteMissing = false) :
    KeyMap.get? (f.assignAll params data values) name = KeyMap.get? values name := by
  unfold assignAll
  rw [Field.get?_foldl_assign (fun v => v) (fun _ => rfl)]
  · exact ite_self _
  · rintro field - rfl values
    rw [Field.assign_of_missing hgiven hmissing]

/-- What is added to the items of a reference comes after them. -/
theorem Reference.prefix_append (items more : List Json) : items <+: append items more := by
  unfold append
  induction more generalizing items with
  | nil => exact List.prefix_rfl
  | cons v more ih =>
    rw [List.foldl_cons]
    split
    · exact ih items
    · exact (List.prefix_append items [v]).trans (ih _)

/-- The change keeps of the values of a record what is protected, unless it is about this value
alone, and if it is no replacement, what it does not give. -/
structure Call.Spares (call : Call) (old new : Object) : Prop where
  /-- A change of the record keeps the protected values. -/
  guarded : call.request.reference = none → ∀ name, IsOrdinary name →
    call.factory.schema.protects name = true → KeyMap.get? new name = KeyMap.get? old name
  /-- If it is no replacement, it keeps the values that are not given. -/
  missing : call.request.reference = none → call.operation = .patch → ∀ name,
    call.request.body.member? name = none → KeyMap.get? new name = KeyMap.get? old name
  /-- A change of a reference keeps every other value. -/
  others : ∀ reference, call.request.reference = some reference → ∀ name, reference ≠ name →
    KeyMap.get? new name = KeyMap.get? old name
  /-- If it is no replacement, it keeps the items of a reference to several records. -/
  items : ∀ reference, call.request.reference = some reference → call.operation = .patch →
    (call.factory.field? reference).any Field.isPlural = true → ∃ items,
      KeyMap.get? new reference = some (.array items) ∧
        Reference.kept (KeyMap.get? old reference) <+: items

namespace Registry

variable {r : Registry} {call : Call} {s s' : Store} {number : Nat} {collection : String}
  {i : Instance} {params : Parameters}

/-- A change of a reference plans the record with the reference written, added to if it is no
replacement. -/
theorem plan_of_change_of_reference (hop : call.operation = .replace ∨ call.operation = .patch)
    {reference : String} (href : call.request.reference = some reference) :
    r.plan call =
      r.planReference call.factory call.request reference (decide (call.operation = .patch)) := by
  unfold plan planChange
  rw [href]
  rcases hop with hop | hop <;> rw [hop] <;> rfl

/-- What a change of a record plans keeps what it must. -/
theorem spares_of_planRecord (hd : r.Deployed s) (hs : s.Sound) (hf : call.factory ∈ r.made)
    (hb : call.factory.actions? = some (.memory number collection))
    (href : call.request.reference = none)
    (h : planRecord call.factory call.request (decide (call.operation = .replace)) s =
      .ok (i, params) s') :
    ∃ id record, call.request.id = some id ∧
      KeyMap.get? (s.records number collection) id = some record ∧
        call.Spares record.values i.values := by
  obtain ⟨-, body, id, record, hbody, hparams, hid, hget, rfl⟩ := (planRecord_eq_ok_iff hb).mp h
  have hignore := ignoreReadOnly_of_parameters hparams
  refine ⟨id, record, hid, hget, ?_⟩
  constructor
  case guarded =>
    intro _ name hname hprotected
    refine Factory.get?_assignAll_of_protected (hs _ _ _ _ hget).idOf?_eq ?_ hignore hname.1
      hname.2.1 hname.2.2
    rintro field hfield rfl
    exact hd.isProtected hf hfield hprotected
  case missing =>
    intro _ hop name hgiven
    rw [hbody] at hgiven
    exact Factory.get?_assignAll_of_missing hgiven (by rw [hop]; rfl)
  all_goals
    intro reference href'
    rw [href] at href'
    cases href'

/-- What is written to a reference to several records, if it is added, comes after the items that
are there. -/
theorem exists_prefix_of_written {reference : String} {old : Option Json} {given value : Json}
    (h : Reference.written reference true true old given = .ok value) :
    ∃ items, value = .array items ∧ Reference.kept old <+: items := by
  cases h
  exact ⟨_, rfl, Reference.prefix_append _ _⟩

/-- What a change of a reference plans keeps what it must. -/
theorem spares_of_planReference (hb : call.factory.actions? = some (.memory number collection))
    {reference : String} (href : call.request.reference = some reference)
    (h : r.planReference call.factory call.request reference (decide (call.operation = .patch)) s =
      .ok (i, params) s') :
    ∃ id record, call.request.id = some id ∧
      KeyMap.get? (s.records number collection) id = some record ∧
        call.Spares record.values i.values := by
  obtain ⟨-, _, id, record, value, -, -, hid, hget, hvalue, rfl⟩ :=
    (planReference_eq_ok_iff hb).mp h
  refine ⟨id, record, hid, hget, ?_⟩
  constructor
  case others =>
    intro reference' href' name hne
    cases href.symm.trans href'
    exact KeyMap.get?_insert_of_ne _ _ hne
  case items =>
    intro reference' href' hop hplural
    cases href.symm.trans href'
    rw [hplural, hop] at hvalue
    obtain ⟨items, rfl, hkept⟩ := exists_prefix_of_written hvalue
    exact ⟨items, KeyMap.get?_insert_self .., hkept⟩
  all_goals
    intro hnone
    rw [href] at hnone
    cases hnone

/-- **A change keeps what it does not give**, whatever its query says. -/
theorem spares_of_plan (hd : r.Deployed s) (hs : s.Sound) (hf : call.factory ∈ r.made)
    (hb : call.factory.actions? = some (.memory number collection))
    (hop : call.operation = .replace ∨ call.operation = .patch)
    (h : r.plan call s = .ok (i, params) s') :
    ∃ id record, call.request.id = some id ∧
      KeyMap.get? (s.records number collection) id = some record ∧
        call.Spares record.values i.values := by
  cases href : call.request.reference with
  | none =>
    rw [plan_of_change hop href] at h
    exact spares_of_planRecord hd hs hf hb href h
  | some reference =>
    rw [plan_of_change_of_reference hop href] at h
    exact spares_of_planReference hb href h

end Registry

/-- **The query cannot change what a request does.** Requests that ask for the same, but for what
their queries say of anything else than the references to populate and the records to look for, have
the same outcome or error, and leave the same store. What such a request changes of a record does
not depend on the rest of its query: protected values stay, and so does, if it is no replacement,
what it does not give. -/
theorem Server.perform_eq_of_alike {server : Server} (h : server.Assembled) {call call' : Call}
    (hf : call.factory ∈ server.registry.made) (halike : call.Alike call') :
    (∀ s, server.registry.perform call s = server.registry.perform call' s) ∧
      ∀ s, server.Reaches s → ∀ number collection,
        call.factory.actions? = some (.memory number collection) →
        (call.operation = .replace ∨ call.operation = .patch) →
        ∀ i params s', server.registry.plan call s = .ok (i, params) s' →
          ∃ id record, call.request.id = some id ∧
            KeyMap.get? (s.records number collection) id = some record ∧
              call.Spares record.values i.values := by
  constructor
  · intro s
    rw [Registry.perform_congr (h.deployed.memory _ hf) halike]
  · intro s hs number collection hb hop i params s' hplan
    exact Registry.spares_of_plan (hs.deployed h) (hs.sound h).2 hf hb hop hplan

namespace Lending

/-- A request to change the title of the book. -/
def retitled : Call where
  operation := .patch
  factory := books
  request := { id := some "b1", body := .object [("title", .string "Persuasion")] }

/-- The same request, with a query that asks for missing values to be deleted and for protected ones
to be written. -/
def insisted : Call where
  operation := .patch
  factory := books
  request :=
    { id := some "b1"
      query := [("deleteMissing", "true"), ("ignoreReadOnly", "true")]
      body := .object [("title", .string "Persuasion")] }

theorem insisted_alike : insisted.Alike retitled := ⟨rfl, rfl, rfl, rfl, rfl, rfl, rfl⟩

/-- The request succeeds, and insisting does not change it. -/
theorem insisted_performed :
    succeeded (server.registry.perform retitled writtenStore) = true ∧
      server.registry.perform insisted writtenStore =
        server.registry.perform retitled writtenStore :=
  ⟨by decide +kernel,
    (Server.perform_eq_of_alike assembled books_mem insisted_alike).1 writtenStore⟩

end Lending

end ModelRest
