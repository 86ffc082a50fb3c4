import ModelRest.Proofs.Assembly
import ModelRest.Proofs.Assignment
import ModelRest.Proofs.Serialization

/-!
# Reading what was written

A request that writes answers with the instance that it has saved, and a request that reads with a
record. Both show it in the same way (`Registry.render`), which depends on nothing but the values:
what was written is therefore read back as it was answered, if it is read under the identifier that
it was written under.

A request that sets the identifier itself, as a reference, is answered with the record of the new
identifier, and leaves the old one as it was. `Server.reads_back_iff` says that reading back fails
for such a request alone, and exactly if one of the two identifiers leads to a record
(`Registry.Moves`).
-/

namespace ModelRest

/-! ### Showing an instance -/

namespace Registry

variable {r : Registry} {f : Factory} {s s' : Store} {i i' : Instance}
  {params params' : Parameters}

/-- What is shown of an instance: what a reference refers to, or all that is visible. -/
def render (r : Registry) (f : Factory) (reference? : Option String) (i : Instance)
    (params : Parameters) : StoreM RequestError Json :=
  match reference? with
  | some reference => r.readReference f i reference
  | none => liftFactory (r.serialize f i params)

/-- Populating depends only on what is to be populated. -/
theorem populateField_congr (hincludes : params'.includes = params.includes) :
    r.populateField f params' = r.populateField f params := by
  funext item key
  have hinclude : params'.include? key = params.include? key := by
    unfold Parameters.include?
    rw [hincludes]
  unfold populateField
  rw [hinclude]

/-- What is shown depends only on the values, and on the references to be populated. -/
theorem render_congr {reference? : Option String} (hvalues : i'.values = i.values)
    (hincludes : reference? = none → params'.includes = params.includes) :
    r.render f reference? i' params' = r.render f reference? i params := by
  cases reference? with
  | some reference =>
    show r.readReference f i' reference = r.readReference f i reference
    unfold readReference Instance.get?
    rw [hvalues]
  | none =>
    show liftFactory (r.serialize f i' params') = liftFactory (r.serialize f i params)
    unfold serialize populateFields
    rw [hvalues, populateField_congr (hincludes rfl)]

/-- A request that writes shows the instance that it has saved. -/
theorem render_of_answer {call : Call} (hw : call.operation.writes = true) {outcome : Outcome}
    (h : r.answer call i params s = .ok outcome s') :
    r.render call.factory call.reference? i params s = .ok outcome.body s' := by
  obtain ⟨operation, f, req⟩ := call
  have hshown : ∀ (reference? : Option String) {wrap : Json → Outcome}, (∀ v, (wrap v).body = v) →
      (wrap <$> r.render f reference? i params) s = .ok outcome s' →
        r.render f reference? i params s = .ok outcome.body s' := by
    intro reference? wrap hwrap h
    obtain ⟨v, hv, rfl⟩ := mapped_eq_ok_iff.mp h
    rwa [hwrap]
  cases operation with
  | create => exact hshown none (fun _ => rfl) h
  | replace | patch =>
    unfold answer at h
    show r.render f req.reference i params s = _
    cases hr : req.reference with
    | none =>
      rw [hr] at h
      exact hshown none (fun _ => rfl) h
    | some reference =>
      rw [hr] at h
      exact hshown (some reference) (fun _ => rfl) h
  | query | read | delete => cases hw

/-- A request that reads shows the record. -/
theorem read_of_stored {number : Nat} {collection : String}
    (hb : f.actions? = some (.memory number collection)) {req : Request} {id : String}
    (hid : req.id = some id) (hparams : req.parameters = .ok params) {record : StoredRecord}
    (hget : KeyMap.get? (s.records number collection) id = some record) :
    r.read f req s =
      (Outcome.ok <$> r.render f req.reference { model := f.name, values := record.values } params)
        s := by
  have hload : f.loadFor req params s = .ok { model := f.name, values := record.values } s :=
    (Factory.loadFor_eq_ok_iff hb).mpr ⟨rfl, id, record, hid, hget, rfl⟩
  unfold read
  rw [hparams]
  show (f.loadFor req params >>= _) s = _
  rw [bind_apply, hload]
  unfold render
  cases req.reference <;> rfl

/-- A reference to a model in memory is shown by what it refers to. -/
theorem readReference_eq {reference : String} {target : Factory} {number : Nat}
    {collection : String} (ht : r.target f reference = .ok target)
    (hb : target.actions? = some (.memory number collection)) {v : Json}
    (hv : i.get? reference = some v) (hne : v ≠ .null) :
    r.readReference f i reference s =
      .ok (Reference.filled (s.records number collection) none v) s := by
  have hitem : KeyMap.get? [(reference, v)] reference = some v := by
    rw [KeyMap.get?_cons, if_pos rfl]
  have hpopulated : r.populateField f (referenceAlone reference) (.object [(reference, v)])
      reference s = .ok (.object (KeyMap.insert [(reference, v)] reference
        (Reference.filled (s.records number collection) none v))) s :=
    populateField_memory (include?_referenceAlone reference) hitem hne ht hb
  have hmember : (Json.object (KeyMap.insert [(reference, v)] reference
      (Reference.filled (s.records number collection) none v))).member? reference =
        some (Reference.filled (s.records number collection) none v) :=
    KeyMap.get?_insert_self ..
  unfold readReference
  rw [hv]
  refine bind_eq_ok_iff.mpr ⟨target, s, liftLookup_eq_ok_iff.mpr ⟨ht, rfl⟩,
    bind_eq_ok_iff.mpr ⟨_, s, liftFactory_eq_ok_iff.mpr hpopulated, ?_⟩⟩
  rw [hmember]
  rfl

end Registry

namespace Reference

/-- What an identifier is filled in with. -/
theorem filledOne_string (c : Collection) (id : String) : filledOne c none (.string id) =
    match KeyMap.get? c id with
    | none => .null
    | some record => .object record.values := by
  unfold filledOne id?
  dsimp only
  cases KeyMap.get? c id <;> rfl

/-- Two identifiers are filled in alike only where neither leads to a record. -/
theorem filledOne_eq_filledOne_iff {s : Store} (hs : s.Sound) {number : Nat}
    {collection id other : String} (hne : other ≠ id) :
    filledOne (s.records number collection) none (.string id) =
        filledOne (s.records number collection) none (.string other) ↔
      ¬(KeyMap.contains (s.records number collection) id = true ∨
        KeyMap.contains (s.records number collection) other = true) := by
  rw [filledOne_string, filledOne_string]
  unfold KeyMap.contains
  cases hid : KeyMap.get? (s.records number collection) id with
  | none => cases KeyMap.get? (s.records number collection) other <;> simp
  | some record =>
    cases hother : KeyMap.get? (s.records number collection) other with
    | none => simp
    | some record' =>
      -- the records bear their identifiers
      have hdiffer : record.values ≠ record'.values := by
        intro he
        have hkeyed := (hs _ _ _ _ hid).keyed
        rw [he, (hs _ _ _ _ hother).keyed] at hkeyed
        exact hne (Json.string.inj (Option.some.inj hkeyed))
      simp [hdiffer]

end Reference

/-! ### Requests that write, and requests that read -/

namespace Registry

/-- The identifier that the request saves its instance under. -/
def SavesAs (r : Registry) (call : Call) (s : Store) (id : String) : Prop :=
  ∃ i params saved s', r.plan call s = .ok (i, params) s ∧
    call.factory.saveInstance i params s = .ok saved s' ∧ saved.id? = some id

/-- The identifier that a request which writes is about: the one that it names, or that of the record
that it creates. -/
def Concerns (r : Registry) (call : Call) (s : Store) (id : String) : Prop :=
  match call.operation with
  | .create => r.SavesAs call s id
  | _ => call.request.id = some id

variable {r : Registry} {call : Call} {s : Store} {id : String}

theorem concerns_of_create (hop : call.operation = .create) :
    r.Concerns call s id ↔ r.SavesAs call s id := by
  unfold Concerns
  rw [hop]

theorem concerns_of_ne (hop : call.operation ≠ .create) :
    r.Concerns call s id ↔ call.request.id = some id := by
  unfold Concerns
  cases hc : call.operation with
  | create => exact absurd hc hop
  | query | read | replace | patch | delete => rfl

end Registry

/-- A change is about the reference that the request names. -/
theorem Call.reference?_of_change {call : Call}
    (hop : call.operation = .replace ∨ call.operation = .patch) :
    call.reference? = call.request.reference := by
  unfold reference?
  rcases hop with hop | hop <;> rw [hop]

/-- A request reads the record of an identifier, or the reference of it that a request which writes
is about, with the same references to be populated. -/
structure Call.ReadBy (call : Call) (id : String) (req : Request) : Prop where
  /-- It names the identifier. -/
  named : req.id = some id
  /-- It is about the same reference, or about none. -/
  reference : req.reference = call.reference?
  /-- Its parameters make sense. -/
  parameters : ∃ params, req.parameters = .ok params
  /-- It asks for the same references, if it is about the record. -/
  includes : call.reference? = none → ∀ params params', req.parameters = .ok params →
    call.request.parameters = .ok params' → params.includes = params'.includes

namespace Registry

/-- The request saves its instance under another identifier, and one of the two leads to a record
afterwards. -/
inductive Moves (r : Registry) (call : Call) (s s' : Store) (id : String) : Prop where
  /-- It has set the identifier, as a reference. -/
  | moved {other : String} {target : Factory} {number' : Nat} {collection' : String}
      (hreference : call.reference? = some idField) (hother : other ≠ id)
      (hsaves : r.SavesAs call s other)
      (ht : r.target call.factory idField = .ok target)
      (hb : target.actions? = some (.memory number' collection'))
      (hleads : KeyMap.contains (s'.records number' collection') id = true ∨
        KeyMap.contains (s'.records number' collection') other = true) :
      Moves r call s s' id

/-- A request has written: it has planned an instance, put the record of it into the collection, and
shown the record. -/
structure Wrote (r : Registry) (call : Call) (s s' : Store) (number : Nat) (collection : String)
    (i : Instance) (params : Parameters) (id : String) (record : StoredRecord) (body : Json) :
    Prop where
  /-- The instance was planned. -/
  planned : r.plan call s = .ok (i, params) s
  /-- The record was put under the identifier. -/
  put : s.Put s' number collection id record
  /-- The instance was saved under the identifier, and under no other. -/
  saves : ∀ other, r.SavesAs call s other ↔ other = id
  /-- The record of the instance was replaced, if there was one. -/
  replaces : ∀ other old, i.id? = some other →
    KeyMap.get? (s.records number collection) other = some old → id = other
  /-- The record is shown. -/
  shown : r.render call.factory call.reference?
    { model := call.factory.name, values := record.values } params s' = .ok body s'

variable {r : Registry} {call : Call} {s s' : Store} {number : Nat} {collection : String}
  {i : Instance} {params : Parameters} {id stored : String} {record : StoredRecord} {body : Json}
  {req : Request}

/-- A request that writes and succeeds has written. -/
theorem exists_wrote_of_perform (hw : call.operation.writes = true)
    (hooks : call.factory.HookFree)
    (hb : call.factory.actions? = some (.memory number collection))
    (hn : number < s.databases.length) (hs : s.Sound) {outcome : Outcome}
    (hok : r.perform call s = .ok outcome s') :
    ∃ i params id record, r.Wrote call s s' number collection i params id record outcome.body := by
  rcases r.perform_writes_cases hw hooks hb hn with
    ⟨e, -, herror⟩ | ⟨_, _, e, -, -, herror⟩ | ⟨i, params, saved, left, hplan, hsave, hanswer⟩
  · rw [hok] at herror
    cases herror
  · rw [hok] at herror
    cases herror
  · rw [hanswer] at hok
    cases (r.keeps_answer call saved params).of_ok hok
    obtain ⟨-, hwritten⟩ := Factory.saveInstance_ok hooks hb hn hsave
    obtain ⟨id, record, hvalues, hput, hmakes⟩ := hwritten.exists_makes hs
    have hid : saved.id? = some id := by
      rw [Instance.id?, ← hvalues, idOf?, hmakes.keyed]
      rfl
    refine ⟨i, params, id, record, hplan, hput, fun other => ⟨?_, ?_⟩, fun other old hother hold =>
      (hmakes.own other old hold).mp hother, ?_⟩
    · rintro ⟨i', params', saved', left', hplan', hsave', hother⟩
      cases hplan.symm.trans hplan'
      cases hsave.symm.trans hsave'
      exact Option.some.inj (hother.symm.trans hid)
    · rintro rfl
      exact ⟨i, params, saved, _, hplan, hsave, hid⟩
    · rw [render_congr (i := saved) hvalues fun _ => rfl]
      exact render_of_answer hw hok

/-- The parameters of a plan are those of the request, and a change is planned from the record of
the identifier that the request names. -/
theorem parameters_of_plan (hb : call.factory.actions? = some (.memory number collection))
    (hs : s.Sound) (h : r.plan call s = .ok (i, params) s') :
    call.request.parameters = .ok params ∧ (call.operation ≠ .create →
      ∃ id old, call.request.id = some id ∧
        KeyMap.get? (s.records number collection) id = some old ∧
        (call.reference? ≠ some idField → i.id? = some id)) := by
  cases plans_of_plan h with
  | create hop h =>
    obtain ⟨-, body, -, hparams, -⟩ := planCreate_eq_ok_iff.mp h
    exact ⟨hparams, fun hne => absurd hop hne⟩
  | @reference reference _ hop href h =>
    obtain ⟨-, target, id, old, value, -, hparams, hid, hold, -, rfl⟩ :=
      (planReference_eq_ok_iff hb).mp h
    refine ⟨hparams, fun _ => ⟨id, old, hid, hold, fun hne => ?_⟩⟩
    rw [Call.reference?_of_change hop, href] at hne
    show (KeyMap.get? (KeyMap.insert old.values reference value) idField).bind Json.string? = _
    rw [KeyMap.get?_insert_of_ne _ _ fun he => hne (congrArg some he)]
    exact (hs _ _ _ _ hold).idOf?_eq
  | record _ _ h =>
    obtain ⟨-, body, id, old, -, hparams, hid, hold, rfl⟩ := (planRecord_eq_ok_iff hb).mp h
    exact ⟨hparams, fun _ => ⟨id, old, hid, hold, fun _ =>
      Factory.idOf?_assignAll (hs _ _ _ _ hold).idOf?_eq⟩⟩

/-- What was written is read back under the identifier that it was written under. -/
theorem Wrote.read_eq (h : r.Wrote call s s' number collection i params id record body)
    (hb : call.factory.actions? = some (.memory number collection)) (hs : s.Sound)
    (hread : call.ReadBy id req) : r.read call.factory req s' = .ok (.ok body) s' := by
  obtain ⟨params', hparams'⟩ := hread.parameters
  have hparams := (parameters_of_plan hb hs h.planned).1
  rw [read_of_stored hb hread.named hparams' h.put.get?_self, hread.reference]
  refine mapped_eq_ok_iff.mpr ⟨body, ?_, rfl⟩
  rw [render_congr rfl fun hr => hread.includes hr params' params hparams' hparams]
  exact h.shown

/-- When the identifier itself was set, and is another one now, the old one is read back as the new
one is answered exactly if neither leads to a record. -/
theorem Wrote.read_eq_iff_of_ne
    (h : r.Wrote call s s' number collection i params stored record body)
    (hb : call.factory.actions? = some (.memory number collection)) (hs' : s'.Sound)
    (hm : r.TargetsInMemory call.factory s') (hread : call.ReadBy id req) {old : StoredRecord}
    (hold : KeyMap.get? (s.records number collection) id = some old)
    (href : call.reference? = some idField) (hne : stored ≠ id) :
    r.read call.factory req s' = .ok (.ok body) s' ↔
      ¬r.Moves call s s' id := by
  have hold' : KeyMap.get? (s'.records number collection) id = some old :=
    (h.put.get?_of_ne fun hsame => hne hsame.2.2).trans hold
  have hkeyed := (hs' _ _ _ _ hold').keyed
  have hkeyed' := (hs' _ _ _ _ h.put.get?_self).keyed
  -- what was answered is the record of the new identifier
  have hshown := h.shown
  rw [href] at hshown
  obtain ⟨-, -, hpopulated⟩ := readReference_eq_ok hm hshown
  rw [show Instance.get? { model := call.factory.name, values := record.values } idField =
    some (.string stored) from hkeyed', Option.getD_some] at hpopulated
  cases hpopulated with
  | skipped hskipped =>
    rw [include?_referenceAlone] at hskipped
    cases hskipped
  | @filled _ _ target number' collection' hinclude ht hb' =>
    rw [include?_referenceAlone] at hinclude
    cases hinclude
    -- what is read is that of the old one
    obtain ⟨params', hparams'⟩ := hread.parameters
    have hold'' : r.read call.factory req s' = .ok (.ok (Reference.filledOne
        (s'.records number' collection') none (.string id))) s' := by
      rw [read_of_stored hb hread.named hparams' hold', hread.reference, href]
      exact mapped_eq_ok_iff.mpr ⟨_, readReference_eq ht hb' hkeyed nofun, rfl⟩
    have hmoves : r.Moves call s s' id ↔
        (KeyMap.contains (s'.records number' collection') id = true ∨
          KeyMap.contains (s'.records number' collection') stored = true) := by
      constructor
      · rintro ⟨-, -, hsaves, ht', hb'', hleads⟩
        cases ht.symm.trans ht'
        cases hb'.symm.trans hb''
        rwa [(h.saves _).mp hsaves] at hleads
      · exact .moved href hne ((h.saves stored).mpr rfl) ht hb'
    rw [hold'', hmoves, ← Reference.filledOne_eq_filledOne_iff hs' hne]
    simp only [EStateM.Result.ok.injEq, Outcome.ok.injEq, and_true]
    rfl

/-- **A request that writes is read back** as it was answered, exactly if it does not move a
record. -/
theorem Wrote.read_eq_iff (h : r.Wrote call s s' number collection i params stored record body)
    (hb : call.factory.actions? = some (.memory number collection)) (hs : s.Sound)
    (hs' : s'.Sound) (hm : r.TargetsInMemory call.factory s')
    (hid : r.Concerns call s id) (hread : call.ReadBy id req) :
    r.read call.factory req s' = .ok (.ok body) s' ↔ ¬r.Moves call s s' id := by
  by_cases hsame : stored = id
  case pos =>
    subst hsame
    refine iff_of_true (h.read_eq hb hs hread) ?_
    rintro ⟨-, hother, hsaves, -, -, -⟩
    exact hother ((h.saves _).mp hsaves)
  case neg =>
    by_cases hop : call.operation = .create
    case pos =>
      exact absurd ((h.saves id).mp ((concerns_of_create hop).mp hid)).symm hsame
    case neg =>
      obtain ⟨id', old, hid', hold, hplanned⟩ := (parameters_of_plan hb hs h.planned).2 hop
      cases hid'.symm.trans ((concerns_of_ne hop).mp hid)
      by_cases href : call.reference? = some idField
      case pos => exact h.read_eq_iff_of_ne hb hs' hm hread hold href hsame
      case neg => exact absurd (h.replaces id old (hplanned href) hold) hsame

end Registry

/-- **What a request that writes answers is read back**: a record under its identifier, and a
reference under its path, unless the request sets the identifier itself and so moves the record. -/
theorem Server.reads_back_iff {server : Server} (h : server.Assembled) {s s' : Store}
    (hs : server.Reaches s) {call : Call} (hf : call.factory ∈ server.registry.made)
    (hooks : call.factory.HookFree) {number : Nat} {collection : String}
    (hb : call.factory.actions? = some (.memory number collection))
    (hw : call.operation.writes = true) {outcome : Outcome}
    (hok : server.registry.perform call s = .ok outcome s') :
    (∃ id, server.registry.Concerns call s id) ∧
      ∀ id, server.registry.Concerns call s id → ∀ req, call.ReadBy id req →
        (server.registry.read call.factory req s' = .ok (.ok outcome.body) s' ↔
          ¬server.registry.Moves call s s' id) := by
  have hreach : server.Reaches s' := by
    have hafter := hs.after hf
    rwa [Registry.after, hok] at hafter
  have hsound := (hs.sound h).2
  have hmemory : server.registry.TargetsInMemory call.factory s' := fun key target ht =>
    (hreach.deployed h).memory target (Registry.mem_made_of_target ht)
  obtain ⟨i, params, stored, record, hwrote⟩ := Registry.exists_wrote_of_perform hw hooks hb
    (((hs.deployed h).memory _ hf).lt hb) hsound hok
  refine ⟨?_, fun id hid req hread =>
    hwrote.read_eq_iff hb hsound (hreach.sound h).2 hmemory hid hread⟩
  by_cases hop : call.operation = .create
  case pos =>
    exact ⟨stored, (Registry.concerns_of_create hop).mpr ((hwrote.saves stored).mpr rfl)⟩
  case neg =>
    obtain ⟨id, -, hid, -, -⟩ := (Registry.parameters_of_plan hb hsound hwrote.planned).2 hop
    exact ⟨id, (Registry.concerns_of_ne hop).mpr hid⟩

namespace Signing

/-- A signature is known by its author, whom its identifier refers to. -/
def classes : List ClassDecl :=
  [{ ClassDecl.model "Author" with members := [Lending.property "name" "string" []] },
    { ClassDecl.model "Signature" with
      members := [Lending.property "_id" "Author" [], Lending.property "place" "string" []] }]

/-- The server with its models set up. -/
def server : Server := stateLeft (Server.assemble (.storing "signing" classes))

theorem assembled : server.Assembled := Server.assembled_storing (by decide +kernel)

theorem hookFree : server.HookFree := Server.hookFree_of_isNone (by decide +kernel)

/-- The factory of signatures. -/
def signatures : Factory := server.factory "Signature"

theorem signatures_mem : signatures ∈ server.registry.made := Server.factory_mem (by decide +kernel)

theorem signatures_actions : signatures.actions? = some (.memory 0 "Signature") :=
  Lending.eq_of_collection? (by decide +kernel)

/-- The store with two authors, and the signature of the first. -/
def store : Store := server.storeAfter
  [("Author", .create,
      { body := .object [("_id", .string "a1"), ("name", .string "Jane")] }),
    ("Author", .create,
      { body := .object [("_id", .string "a2"), ("name", .string "Mary")] }),
    ("Signature", .create,
      { body := .object [("_id", .string "a1"), ("place", .string "Bath")] })]

theorem reaches_store : server.Reaches store := Server.reaches_storeAfter (by decide +kernel)

/-- A request to make the second author the one who signs. -/
def resigned : Call where
  operation := .replace
  factory := signatures
  request := { id := some "a1", reference := some "_id", body := .string "a2" }

/-- A request for the author who signs. -/
def signer : Request := { id := some "a1", reference := some "_id" }

theorem signer_reads : resigned.ReadBy "a1" signer :=
  ⟨rfl, rfl, ⟨_, rfl⟩, nofun⟩

/-- The second author is answered, and the first is read. -/
theorem signer_answered :
    (answer? (server.registry.perform resigned store)).map
        (fun outcome => (outcome.body.member? "name").getD .null) = some (.string "Mary") ∧
      (answer? (server.registry.read signatures signer (server.registry.after store resigned))).map
        (fun outcome => (outcome.body.member? "name").getD .null) = some (.string "Jane") := by
  decide +kernel

theorem signer_not_read {outcome : Outcome} {s' : Store}
    (h : server.registry.perform resigned store = .ok outcome s') :
    server.registry.read signatures signer s' ≠ .ok (.ok outcome.body) s' := by
  intro hread
  obtain ⟨hmary, hjane⟩ := signer_answered
  rw [Registry.after, h] at hjane
  rw [h] at hmary
  rw [show stateLeft (.ok outcome s' : EStateM.Result RequestError Store Outcome) = s' from rfl,
    hread] at hjane
  exact absurd (hmary.symm.trans hjane) (by decide)

theorem resigned_succeeds :
    ∃ outcome s', server.registry.perform resigned store = .ok outcome s' :=
  succeeded_iff.mp (by decide +kernel)

/-- The signature was moved. -/
theorem signature_moved : ∃ outcome s',
    server.registry.perform resigned store = .ok outcome s' ∧
      server.registry.Moves resigned store s' "a1" := by
  obtain ⟨outcome, s', hok⟩ := resigned_succeeds
  refine ⟨outcome, s', hok, ?_⟩
  by_contra hnot
  exact signer_not_read hok (((Server.reads_back_iff assembled reaches_store signatures_mem
    (hookFree _ signatures_mem) signatures_actions rfl hok).2 "a1" rfl signer signer_reads).mpr hnot)

/-- A change of the author who signs succeeds, and what it answers is not read afterwards. -/
theorem signer_lost : server.Assembled ∧ server.Reaches store ∧ resigned.ReadBy "a1" signer ∧
    ∃ outcome s', server.registry.perform resigned store = .ok outcome s' ∧
      server.registry.Concerns resigned store "a1" ∧
      server.registry.read signatures signer s' ≠ .ok (.ok outcome.body) s' := by
  obtain ⟨outcome, s', hok⟩ := resigned_succeeds
  exact ⟨assembled, reaches_store, signer_reads, outcome, s', hok, rfl, signer_not_read hok⟩

end Signing

end ModelRest
