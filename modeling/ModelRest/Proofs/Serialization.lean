import ModelRest.Proofs.Transitions

/-!
# What an answer is made of

A request gathers the instances that its answer is about, and then shows them (`gather_of_perform`).
To show an instance is to take its visible values (`get?_visibleValues_eq_some_iff`) and to put records in the
place of those references that the request asks for. Over databases in memory this changes the value
of a reference into the one that is filled in (`Reference.filled`), and nothing else:
`serialize_eq_ok` says so of an instance, and `readReference_eq_ok` of a reference that is asked for
by itself.
-/

namespace ModelRest

/-! ### References filled in -/

namespace Reference

/-- The record that an item of a reference refers to; null where there is no record, and the item as
it is where it holds no identifier. -/
def filledOne (c : Collection) (select : Option String) (v : Json) : Json :=
  match id? v with
  | none => v
  | some id =>
    match KeyMap.get? c id with
    | some record => selected (.object record.values) select
    | none => .null

/-- The records that a reference refers to, in its place. -/
def filled (c : Collection) (select : Option String) : Json → Json
  | .array items => .array (items.map (filledOne c select))
  | v => filledOne c select v

variable {s : Store} {number : Nat} {collection : String} {select : Option String}

theorem populateOne_memory (v : Json) :
    populateOne (.memory number collection) select v s =
      .ok (filledOne (s.records number collection) select v) s := by
  unfold populateOne filledOne
  cases id? v with
  | none => rfl
  | some id =>
    have hread : liftAction ((Actions.memory number collection).read id {}) s =
        .ok ((KeyMap.get? (s.records number collection) id).map fun record =>
          Json.object record.values) s := by
      show EStateM.Result.ok ((KeyMap.get? (s.records number collection) id).map
        StoredRecord.values |>.map Json.object) s = _
      rw [Option.map_map]
      rfl
    dsimp only
    rw [bind_apply, hread]
    cases KeyMap.get? (s.records number collection) id <;> rfl

/-- Over a database in memory, populating fills a reference in. -/
theorem populate_memory (v : Json) :
    populate (.memory number collection) select v s =
      .ok (filled (s.records number collection) select v) s := by
  have hitems : ∀ items : List Json, items.mapM (populateOne (.memory number collection) select) s =
      .ok (items.map (filledOne (s.records number collection) select)) s := by
    intro items
    induction items with
    | nil => rfl
    | cons v rest ih =>
      rw [List.mapM_cons, bind_apply, populateOne_memory]
      dsimp only
      rw [bind_apply, ih]
      rfl
  unfold populate filled
  cases v with
  | array items =>
    dsimp only
    rw [map_eq_pure_bind, bind_apply, hitems]
    rfl
  | null => exact populateOne_memory _
  | bool b => exact populateOne_memory _
  | number n => exact populateOne_memory _
  | string text => exact populateOne_memory _
  | object members => exact populateOne_memory _

end Reference

/-! ### Instances shown -/

/-- A field of the name is shown for an instance with these values. -/
def Factory.IsShown (f : Factory) (values : Object) (name : String) : Prop :=
  ∃ field ∈ f.fields, field.name = name ∧ field.isVisible values = true

/-- The visible values of an instance are its values in the fields that are shown. -/
theorem Factory.get?_visibleValues_eq_some_iff {f : Factory} {values : Object} {name : String}
    {v : Json} : KeyMap.get? (f.visibleValues values) name = some v ↔
      f.IsShown values name ∧ KeyMap.get? values name = some v := by
  have hnames : f.visibleValues values =
      KeyMap.ofPairs (((f.fields.filter (·.isVisible values)).map Field.name).filterMap
        fun name => (KeyMap.get? values name).map (name, ·)) := by
    rw [List.filterMap_map]
    rfl
  rw [hnames, KeyMap.get?_ofPairs_filterMap, List.mem_map]
  refine and_congr_left fun _ => exists_congr fun field => ?_
  rw [List.mem_filter, and_assoc, @and_comm (field.name = name)]

/-- What there are actions for is stored with them. -/
theorem Factory.requireActions_eq_ok_iff {f : Factory} {actions : Actions} :
    f.requireActions = .ok actions ↔ f.actions? = some actions := by
  unfold requireActions
  cases f.actions? <;> simp

/-- The names of the fields that refer to models. -/
def Factory.referenceNames (f : Factory) : List String :=
  (f.fields.filter Field.isReference).map Field.name

namespace Registry

variable {r : Registry} {f : Factory} {params : Parameters} {s s' : Store}

/-- What becomes of the value of a reference when an instance is shown. -/
inductive Populated (r : Registry) (f : Factory) (params : Parameters) (s : Store)
    (key : String) : Json → Json → Prop where
  /-- It stays, as it is not asked for. -/
  | skipped {v : Json} (h : params.include? key = none) : Populated r f params s key v v
  /-- It stays, as it is null. -/
  | null : Populated r f params s key .null .null
  /-- It is filled in. -/
  | filled {v : Json} {wanted : Include} {target : Factory} {number : Nat} {collection : String}
      (h : params.include? key = some wanted) (ht : r.target f key = .ok target)
      (hb : target.actions? = some (.memory number collection)) :
      Populated r f params s key v
        (Reference.filled (s.records number collection) wanted.select v)

/-- An object with its references among some names populated. -/
structure Shows (r : Registry) (f : Factory) (params : Parameters) (s : Store)
    (names : List String) (m m' : Object) : Prop where
  /-- The references are populated. -/
  populated : ∀ name ∈ names, ∀ v, KeyMap.get? m name = some v →
    ∃ w, KeyMap.get? m' name = some w ∧ r.Populated f params s name v w
  /-- What has no value gets none. -/
  absent : ∀ name, KeyMap.get? m name = none → KeyMap.get? m' name = none
  /-- Everything else stays. -/
  others : ∀ name, name ∉ names → KeyMap.get? m' name = KeyMap.get? m name

/-- Models that fields refer to are stored in memory, or not at all. -/
def TargetsInMemory (r : Registry) (f : Factory) (s : Store) : Prop :=
  ∀ key target, r.target f key = .ok target → target.InMemory s.databases.length

/-- Populating a field that is asked for and has a value puts the populated value there. -/
theorem populateField_of_get? {m : Object} {key : String} {wanted : Include} {v : Json}
    (hi : params.include? key = some wanted) (hv : KeyMap.get? m key = some v) (hne : v ≠ .null) :
    r.populateField f params (.object m) key = (do
      let target ← liftResult (r.target f key)
      let actions ← liftResult target.requireActions
      let populated ← Reference.populate actions wanted.select v
      pure (.object (KeyMap.insert m key populated))) := by
  unfold populateField
  rw [hi]
  dsimp only
  rw [hv]
  cases v with
  | null => exact absurd rfl hne
  | bool | number | string | array | object => rfl

/-- A reference to a model in memory is populated by what it is filled in with. -/
theorem populateField_memory {m : Object} {key : String} {wanted : Include} {v : Json}
    (hi : params.include? key = some wanted) (hv : KeyMap.get? m key = some v) (hne : v ≠ .null)
    {target : Factory} (ht : r.target f key = .ok target) {number : Nat} {collection : String}
    (hb : target.actions? = some (.memory number collection)) :
    r.populateField f params (.object m) key s =
      .ok (.object (KeyMap.insert m key
        (Reference.filled (s.records number collection) wanted.select v))) s := by
  rw [populateField_of_get? hi hv hne]
  exact bind_eq_ok_iff.mpr ⟨target, s, liftResult_eq_ok_iff.mpr ⟨ht, rfl⟩,
    bind_eq_ok_iff.mpr ⟨_, s,
      liftResult_eq_ok_iff.mpr ⟨Factory.requireActions_eq_ok_iff.mpr hb, rfl⟩,
      bind_eq_ok_iff.mpr ⟨_, s, Reference.populate_memory v, rfl⟩⟩⟩

/-- An object whose values may stay as they are is populated already. -/
theorem Shows.same {names : List String} {m : Object} (h : ∀ name ∈ names, ∀ v,
    KeyMap.get? m name = some v → r.Populated f params s name v v) : r.Shows f params s names m m where
  populated name hname v hv := ⟨v, hv, h name hname v hv⟩
  absent _ h := h
  others _ _ := rfl

/-- Putting the populated value of a field there populates the field. -/
theorem Shows.insert {m : Object} {key : String} {v w : Json} (hv : KeyMap.get? m key = some v)
    (hp : r.Populated f params s key v w) : r.Shows f params s [key] m (KeyMap.insert m key w) where
  populated name hname v' hv' := by
    rw [List.mem_singleton.mp hname] at hv' ⊢
    cases hv.symm.trans hv'
    exact ⟨w, KeyMap.get?_insert_self .., hp⟩
  absent name hnone := by
    have hne : key ≠ name := by
      rintro rfl
      rw [hnone] at hv
      cases hv
    rw [KeyMap.get?_insert_of_ne _ _ hne, hnone]
  others name hname :=
    KeyMap.get?_insert_of_ne _ _ fun he => hname (he ▸ List.mem_singleton_self key)

/-- Populating a field populates its value. -/
theorem populateField_eq_ok (hm : r.TargetsInMemory f s) {m : Object} {key : String} {out : Json}
    (h : r.populateField f params (.object m) key s = .ok out s') :
    ∃ m', out = .object m' ∧ r.Shows f params s [key] m m' ∧
      (KeyMap.Sorted m → KeyMap.Sorted m') := by
  -- where nothing is put, the value must be one that stays
  have hsame : (∀ v, KeyMap.get? m key = some v → r.Populated f params s key v v) →
      r.Shows f params s [key] m m := fun hkey =>
    .same fun name hname => List.mem_singleton.mp hname ▸ hkey
  cases hi : params.include? key with
  | none =>
    unfold populateField at h
    rw [hi] at h
    cases h
    exact ⟨m, rfl, hsame fun v _ => .skipped hi, id⟩
  | some wanted =>
    cases hv : KeyMap.get? m key with
    | none =>
      unfold populateField at h
      rw [hi] at h
      dsimp only at h
      rw [hv] at h
      cases h
      exact ⟨m, rfl, hsame fun w hw => absurd (hv.symm.trans hw) nofun, id⟩
    | some v =>
      by_cases hnull : v = .null
      · unfold populateField at h
        rw [hi] at h
        dsimp only at h
        rw [hv, hnull] at h
        cases h
        refine ⟨m, rfl, hsame fun w hw => ?_, id⟩
        rw [hv, hnull] at hw
        cases hw
        exact .null
      · rw [populateField_of_get? hi hv hnull] at h
        obtain ⟨target, s₁, htarget, h⟩ := bind_eq_ok_iff.mp h
        obtain ⟨ht, hs₁⟩ := liftResult_eq_ok_iff.mp htarget
        obtain ⟨actions, s₂, hactions, h⟩ := bind_eq_ok_iff.mp h
        obtain ⟨ha, hs₂⟩ := liftResult_eq_ok_iff.mp hactions
        have hb := Factory.requireActions_eq_ok_iff.mp ha
        obtain ⟨number, collection, rfl, -⟩ := hm key target ht actions hb
        rw [hs₂, hs₁, bind_apply, Reference.populate_memory] at h
        cases h
        exact ⟨_, rfl, .insert hv (.filled hi ht hb), fun hsorted => hsorted.insert _ _⟩

/-- Populating a value once more changes nothing. -/
def Settles (r : Registry) (f : Factory) (params : Parameters) (s : Store) : Prop :=
  ∀ key v w w', r.Populated f params s key v w → r.Populated f params s key w w' → w' = w

/-- Populating fields one after the other populates the value of each, if none is populated twice or
that makes no difference. -/
theorem populateFields_eq_ok (hm : r.TargetsInMemory f s) {keys : List String}
    (hn : keys.Nodup ∨ r.Settles f params s) {m : Object} {out : Json}
    (h : r.populateFields f params (.object m) keys s = .ok out s') :
    s' = s ∧ ∃ m', out = .object m' ∧ r.Shows f params s keys m m' ∧
      (KeyMap.Sorted m → KeyMap.Sorted m') := by
  induction keys generalizing m with
  | nil =>
    cases h
    exact ⟨rfl, m, rfl, .same fun name hname => absurd hname List.not_mem_nil, id⟩
  | cons key keys ih =>
    unfold populateFields at h ih
    rw [List.foldlM_cons] at h
    obtain ⟨out₁, s₁, h₁, h⟩ := bind_eq_ok_iff.mp h
    cases (r.keeps_populateField f params _ key).of_ok h₁
    obtain ⟨m₁, rfl, hfirst, hsorted₁⟩ := populateField_eq_ok hm h₁
    obtain ⟨rfl, m', rfl, hrest, hsorted⟩ := ih (hn.imp_left List.Nodup.of_cons) h
    refine ⟨rfl, m', rfl, ⟨?_, fun name hnone => ?_, fun name hname => ?_⟩, hsorted ∘ hsorted₁⟩
    · intro name hname v hv
      by_cases he : name = key
      · subst he
        obtain ⟨w, hw, hp⟩ := hfirst.populated name (List.mem_singleton_self name) v hv
        by_cases hkey : name ∈ keys
        · -- its turn comes again
          have hsettles := hn.resolve_left fun hn => (List.nodup_cons.mp hn).1 hkey
          obtain ⟨w', hw', hp'⟩ := hrest.populated name hkey w hw
          exact ⟨w, by rw [hw', hsettles name v w w' hp hp'], hp⟩
        · -- the others leave it as it is
          exact ⟨w, (hrest.others name hkey).trans hw, hp⟩
      · have hget := (hfirst.others name fun h => he (List.mem_singleton.mp h)).trans hv
        exact hrest.populated name ((List.mem_cons.mp hname).resolve_left he) v hget
    · exact hrest.absent name (hfirst.absent name hnone)
    · rw [List.mem_cons, not_or] at hname
      rw [hrest.others name hname.2,
        hfirst.others name fun h => hname.1 (List.mem_singleton.mp h)]

/-- Showing an instance shows its visible values. -/
theorem serialize_eq_ok (hm : r.TargetsInMemory f s)
    (hn : f.referenceNames.Nodup ∨ r.Settles f params s) {i : Instance} {out : Json}
    (h : r.serialize f i params s = .ok out s') :
    s' = s ∧ ∃ m, out = .object m ∧
      r.Shows f params s f.referenceNames (f.visibleValues i.values) m ∧ KeyMap.Sorted m := by
  obtain ⟨hs, m, hout, hshows, hsorted⟩ := populateFields_eq_ok hm hn h
  exact ⟨hs, m, hout, hshows, hsorted (KeyMap.sorted_ofPairs _)⟩

/-- What reads a reference of an instance asks for it. -/
def referenceAlone (reference : String) : Parameters := { includes := [{ path := reference }] }

theorem include?_referenceAlone (reference : String) :
    (referenceAlone reference).include? reference = some { path := reference } := by
  simp [Parameters.include?, referenceAlone]

/-- Reading a reference populates its value. -/
theorem readReference_eq_ok (hm : r.TargetsInMemory f s) {i : Instance} {reference : String}
    {out : Json} (h : r.readReference f i reference s = .ok out s') :
    s' = s ∧ (∃ target, r.target f reference = .ok target) ∧
      r.Populated f (referenceAlone reference) s reference ((i.get? reference).getD .null) out := by
  have hs := (r.keeps_readReference f i reference).of_ok h
  obtain ⟨target, s₁, htarget, h⟩ := bind_eq_ok_iff.mp h
  obtain ⟨ht, hs₁⟩ := liftLookup_eq_ok_iff.mp htarget
  obtain ⟨populated, s₂, hp, h⟩ := bind_eq_ok_iff.mp h
  rw [hs₁, liftFactory_eq_ok_iff] at hp
  obtain ⟨m', rfl, hshows, -⟩ := populateField_eq_ok hm hp
  obtain ⟨w, hw, hpop⟩ := hshows.populated reference (List.mem_singleton_self reference) _
    (by rw [KeyMap.get?_cons, if_pos rfl])
  have he : (Json.object m').member? reference = some w := hw
  rw [he] at h
  cases h
  exact ⟨hs, ⟨target, ht⟩, hpop⟩

end Registry

/-! ### Answers -/

/-- The reference that a request is about, if it is about one. -/
def Call.reference? (call : Call) : Option String :=
  match call.operation with
  | .query | .create => none
  | _ => call.request.reference

namespace Registry

/-- The instances that the answer to a request is about, with the parameters of the request: those
that are found, or the one that is written. -/
def gather (r : Registry) (call : Call) : StoreM RequestError (List Instance × Parameters) :=
  match call.operation with
  | .query => do
    let filter ← liftResult (Parameters.filterOf call.request.query)
    let params ← liftResult call.request.parameters
    let found ← liftFactory (call.factory.fetchAll filter params)
    pure (found, params)
  | .read => do
    let params ← liftResult call.request.parameters
    let i ← call.factory.loadFor call.request params
    pure ([i], params)
  | _ => do
    let p ← r.plan call
    let i ← liftFactory (call.factory.saveInstance p.1 p.2)
    pure ([i], p.2)

/-- What an answer shows of the instances that it is about. -/
inductive Answers (r : Registry) (call : Call) (params : Parameters) (s : Store) :
    List Instance → Json → Prop where
  /-- Each instance is shown. -/
  | shown {is : List Instance} {body : Json} (hr : call.reference? = none)
      (hshows : List.Forall₂ (fun i item => ∃ m, item = .object m ∧
        r.Shows call.factory params s call.factory.referenceNames
          (call.factory.visibleValues i.values) m) is (Reference.items body)) :
      Answers r call params s is body
  /-- The reference of the one instance is populated. -/
  | referred {i : Instance} {reference : String} {target : Factory} {body : Json}
      (hr : call.reference? = some reference) (ht : r.target call.factory reference = .ok target)
      (hp : r.Populated call.factory (referenceAlone reference) s reference
        ((i.get? reference).getD .null) body) :
      Answers r call params s [i] body

variable {r : Registry} {call : Call} {params : Parameters} {outcome : Outcome} {s s' : Store}

/-- Showing one instance answers a request that is not about a reference. -/
theorem answers_of_serialize (hm : r.TargetsInMemory call.factory s)
    (hn : call.factory.referenceNames.Nodup) (hr : call.reference? = none) {i : Instance}
    {wrap : Json → Outcome} (hwrap : ∀ v, (wrap v).body = v)
    (h : (wrap <$> liftFactory (r.serialize call.factory i params)) s = .ok outcome s') :
    r.Answers call params s [i] outcome.body := by
  obtain ⟨v, hv, rfl⟩ := mapped_eq_ok_iff.mp h
  obtain ⟨-, m, rfl, hshows, -⟩ := serialize_eq_ok hm (.inl hn) (liftFactory_eq_ok_iff.mp hv)
  rw [hwrap]
  exact .shown hr (.cons ⟨m, rfl, hshows⟩ .nil)

/-- Reading the reference of an instance answers a request that is about the reference. -/
theorem answers_of_readReference (hm : r.TargetsInMemory call.factory s) {reference : String}
    (hr : call.reference? = some reference) {i : Instance}
    (h : (Outcome.ok <$> r.readReference call.factory i reference) s = .ok outcome s') :
    r.Answers call params s [i] outcome.body := by
  obtain ⟨v, hv, rfl⟩ := mapped_eq_ok_iff.mp h
  obtain ⟨-, ⟨target, ht⟩, hp⟩ := readReference_eq_ok hm hv
  exact .referred hr ht hp

/-- What is answered after an instance was written. -/
theorem answers_of_answer (hw : call.operation.writes = true)
    (hm : r.TargetsInMemory call.factory s) (hn : call.factory.referenceNames.Nodup) {i : Instance}
    (h : r.answer call i params s = .ok outcome s') : r.Answers call params s [i] outcome.body := by
  obtain ⟨operation, f, req⟩ := call
  cases operation with
  | create => exact answers_of_serialize hm hn rfl (fun _ => rfl) h
  | replace | patch =>
    unfold answer at h
    cases hr : req.reference with
    | none =>
      rw [hr] at h
      exact answers_of_serialize hm hn hr (fun _ => rfl) h
    | some reference =>
      rw [hr] at h
      exact answers_of_readReference hm hr h
  | query | read | delete => cases hw

/-- A successful request that writes answers with the instance that it has written. -/
theorem gather_of_write (hw : call.operation.writes = true) (h : r.perform call s = .ok outcome s')
    (hm : r.TargetsInMemory call.factory s') (hn : call.factory.referenceNames.Nodup) :
    ∃ is params, r.gather call s = .ok (is, params) s' ∧
      r.Answers call params s' is outcome.body := by
  have hgather : r.gather call = (do
      let p ← r.plan call
      let i ← liftFactory (call.factory.saveInstance p.1 p.2)
      pure ([i], p.2)) := by
    obtain ⟨operation, f, req⟩ := call
    cases operation with
    | create | replace | patch => rfl
    | query | read | delete => cases hw
  rw [perform_writes r hw] at h
  obtain ⟨p, s₁, hplan, h⟩ := bind_eq_ok_iff.mp h
  obtain ⟨i, s₂, hsave, h⟩ := bind_eq_ok_iff.mp h
  have hs := (r.keeps_answer call i p.2).of_ok h
  rw [← hs] at h hsave
  refine ⟨[i], p.2, ?_, answers_of_answer hw hm hn h⟩
  rw [hgather]
  exact bind_eq_ok_iff.mpr ⟨p, s₁, hplan, bind_eq_ok_iff.mpr ⟨i, s', hsave, rfl⟩⟩

/-- **What a successful request answers**: it gathers instances, and shows them. -/
theorem gather_of_perform (hop : call.operation ≠ .delete) (h : r.perform call s = .ok outcome s')
    (hm : r.TargetsInMemory call.factory s') (hn : call.factory.referenceNames.Nodup) :
    ∃ is params, r.gather call s = .ok (is, params) s' ∧
      r.Answers call params s' is outcome.body := by
  obtain ⟨operation, f, req⟩ := call
  cases operation with
  | create | replace | patch => exact gather_of_write rfl h hm hn
  | delete => exact absurd rfl hop
  | query =>
    obtain ⟨filter, s₁, hfilter, h⟩ := bind_eq_ok_iff.mp h
    obtain ⟨params, s₂, hparams, h⟩ := bind_eq_ok_iff.mp h
    obtain ⟨found, s₃, hfound, h⟩ := bind_eq_ok_iff.mp h
    obtain ⟨items, s₄, hitems, h⟩ := bind_eq_ok_iff.mp h
    cases h
    obtain ⟨hs, hitems⟩ := Keeps.forall₂_of_mapM
      (fun i => (r.keeps_serialize f i params).adaptExcept _) hitems
    rw [hs] at hm ⊢
    refine ⟨found, params, ?_, .shown rfl (hitems.imp fun i item hi => ?_)⟩
    · exact bind_eq_ok_iff.mpr ⟨filter, s₁, hfilter,
        bind_eq_ok_iff.mpr ⟨params, s₂, hparams, bind_eq_ok_iff.mpr ⟨found, s₃, hfound, rfl⟩⟩⟩
    · obtain ⟨-, m, hout, hshows, -⟩ :=
        serialize_eq_ok hm (.inl hn) (liftFactory_eq_ok_iff.mp hi)
      exact ⟨m, hout, hshows⟩
  | read =>
    obtain ⟨params, s₁, hparams, h⟩ := bind_eq_ok_iff.mp h
    obtain ⟨i, s₂, hload, h⟩ := bind_eq_ok_iff.mp h
    have hs : s' = s₂ := by
      refine Keeps.of_ok ?_ h
      cases req.reference with
      | some reference => exact (r.keeps_readReference f i reference).map _
      | none => exact ((r.keeps_serialize f i params).adaptExcept _).map _
    rw [← hs] at h hload
    refine ⟨[i], params, ?_, ?_⟩
    · exact bind_eq_ok_iff.mpr ⟨params, s₁, hparams, bind_eq_ok_iff.mpr ⟨i, s', hload, rfl⟩⟩
    · cases hr : req.reference with
      | none =>
        rw [hr] at h
        exact answers_of_serialize hm hn hr (fun _ => rfl) h
      | some reference =>
        rw [hr] at h
        exact answers_of_readReference hm hr h

end Registry

end ModelRest
