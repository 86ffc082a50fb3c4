import ModelRest.Proofs.Protection
import ModelRest.Proofs.Validation

/-!
# Unique values

A schema can declare that no two records of a collection have the same value in a field. The unique
validator sees to this before an instance is written, but it looks for the instance's own values in
the collection that has the name of its model. A linked factory writes to the collection of another
model, writing simplifies references, and another validator may end the validation first: these are
the three ways in which a request repeats a value (`Registry.RepeatsValue`). The times that a record
gets when it is written are looked at by nobody: a request repeats one if the clock still shows what
it showed when another record was written (`Registry.RepeatsTime`).

The main statement is `Server.keepsUnique_iff`: along a sequence of requests the unique values stay
different exactly if none of the requests repeats one.
-/

namespace ModelRest

/-! ### Different values -/

theorem Json.same_null_iff {v : Json} : Json.same .null v = true ↔ v = .null := by
  cases v <;> simp [same]

/-- Two records have no equal values, other than null, in the field. -/
def StoredRecord.Differ (field : String) (record record' : StoredRecord) : Prop :=
  ∀ v v', KeyMap.get? record.values field = some v → KeyMap.get? record'.values field = some v' →
    v ≠ .null → Json.same v v' = false

theorem StoredRecord.Differ.symm {field : String} {record record' : StoredRecord}
    (h : Differ field record record') : Differ field record' record := by
  intro v' v hv' hv hnull
  by_contra hsame
  rw [Bool.not_eq_false, Json.same_comm] at hsame
  have hne : v ≠ .null := by
    rintro rfl
    exact hnull (Json.same_null_iff.mp hsame)
  rw [h v v' hv hv' hne] at hsame
  cases hsame

namespace Store

/-- No two records of the collection have equal values, other than null, in the field. -/
def Distinct (s : Store) (number : Nat) (collection field : String) : Prop :=
  ∀ id id' record record', id ≠ id' →
    KeyMap.get? (s.records number collection) id = some record →
    KeyMap.get? (s.records number collection) id' = some record' →
    StoredRecord.Differ field record record'

variable {s s' : Store} {number : Nat} {collection field : String}

/-- Two records have different identifiers. -/
theorem Sound.distinct_id (hs : s.Sound) : s.Distinct number collection idField := by
  intro id id' record record' hne hget hget' v v' hv hv' _
  rw [(hs _ _ _ _ hget).keyed] at hv
  rw [(hs _ _ _ _ hget').keyed] at hv'
  cases hv
  cases hv'
  simp [Json.same, hne]

/-- Values are different still where nothing is new. -/
theorem Distinct.mono (h : s.Distinct number collection field)
    (hkept : ∀ id record, KeyMap.get? (s'.records number collection) id = some record →
      KeyMap.get? (s.records number collection) id = some record) :
    s'.Distinct number collection field :=
  fun id id' record record' hne hget hget' =>
    h id id' record record' hne (hkept _ _ hget) (hkept _ _ hget')

/-- Values stay different when a record is put, in whatever collection, whose value no other record
has. -/
theorem Distinct.put (h : s.Distinct number collection field) {number' : Nat}
    {collection' id : String} {record : StoredRecord}
    (hput : Put s s' number' collection' id record)
    (hother : number' = number → collection' = collection → ∀ id' other, id ≠ id' →
      KeyMap.get? (s.records number collection) id' = some other →
        StoredRecord.Differ field record other) : s'.Distinct number collection field := by
  by_cases hplace : number' = number ∧ collection' = collection
  · obtain ⟨rfl, rfl⟩ := hplace
    have hstays : ∀ id', id ≠ id' → KeyMap.get? (s'.records number' collection') id' =
        KeyMap.get? (s.records number' collection') id' := fun id' hid =>
      hput.get?_of_ne fun hand => hid hand.2.2
    intro id₁ id₂ r₁ r₂ hne h₁ h₂
    by_cases hid₁ : id = id₁
    · subst hid₁
      rw [hput.get?_self] at h₁
      rw [hstays id₂ hne] at h₂
      cases h₁
      exact hother rfl rfl id₂ r₂ hne h₂
    · rw [hstays id₁ hid₁] at h₁
      by_cases hid₂ : id = id₂
      · subst hid₂
        rw [hput.get?_self] at h₂
        cases h₂
        exact (hother rfl rfl id₁ r₁ hid₁ h₁).symm
      · rw [hstays id₂ hid₂] at h₂
        exact h id₁ id₂ r₁ r₂ hne h₁ h₂
  · refine h.mono fun id' record' hget => ?_
    rwa [hput.get?_of_ne fun hand => hplace ⟨hand.1, hand.2.1⟩] at hget

end Store

namespace Registry

/-- Unique values are different in every collection. -/
def KeepsUnique (r : Registry) (s : Store) : Prop :=
  ∀ f ∈ r.made, ∀ number collection, f.actions? = some (.memory number collection) →
    ∀ field, f.schema.declaresUnique field = true → s.Distinct number collection field

/-- The request saves an instance, to a collection. -/
structure Saves (r : Registry) (call : Call) (s : Store) (number : Nat) (collection : String)
    (i : Instance) : Prop where
  /-- The model is stored in the collection. -/
  bound : call.factory.actions? = some (.memory number collection)
  /-- The request writes. -/
  writes : call.operation.writes = true
  /-- The instance is what it writes, and it is saved. -/
  saved : ∃ params i' s', r.plan call s = .ok (i, params) s ∧
    call.factory.saveInstance i params s = .ok i' s'

/-- A request repeats a unique value: it saves an instance with the value that another record has at
a place, and the validation does not notice. -/
structure RepeatsValue (r : Registry) (call : Call) (s : Store) (i : Instance) (p : Place) :
    Prop where
  /-- The instance is saved to the collection of the place. -/
  saves : r.Saves call s p.number p.collection i
  /-- The record of the place is another one. -/
  other : i.id? ≠ some p.id
  /-- The value is the client's. -/
  ordinary : IsOrdinary p.field
  /-- It is declared unique. -/
  unique : call.factory.schema.declaresUnique p.field = true
  /-- It is written, and it is at the place. -/
  same : ∃ v w, written? call i p.field = some v ∧ s.value? p = some w ∧ v ≠ .null ∧
    Json.same w v = true
  /-- The model stands for another one, so that the validator looks at the wrong collection; or the
  value is changed after it was looked at; or the validation ended before. -/
  unnoticed : call.factory.isLinked = true ∨ written? call i p.field ≠ i.get? p.field ∨
    call.factory.Stops s i

/-- A request repeats a unique time: it saves an instance when the clock shows what another record
has at a place, in a field where the saved record gets the time. -/
structure RepeatsTime (r : Registry) (call : Call) (s : Store) (i : Instance) (p : Place) :
    Prop where
  /-- The instance is saved to the collection of the place. -/
  saves : r.Saves call s p.number p.collection i
  /-- The record of the place is another one. -/
  other : i.id? ≠ some p.id
  /-- The field is the time of the last change, or that of the creation of a new record. -/
  written : p.field = updatedAtField ∨ p.field = createdAtField ∧
    ∀ id, i.id? = some id → KeyMap.get? (s.records p.number p.collection) id = none
  /-- It is declared unique. -/
  unique : call.factory.schema.declaresUnique p.field = true
  /-- It has the time. -/
  same : s.value? p = some s.nextStamp

/-- A request repeats what has to be unique, a value or a time. -/
def Clashes (r : Registry) (call : Call) (s : Store) (i : Instance) (p : Place) : Prop :=
  r.RepeatsValue call s i p ∨ r.RepeatsTime call s i p

variable {r : Registry} {call : Call} {s : Store} {i : Instance} {number : Nat} {collection : String}

/-- What is planned for a stored model is an instance of the model. -/
theorem model_of_plan (hb : call.factory.actions? = some (.memory number collection))
    {params : Parameters} {s' : Store} (h : r.plan call s = .ok (i, params) s') :
    i.model = call.factory.name := by
  cases plans_of_plan h with
  | create _ h =>
    obtain ⟨-, body, -, -, rfl⟩ := planCreate_eq_ok_iff.mp h
    rfl
  | reference _ _ h =>
    obtain ⟨-, target, id, record, value, -, -, -, -, -, rfl⟩ := (planReference_eq_ok_iff hb).mp h
    rfl
  | record _ _ h =>
    obtain ⟨-, body, id, record, -, -, -, -, rfl⟩ := (planRecord_eq_ok_iff hb).mp h
    rfl

/-- A request that saves an instance has written it, and the validators have accepted it. -/
theorem Saves.written (h : r.Saves call s number collection i) (hf : call.factory.HookFree)
    (hn : number < s.databases.length) : call.factory.accepts s i = true ∧ ∃ stored,
      Store.Written s (r.after s call) number collection i.id?
        (call.factory.simplifyValues i.values) stored := by
  obtain ⟨params, i', s', hplan, hsave⟩ := h.saved
  obtain ⟨hacc, hw⟩ := Factory.saveInstance_ok hf h.bound hn hsave
  have hafter : r.after s call = s' := by
    unfold after
    rw [perform_writes r h.writes, bind_apply, hplan]
    dsimp only
    rw [bind_apply, liftFactory_eq_ok_iff.mpr hsave]
    exact r.keeps_answer call i' params s'
  rw [hafter]
  exact ⟨hacc, i'.values, hw⟩

/-- After a request that saves nothing, every record was there before. -/
theorem kept_or_saves (hf : call.factory.HookFree) (hm : call.factory.InMemory s.databases.length) :
    (∀ number collection id record,
      KeyMap.get? ((r.after s call).records number collection) id = some record →
        KeyMap.get? (s.records number collection) id = some record) ∨
      ∃ number collection i, r.Saves call s number collection i := by
  cases hw : call.operation.writes with
  | false =>
    have heffect : r.Effect call s (r.after s call) := r.effect_perform hm
    generalize r.after s call = s' at heffect ⊢
    cases heffect with
    | nothing => exact .inl fun _ _ _ _ h => h
    | deleted _ hb => exact .inl fun _ _ _ _ h => Store.get?_of_afterDelete (hm.lt hb) h
    | saved _ hwrites =>
      rw [hw] at hwrites
      cases hwrites
  | true =>
    have hsame : r.after s call = s → ∀ number collection id record,
        KeyMap.get? ((r.after s call).records number collection) id = some record →
          KeyMap.get? (s.records number collection) id = some record := by
      intro he _ _ _ _ h
      rwa [he] at h
    cases hb : call.factory.actions? with
    | none => exact .inl (hsame (stateLeft_perform_of_unbound hw hb))
    | some actions =>
      obtain ⟨number, collection, rfl, hn⟩ := hm actions hb
      rcases r.perform_writes_cases hw hf hb hn with
        ⟨e, -, he⟩ | ⟨_, _, e, -, -, he⟩ | ⟨i, params, i', s', hplan, hsave, -⟩
      · exact .inl (hsame (congrArg stateLeft he))
      · exact .inl (hsame (congrArg stateLeft he))
      · exact .inr ⟨number, collection, i, hb, hw, params, i', s', hplan, hsave⟩

/-- What is known of the factory of a request. -/
structure Ready (r : Registry) (call : Call) (s : Store) : Prop where
  /-- No hook runs. -/
  hooks : call.factory.HookFree
  /-- The model is stored in memory, or not at all. -/
  memory : call.factory.InMemory s.databases.length
  /-- The fields and validators are those of the schema. -/
  fitted : ∃ everywhere, call.factory.Fitted everywhere
  /-- The class has no unique validator of its own. -/
  plain : KeyMap.get? call.factory.cls.validators "unique" = none
  /-- A model that is not linked is stored by its own connector, in the collection of its name. -/
  own : call.factory.isLinked = false → ∀ number collection,
    call.factory.actions? = some (.memory number collection) →
      call.factory.name = collection ∧
        ∃ datasource, call.factory.connector = some (.memory datasource number)

theorem value?_eq_some_iff {p : Place} {v : Json} : s.value? p = some v ↔
    ∃ record, KeyMap.get? (s.records p.number p.collection) p.id = some record ∧
      KeyMap.get? record.values p.field = some v :=
  Option.bind_eq_some_iff

/-- A unique value is repeated in one of the three ways only. -/
theorem Saves.repeatsValue (h : r.Saves call s number collection i) (hr : r.Ready call s)
    {id field : String} {other : StoredRecord} {v w : Json} (hother : i.id? ≠ some id)
    (hfield : IsOrdinary field) (hu : call.factory.schema.declaresUnique field = true)
    (hwritten : written? call i field = some v)
    (hget : KeyMap.get? (s.records number collection) id = some other)
    (hw : KeyMap.get? other.values field = some w) (hne : v ≠ .null)
    (hsame : Json.same w v = true) :
    r.RepeatsValue call s i
      { number := number, collection := collection, id := id, field := field } := by
  refine ⟨h, hother, hfield, hu, ⟨v, w, hwritten, value?_eq_some_iff.mpr ⟨other, hget, hw⟩, hne,
    hsame⟩, ?_⟩
  -- otherwise the unique validator has looked for the value, and has found it
  by_contra hno
  rw [not_or, not_or, not_not, Bool.not_eq_true] at hno
  obtain ⟨hlinked, hvalue, hstops⟩ := hno
  obtain ⟨hname, datasource, hc⟩ := hr.own hlinked _ _ h.bound
  obtain ⟨everywhere, hfitted⟩ := hr.fitted
  obtain ⟨place, declared, hplace, rfl, hattached⟩ := hfitted.mem_attached_unique hu hr.plain hc
  obtain ⟨params, -, -, hplan, -⟩ := h.saved
  have htaken := Factory.not_taken_of_accepts hstops
    (h.written hr.hooks (hr.memory.lt h.bound)).1 hplace hattached (hvalue.symm.trans hwritten) hne
  rw [model_of_plan h.bound hplan, hname] at htaken
  refine absurd (List.any_eq_true.mpr ⟨_, KeyMap.mem_of_get? hget, ?_⟩) (ne_true_of_eq_false htaken)
  rw [Bool.and_eq_true]
  refine ⟨by simpa using hother, ?_⟩
  rw [hw]
  exact hsame

/-- Where an instance is saved with the value of another record in a unique field, the value is there
twice. -/
theorem Saves.not_keepsUnique {p : Place} (h : r.Saves call s p.number p.collection i)
    (hr : r.Ready call s) (hs : s.Sound) (hf : call.factory ∈ r.made) (hother : i.id? ≠ some p.id)
    (hu : call.factory.schema.declaresUnique p.field = true) {v w : Json}
    (hwritten : ∀ id record, s.Makes p.number p.collection i.id?
      (call.factory.simplifyValues i.values) id record →
        KeyMap.get? record.values p.field = some v)
    (hvalue : s.value? p = some w) (hne : v ≠ .null) (hsame : Json.same w v = true) :
    ¬r.KeepsUnique (r.after s call) := by
  intro hk
  obtain ⟨other, hget, hw⟩ := value?_eq_some_iff.mp hvalue
  obtain ⟨-, stored, hput⟩ := h.written hr.hooks (hr.memory.lt h.bound)
  obtain ⟨id, record, -, hput, hmakes⟩ := hput.exists_makes hs
  have hdiffer : p.id ≠ id := fun he => hother ((hmakes.own p.id other hget).mpr he.symm)
  have hnull : w ≠ .null := by
    rintro rfl
    exact hne (Json.same_null_iff.mp hsame)
  have hdistinct := hk _ hf _ _ h.bound _ hu p.id id other record hdiffer
    ((hput.get?_of_ne fun hand => hdiffer hand.2.2.symm).trans hget) hput.get?_self w v hw
    (hwritten _ _ hmakes) hnull
  rw [hdistinct] at hsame
  cases hsame

/-- A request that repeats a unique value or time leaves it twice. -/
theorem Clashes.not_keepsUnique {p : Place} (h : r.Clashes call s i p) (hr : r.Ready call s)
    (hs : s.Sound) (hf : call.factory ∈ r.made) : ¬r.KeepsUnique (r.after s call) := by
  rcases h with h | h
  · obtain ⟨v, w, hwritten, hvalue, hne, hsame⟩ := h.same
    exact h.saves.not_keepsUnique hr hs hf h.other h.unique
      (fun _ _ hmakes => (hmakes.ordinary _ h.ordinary).trans hwritten) hvalue hne hsame
  · have hne : s.nextStamp ≠ .null := by simp [Store.nextStamp]
    have hsame : Json.same s.nextStamp s.nextStamp = true := by simp [Store.nextStamp, Json.same]
    refine h.saves.not_keepsUnique hr hs hf h.other h.unique (fun id record hmakes => ?_) h.same
      hne hsame
    rcases h.written with hfield | ⟨hfield, hnew⟩
    · rw [hfield, hmakes.updated]
    · rw [hfield]
      refine hmakes.created.elim ?_ fun hcreated => hcreated.2
      rintro ⟨old, hid, hold, -⟩
      rw [hnew id hid] at hold
      cases hold

/-- A time that is repeated is the time of another record that the clock still shows. -/
theorem Saves.repeatsTime (h : r.Saves call s number collection i) {id field : String}
    {other : StoredRecord} (hother : i.id? ≠ some id)
    (hwritten : field = updatedAtField ∨ field = createdAtField ∧
      ∀ id, i.id? = some id → KeyMap.get? (s.records number collection) id = none)
    (hu : call.factory.schema.declaresUnique field = true)
    (hget : KeyMap.get? (s.records number collection) id = some other) {w : Json}
    (hw : KeyMap.get? other.values field = some w) (hsame : Json.same s.nextStamp w = true) :
    r.RepeatsTime call s i
      { number := number, collection := collection, id := id, field := field } := by
  refine ⟨h, hother, hwritten, hu, value?_eq_some_iff.mpr ⟨other, hget, ?_⟩⟩
  cases w with
  | string text =>
    rw [hw, Store.nextStamp, (by simpa [Store.nextStamp, Json.same] using hsame :
      s.supply.time s.stamps = text)]
  | _ => cases hsame

/-- Where the saved record has the value of another one in a unique field, the request repeats it, or
the record has kept its time of creation. -/
theorem Saves.clashes_or_kept (h : r.Saves call s number collection i) (hr : r.Ready call s)
    {id id' field : String} {record other : StoredRecord} {v w : Json}
    (hmakes : s.Makes number collection i.id? (call.factory.simplifyValues i.values) id record)
    (hother : i.id? ≠ some id') (hid : field ≠ idField)
    (hu : call.factory.schema.declaresUnique field = true)
    (hget : KeyMap.get? (s.records number collection) id' = some other)
    (hv : KeyMap.get? record.values field = some v) (hw : KeyMap.get? other.values field = some w)
    (hne : v ≠ .null) (hsame : Json.same v w = true) :
    (∃ p, r.Clashes call s i p) ∨ ∃ old,
      KeyMap.get? (s.records number collection) id = some old ∧
        KeyMap.get? old.values field = some v := by
  by_cases hupdated : field = updatedAtField
  · subst hupdated
    cases hmakes.updated.symm.trans hv
    exact .inl ⟨_, .inr (h.repeatsTime hother (.inl rfl) hu hget hw hsame)⟩
  by_cases hcreated : field = createdAtField
  · subst hcreated
    rcases hmakes.created with ⟨old, -, hold, hkept⟩ | ⟨hnew, hstamp⟩
    · exact .inr ⟨old, hold, hkept.symm.trans hv⟩
    · cases hstamp.symm.trans hv
      exact .inl ⟨_, .inr (h.repeatsTime hother (.inr ⟨rfl, hnew⟩) hu hget hw hsame)⟩
  · have hfield : IsOrdinary field := ⟨hid, hcreated, hupdated⟩
    have hwritten := (hmakes.ordinary field hfield).symm.trans hv
    rw [Json.same_comm] at hsame
    exact .inl ⟨_, .inl (h.repeatsValue hr hother hfield hu hwritten hget hw hne hsame)⟩

/-- A request that repeats no unique value and no unique time keeps them different. -/
theorem KeepsUnique.after (hk : r.KeepsUnique s) (hd : r.Deployed s) (hr : r.Ready call s)
    (hs : s.Sound) (hs' : (r.after s call).Sound) (hf : call.factory ∈ r.made)
    (hclash : ¬∃ i p, r.Clashes call s i p) : r.KeepsUnique (r.after s call) := by
  intro g hg number collection hb field hu
  have hdistinct := hk g hg number collection hb field hu
  rcases kept_or_saves (r := r) hr.hooks hr.memory with hkept | ⟨number', collection', i, hsaves⟩
  · exact hdistinct.mono fun id record => hkept _ _ id record
  by_cases hidentifier : field = idField
  · rw [hidentifier]
    exact hs'.distinct_id
  obtain ⟨-, stored, hw⟩ := hsaves.written hr.hooks (hr.memory.lt hsaves.bound)
  obtain ⟨id, record, -, hput, hmakes⟩ := hw.exists_makes hs
  refine hdistinct.put hput ?_
  rintro rfl rfl id' other hne hget v w hv hw hnull
  rw [hd.shared g hg _ hf _ hb hsaves.bound] at hu
  have hother : i.id? ≠ some id' := fun he => hne ((hmakes.own id' other hget).mp he)
  by_contra hsame
  rw [Bool.not_eq_false] at hsame
  rcases hsaves.clashes_or_kept hr hmakes hother hidentifier hu hget hv hw hnull hsame with
    ⟨p, hrepeats⟩ | ⟨old, hold, hkept⟩
  · exact hclash ⟨i, p, hrepeats⟩
  · rw [hdistinct id id' old other hne hold hget v w hkept hw hnull] at hsame
    cases hsame

end Registry

/-! ### Sequences of requests -/

namespace Server

variable {server : Server} {s : Store} {call : Call}

/-- The classes of the models have no unique validators of their own. -/
def Plain (server : Server) : Prop :=
  ∀ f ∈ server.registry.made, KeyMap.get? f.cls.validators "unique" = none

theorem Assembled.ready (h : server.Assembled) (hooks : server.HookFree) (hplain : server.Plain)
    (hs : server.Reaches s) (hf : call.factory ∈ server.registry.made) :
    server.registry.Ready call s where
  hooks := hooks _ hf
  memory := (hs.deployed h).memory _ hf
  fitted := ⟨_, h.fitted _ hf⟩
  plain := hplain _ hf
  own hl _ _ hb := h.bound_own hf hl hb

/-- **A request keeps the unique values different** exactly if it repeats no value and no time. -/
theorem keepsUnique_after_iff (h : server.Assembled) (hooks : server.HookFree)
    (hplain : server.Plain) (hs : server.Reaches s) (hf : call.factory ∈ server.registry.made)
    (hk : server.registry.KeepsUnique s) :
    server.registry.KeepsUnique (server.registry.after s call) ↔
      ¬∃ i p, server.registry.Clashes call s i p := by
  have hready := h.ready hooks hplain hs hf
  have hafter := hs.after hf
  constructor
  · rintro hkeeps ⟨i, p, hclash⟩
    exact hclash.not_keepsUnique hready (hs.sound h).2 hf hkeeps
  · exact hk.after (hs.deployed h) hready (hs.sound h).2 (hafter.sound h).2 hf

/-- **Unique values stay different** along a sequence of requests exactly if none of the requests
repeats one, or a time that has to be unique. -/
theorem keepsUnique_iff (h : server.Assembled) (hooks : server.HookFree) (hplain : server.Plain)
    {calls : List Call} (hcalls : ∀ call ∈ calls, call.factory ∈ server.registry.made) :
    (∀ before, before <+: calls →
        server.registry.KeepsUnique (before.foldl server.registry.after server.store)) ↔
      ∀ before call, before ++ [call] <+: calls → ∀ i p,
        ¬server.registry.Clashes call (before.foldl server.registry.after server.store) i p := by
  have hfirst : server.registry.KeepsUnique server.store := by
    intro f _ number collection _ field _ id id' record record' _ hget
    rw [h.empty] at hget
    cases hget
  have hiff := (Reaches.refl server).forall_prefix_iff
    (fun _ _ hs hf hk => keepsUnique_after_iff h hooks hplain hs hf hk) hfirst hcalls
  simpa only [not_exists] using hiff

end Server

namespace Catalogue

/-- No two books have the same title; a volume stands for a book. -/
def classes : List ClassDecl :=
  [{ ClassDecl.model "Book" with members := [Lending.property "title" "string" ["unique"]] },
    { ClassDecl.named "Volume" with
      decorators :=
        [{ name := "model", args := [.ofMembers [("linkedFactory", .string "Book")]] }] }]

/-- The server with its models set up. -/
def server : Server := stateLeft (Server.assemble (.storing "catalogue" classes))

theorem assembled : server.Assembled := Server.assembled_storing (by decide +kernel)

theorem hookFree : server.HookFree := Server.hookFree_of_isNone (by decide +kernel)

theorem plain : server.Plain := by
  have h : ∀ f ∈ server.registry.made, (KeyMap.get? f.cls.validators "unique").isNone = true := by
    decide +kernel
  exact fun f hf => Option.isNone_iff_eq_none.mp (h f hf)

/-- A book of a title, and a volume of the same title. -/
def calls : List Call :=
  [{ operation := .create, factory := server.factory "Book",
     request := { body := .object [("_id", .string "b1"), ("title", .string "Emma")] } },
    { operation := .create, factory := server.factory "Volume",
      request := { body := .object [("_id", .string "b2"), ("title", .string "Emma")] } }]

theorem calls_mem : ∀ call ∈ calls, call.factory ∈ server.registry.made := by
  have hbook : server.factory "Book" ∈ server.registry.made := Server.factory_mem (by decide +kernel)
  have hvolume : server.factory "Volume" ∈ server.registry.made :=
    Server.factory_mem (by decide +kernel)
  intro call hcall
  rcases List.mem_cons.mp hcall with rfl | hcall
  · exact hbook
  · rw [List.mem_singleton.mp hcall]
    exact hvolume

/-- There are two books of one title then. -/
theorem title_repeated :
    ¬server.registry.KeepsUnique (calls.foldl server.registry.after server.store) := by
  intro hk
  have hbook : ((KeyMap.get? ((calls.foldl server.registry.after server.store).records 0 "Book")
      "b1").bind fun record => KeyMap.get? record.values "title") = some (.string "Emma") := by
    decide +kernel
  have hvolume : ((KeyMap.get? ((calls.foldl server.registry.after server.store).records 0 "Book")
      "b2").bind fun record => KeyMap.get? record.values "title") = some (.string "Emma") := by
    decide +kernel
  obtain ⟨record, hget, hv⟩ := Option.bind_eq_some_iff.mp hbook
  obtain ⟨record', hget', hv'⟩ := Option.bind_eq_some_iff.mp hvolume
  have hdistinct := hk _ (Server.factory_mem (by decide +kernel)) 0 "Book"
    (Lending.eq_of_collection? (by decide +kernel : Lending.collection?
      (server.factory "Book").actions? = some (0, "Book"))) "title" (by decide +kernel)
    "b1" "b2" record record' (by decide) hget hget' _ _ hv hv' nofun
  simp [Json.same] at hdistinct

/-- One of the requests repeats the title. -/
theorem volume_clashes : ∃ before call i p, before ++ [call] <+: calls ∧
    server.registry.Clashes call (before.foldl server.registry.after server.store) i p := by
  by_contra hno
  refine title_repeated ((Server.keepsUnique_iff assembled hookFree plain calls_mem).mpr ?_ calls
    (List.prefix_refl calls))
  exact fun before call hpre i p hclash => hno ⟨before, call, i, p, hpre, hclash⟩

/-- The title is declared unique, and yet repeated. -/
theorem volume_not_unique : server.Assembled ∧ server.connectors.length = 1 ∧ server.HookFree ∧
    server.Plain ∧ (∀ call ∈ calls, call.factory ∈ server.registry.made) ∧
      ¬server.registry.KeepsUnique (calls.foldl server.registry.after server.store) :=
  ⟨assembled, by decide +kernel, hookFree, plain, calls_mem, title_repeated⟩

end Catalogue

end ModelRest
