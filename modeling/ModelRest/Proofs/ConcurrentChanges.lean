import ModelRest.Proofs.Revision
import ModelRest.Proofs.Steps

/-!
# Two changes of one record

Two requests that each patch a record, taking turns, both succeed. If the bodies name different
fields, then one would have the record bear what both give. But a request writes the whole record as
it has loaded it, with its body merged in. So when both have loaded the record before either is
written, the one written last puts the old values in the place of what the other has given.

`Server.bears_both_iff` says exactly when the record bears both bodies in the end: if no value is
lost (`Registry.Loses`), by being overwritten in this way or, where the requests follow each other,
by being a reference that saving simplifies once more.
-/

namespace ModelRest

/-! ### Amended values -/

namespace ModelSchema

/-- Every open field that the body names has the value that it gives. -/
def Bears (schema : ModelSchema) (body values : Object) : Prop :=
  ∀ name v, schema.Opens name → KeyMap.get? body name = some v →
    KeyMap.get? values name = some (schema.settled name (schema.taken name v))

/-- In the open fields, the values are what saving makes of the earlier values amended by the body. -/
def Amends (schema : ModelSchema) (body old new : Object) : Prop :=
  ∀ name, schema.Opens name → KeyMap.get? new name =
    match KeyMap.get? body name with
    | some v => some (schema.settled name (schema.taken name v))
    | none => (KeyMap.get? old name).map (schema.settled name)

variable {schema : ModelSchema} {body other old new : Object}

theorem Amends.bears (h : schema.Amends body old new) : schema.Bears body new := by
  intro name v hname hv
  rw [h name hname, hv]

/-- The bodies name different open fields. -/
def Disjoint (schema : ModelSchema) (body other : Object) : Prop :=
  ∀ name, schema.Opens name → KeyMap.contains body name = true → KeyMap.contains other name = false

theorem Disjoint.symm (h : schema.Disjoint body other) : schema.Disjoint other body := by
  intro name hname hother
  by_contra hbody
  rw [h name hname (by simpa using hbody)] at hother
  cases hother

/-- Where another body has amended the values, it depends on the earlier values whether a body is borne. -/
theorem Amends.bears_other_iff (h : schema.Amends other old new)
    (hd : schema.Disjoint body other) : schema.Bears body new ↔
      ∀ name v, schema.Opens name → KeyMap.get? body name = some v →
        (KeyMap.get? old name).map (schema.settled name) =
          some (schema.settled name (schema.taken name v)) := by
  unfold Bears
  refine forall_congr' fun name => forall_congr' fun v => forall_congr' fun hname =>
    forall_congr' fun hv => ?_
  have hother := hd name hname (by rw [KeyMap.contains, hv]; rfl)
  rw [KeyMap.contains, Option.isSome_eq_false_iff, Option.isNone_iff_eq_none] at hother
  rw [h name hname, hother]

end ModelSchema

/-! ### One of the requests -/

/-- The request has this instance, and has not written it yet. -/
inductive Progress.Has (i : Instance) : Progress → Prop where
  | planned (params : Parameters) : Has i (.planned i params)
  | ready (params : Parameters) : Has i (.ready i params)

/-- The request has an instance of these values with its body merged in. -/
structure Factory.Drafts (f : Factory) (body : Object) (id : String) (values : Object)
    (progress : Progress) (i : Instance) : Prop where
  /-- It has not written it yet. -/
  has : progress.Has i
  /-- It has the identifier. -/
  named : i.id? = some id
  /-- It has the values with the body assigned to them. -/
  assigned : ∃ params : Parameters, params.deleteMissing = false ∧
    i.values = f.assignAll params body values

theorem Progress.Has.isWriting {progress : Progress} {i : Instance} (h : progress.Has i) :
    progress.isWriting = true := by
  cases h <;> rfl

/-- The values of the record of an identifier. -/
def Store.valuesOf (s : Store) (number : Nat) (collection id : String) : Option Object :=
  (KeyMap.get? (s.records number collection) id).map StoredRecord.values

namespace Registry

variable {r : Registry} {call : Call} {s : Store} {number : Nat} {collection id : String}
  {body values base : Object} {progress : Progress}

/-- What the first step of a patch comes to. -/
theorem advance_asked_of_patch (hb : call.factory.actions? = some (.memory number collection))
    (hs : s.Sound) (hop : call.operation = .patch) (href : call.request.reference = none)
    (hid : call.request.id = some id) (hbody : call.request.body = .object body)
    (hvalues : s.valuesOf number collection id = some values)
    (hok : (r.advance call .asked s).1.hasFailed = false) :
    (r.advance call .asked s).2 = s ∧
      ∃ i, call.factory.Drafts body id values (r.advance call .asked s).1 i := by
  refine ⟨r.firstStep_snd call s, ?_⟩
  have hplan := plan_of_change (r := r) (.inr hop) href
  rw [advance, firstStep, show call.operation.writes = true by rw [hop]; rfl, if_pos rfl] at hok ⊢
  cases hrun : r.plan call s with
  | error e s' =>
    rw [hrun] at hok
    cases hok
  | ok p s' =>
    obtain ⟨i, params⟩ := p
    rw [hplan, hop] at hrun
    obtain ⟨-, body', id', old, hbody', -, hid', hold, rfl⟩ := (planRecord_eq_ok_iff hb).mp hrun
    cases hbody.symm.trans hbody'
    cases hid.symm.trans hid'
    unfold Store.valuesOf at hvalues
    rw [hold] at hvalues
    cases hvalues
    exact ⟨_, .planned params, Factory.idOf?_assignAll (hs _ _ _ _ hold).idOf?_eq, _, rfl, rfl⟩

/-- What a step does with an instance that has a body merged in: it is still to be written, or the
record is what saving makes of it. -/
theorem advance_of_drafts {start : Store} (hd : r.Deployed start) (hf : call.factory ∈ r.made)
    (hfit : call.factory.Fitted r.sharedValidators) (hooks : call.factory.HookFree)
    (hb : call.factory.actions? = some (.memory number collection))
    (hn : number < s.databases.length) (hs : s.Sound)
    (hvalues : s.valuesOf number collection id = some values) {i : Instance}
    (h : call.factory.Drafts body id base progress i)
    (hok : (r.advance call progress s).1.hasFailed = false) :
    ((r.advance call progress s).2 = s ∧
        ∃ i, call.factory.Drafts body id base (r.advance call progress s).1 i) ∨
      ((r.advance call progress s).1.isPast = true ∧ ∃ new,
        (r.advance call progress s).2.valuesOf number collection id = some new ∧
          call.factory.schema.Amends body base new) := by
  obtain ⟨hhas, hid, params, hparams, hassigned⟩ := h
  cases hhas with
  | planned =>
    rw [advance_planned hooks] at hok ⊢
    cases ha : call.factory.accepts s i with
    | true => exact .inl ⟨rfl, _, .ready _, hid, params, hparams, hassigned⟩
    | false =>
      rw [ha] at hok
      cases hok
  | ready =>
    obtain ⟨old, hold, hvalues⟩ := Option.map_eq_some_iff.mp hvalues
    rw [advance_ready_of_stored hooks hb hid hold]
    refine .inr ⟨rfl, updatedValues old.values (call.factory.simplifyValues i.values) id true
      s.nextStamp, ?_, fun name hname => ?_⟩
    · unfold Store.valuesOf
      rw [(Store.put_afterUpdate hn _).get?_self]
      rfl
    · obtain ⟨created, hcreated⟩ := (hs _ _ _ _ hold).created
      obtain ⟨hnid, hncreated, hnupdated⟩ := hname.ordinary
      rw [Store.get?_updatedValues hcreated, if_neg (Ne.symm hnupdated), if_neg (Ne.symm hncreated),
        if_neg (Ne.symm hnid), Factory.get?_simplifyValues, hassigned,
        hd.get?_assignAll_of_opens hf hfit hname, hparams]
      cases KeyMap.get? body name <;> rfl

end Registry

/-! ### The two requests -/

/-- Two requests to a model that each patch the record of an identifier, each with its body. -/
structure Edits (f : Factory) (id : String) (calls : Party → Call) (bodies : Party → Object) :
    Prop where
  /-- Both are to the model. -/
  factory : ∀ party, (calls party).factory = f
  /-- Both patch. -/
  patches : ∀ party, (calls party).operation = .patch
  /-- Both name the identifier. -/
  named : ∀ party, (calls party).request.id = some id
  /-- Both are about the whole record. -/
  whole : ∀ party, (calls party).request.reference = none
  /-- The bodies. -/
  body : ∀ party, (calls party).request.body = .object (bodies party)

namespace Race

/-- Both requests have an instance that they have not written yet. -/
def Overlapping (race : Race Party) : Prop := ∀ party, (race.progress party).isWriting = true

/-- One request has written its instance, and the other one has not. -/
def Ahead (party : Party) (race : Race Party) : Prop :=
  (race.progress party).isPast = true ∧ (race.progress party.other).isPast = false

variable {race : Race Party} {party : Party}

theorem not_overlapping_of_isPast (h : (race.progress party).isPast = true) :
    ¬race.Overlapping := by
  intro ho
  have hwriting := ho party
  generalize race.progress party = progress at h hwriting
  cases progress with
  | saved | answered => cases hwriting
  | asked | planned | ready | missed | loaded => cases h

theorem not_ahead_other_of_isPast (h : (race.progress party).isPast = true) :
    ¬race.Ahead party.other := by
  rintro ⟨-, hbehind⟩
  rw [party.other_other, h] at hbehind
  cases hbehind

end Race

/-- The values that the second instance to be written was made from: the first ones, if the requests
overlap, and otherwise those that were written first. -/
def BaseValues (overlaps : Prop) (old new base : Object) : Prop :=
  overlaps ∧ base = old ∨ ¬overlaps ∧ base = new

/-- The request has not begun, or has an instance of these values with its body merged in. -/
def Factory.Awaits (f : Factory) (body : Object) (id : String) (values : Object)
    (progress : Progress) : Prop :=
  progress = .asked ∨ ∃ i, f.Drafts body id values progress i

theorem Factory.Awaits.isPast_eq_false {f : Factory} {body values : Object} {id : String}
    {progress : Progress} (h : f.Awaits body id values progress) : progress.isPast = false := by
  rcases h with rfl | ⟨i, ⟨hhas, -⟩⟩
  · rfl
  · cases hhas <;> rfl

/-- How the requests and the record can be, by whether the requests have overlapped and which of them
was ahead. -/
inductive Editing (f : Factory) (number : Nat) (collection id : String) (bodies : Party → Object)
    (old : Object) (race : Race Party) (overlaps : Prop) (ahead : Party → Prop) : Prop where
  /-- Nothing is written yet. -/
  | unwritten (hvalues : race.store.valuesOf number collection id = some old)
      (hparties : ∀ party, f.Awaits (bodies party) id old (race.progress party))
      (hoverlaps : overlaps ↔ race.Overlapping) (hahead : ∀ party, ¬ahead party)
  /-- One request has written its instance. -/
  | once {party : Party} {new : Object}
      (hvalues : race.store.valuesOf number collection id = some new)
      (hamends : f.schema.Amends (bodies party) old new)
      (hpast : (race.progress party).isPast = true)
      (hother : race.progress party.other = .asked ∧ ¬overlaps ∨
        ∃ base i, BaseValues overlaps old new base ∧
          f.Drafts (bodies party.other) id base (race.progress party.other) i)
      (hahead : ahead party) (hbehind : ¬ahead party.other)
  /-- Both have. -/
  | twice {party : Party} {new base last : Object}
      (hvalues : race.store.valuesOf number collection id = some last)
      (hamends : f.schema.Amends (bodies party) old new) (hbase : BaseValues overlaps old new base)
      (hamends' : f.schema.Amends (bodies party.other) base last)
      (hpast : ∀ party, (race.progress party).isPast = true)
      (hahead : ahead party) (hbehind : ¬ahead party.other)

namespace Registry

variable {r : Registry} {f : Factory} {s start : Store} {number : Nat} {collection id : String}
  {calls : Party → Call} {bodies : Party → Object} {old : Object} {race : Race Party}
  {overlaps : Prop} {ahead : Party → Prop}

/-- What is known of two requests that patch a record, of their model, and of the requests and the
store at some time. -/
structure Edited (r : Registry) (f : Factory) (number : Nat) (collection id : String)
    (calls : Party → Call) (bodies : Party → Object) (race : Race Party) : Prop where
  /-- Each request patches the record. -/
  edits : Edits f id calls bodies
  /-- The models are set up. -/
  deployed : ∃ start, r.Deployed start
  /-- The model is one of them. -/
  made : f ∈ r.made
  /-- It was given what follows from its schema. -/
  fitted : f.Fitted r.sharedValidators
  /-- It has no hooks. -/
  hooks : f.HookFree
  /-- It is stored in memory. -/
  bound : f.actions? = some (.memory number collection)
  /-- The database is there. -/
  size : number < race.store.databases.length
  /-- All records are in order. -/
  sound : race.store.Sound

theorem turn_asked (h : r.Edited f number collection id calls bodies race) {party : Party}
    (hasked : race.progress party = .asked) {values : Object}
    (hvalues : race.store.valuesOf number collection id = some values)
    (hok : ((r.turn calls race party).progress party).hasFailed = false) :
    (r.turn calls race party).store = race.store ∧
      ∃ i, f.Drafts (bodies party) id values ((r.turn calls race party).progress party) i := by
  have hfactory := h.edits.factory party
  rw [turn_store, turn_progress_self, hasked] at *
  subst hfactory
  exact advance_asked_of_patch h.bound h.sound (h.edits.patches party) (h.edits.whole party)
    (h.edits.named party) (h.edits.body party) hvalues hok

theorem turn_drafts (h : r.Edited f number collection id calls bodies race) {party : Party}
    {base values : Object} {i : Instance}
    (hdrafts : f.Drafts (bodies party) id base (race.progress party) i)
    (hvalues : race.store.valuesOf number collection id = some values)
    (hok : ((r.turn calls race party).progress party).hasFailed = false) :
    ((r.turn calls race party).store = race.store ∧
        ∃ i, f.Drafts (bodies party) id base ((r.turn calls race party).progress party) i) ∨
      (((r.turn calls race party).progress party).isPast = true ∧ ∃ new,
        (r.turn calls race party).store.valuesOf number collection id = some new ∧
          f.schema.Amends (bodies party) base new) := by
  have hfactory := h.edits.factory party
  obtain ⟨start, hd⟩ := h.deployed
  rw [turn_store, turn_progress_self] at *
  subst hfactory
  exact advance_of_drafts hd h.made h.fitted h.hooks h.bound h.size h.sound hvalues hdrafts hok

theorem turn_past (r : Registry) (calls : Party → Call) {party : Party}
    (hpast : (race.progress party).isPast = true) :
    (r.turn calls race party).store = race.store ∧
      ((r.turn calls race party).progress party).isPast = true := by
  rw [turn_store, turn_progress_self]
  exact r.advance_of_isPast (calls party) hpast

/-! ### Turns -/

/-- While nothing is written, a request that begins or goes on overlaps with the other one if it did
before. -/
theorem editing_of_awaits (hvalues : race.store.valuesOf number collection id = some old)
    (hparties : ∀ party, f.Awaits (bodies party) id old (race.progress party))
    (hoverlaps : overlaps → race.Overlapping) (hahead : ∀ party, ¬ahead party) :
    Editing f number collection id bodies old race (overlaps ∨ race.Overlapping)
      (fun party => ahead party ∨ race.Ahead party) := by
  refine .unwritten hvalues hparties (or_iff_right_of_imp hoverlaps) fun party => ?_
  rintro (ha | ⟨hpast, -⟩)
  · exact hahead party ha
  · rw [(hparties party).isPast_eq_false] at hpast
    cases hpast

/-- What a turn does while nothing is written. -/
theorem editing_turn_unwritten (h : r.Edited f number collection id calls bodies race)
    (hvalues : race.store.valuesOf number collection id = some old)
    (hparties : ∀ party, f.Awaits (bodies party) id old (race.progress party))
    (hoverlaps : overlaps ↔ race.Overlapping) (hahead : ∀ party, ¬ahead party) {party : Party}
    (hok : ((r.turn calls race party).progress party).hasFailed = false) :
    Editing f number collection id bodies old (r.turn calls race party)
      (overlaps ∨ (r.turn calls race party).Overlapping)
      (fun q => ahead q ∨ (r.turn calls race party).Ahead q) := by
  have hother := r.turn_progress_of_ne calls race party.other_ne
  have hawaits := hparties party.other
  rw [← hother] at hawaits
  -- the request has its instance still, or has it now
  have hstays : ∀ {i : Instance}, (r.turn calls race party).store = race.store →
      f.Drafts (bodies party) id old ((r.turn calls race party).progress party) i →
        Editing f number collection id bodies old (r.turn calls race party)
          (overlaps ∨ (r.turn calls race party).Overlapping)
          (fun q => ahead q ∨ (r.turn calls race party).Ahead q) := by
    intro i hstore hi
    refine editing_of_awaits ?_ (fun q => ?_) (fun ho q => ?_) hahead
    · rwa [hstore]
    · rcases party.eq_or_eq_other q with rfl | rfl
      · exact .inr ⟨i, hi⟩
      · exact hawaits
    · rcases party.eq_or_eq_other q with rfl | rfl
      · exact hi.has.isWriting
      · rw [hother]
        exact hoverlaps.mp ho party.other
  rcases hparties party with hasked | ⟨i, hdrafts⟩
  · obtain ⟨hstore, i, hi⟩ := turn_asked h hasked hvalues hok
    exact hstays hstore hi
  · rcases turn_drafts h hdrafts hvalues hok with ⟨hstore, i, hi⟩ | ⟨hpast, new, hnew, hamends⟩
    · exact hstays hstore hi
    · have hsame := or_iff_left (a := overlaps) (Race.not_overlapping_of_isPast hpast)
      refine .once hnew hamends hpast ?_ (.inr ⟨hpast, hawaits.isPast_eq_false⟩) ?_
      · rw [hsame, hoverlaps]
        rcases hawaits with hasked | ⟨j, hj⟩
        · refine .inl ⟨hasked, fun ho => ?_⟩
          have hwriting := ho party.other
          rw [← hother, hasked] at hwriting
          cases hwriting
        · refine .inr ⟨old, j, .inl ⟨fun q => ?_, rfl⟩, hj⟩
          rcases party.eq_or_eq_other q with rfl | rfl
          · exact hdrafts.has.isWriting
          · rw [← hother]
            exact hj.has.isWriting
      · exact not_or.mpr ⟨hahead _, Race.not_ahead_other_of_isPast hpast⟩

/-- What a turn does when one request has written its instance. -/
theorem editing_turn_once (h : r.Edited f number collection id calls bodies race) {x : Party}
    {new : Object} (hvalues : race.store.valuesOf number collection id = some new)
    (hamends : f.schema.Amends (bodies x) old new) (hpast : (race.progress x).isPast = true)
    (hawaits : race.progress x.other = .asked ∧ ¬overlaps ∨
      ∃ base i, BaseValues overlaps old new base ∧
        f.Drafts (bodies x.other) id base (race.progress x.other) i)
    (hahead : ahead x) (hbehind : ¬ahead x.other) {party : Party}
    (hok : ((r.turn calls race party).progress party).hasFailed = false) :
    Editing f number collection id bodies old (r.turn calls race party)
      (overlaps ∨ (r.turn calls race party).Overlapping)
      (fun q => ahead q ∨ (r.turn calls race party).Ahead q) := by
  have hother := r.turn_progress_of_ne calls race party.other_ne
  rcases x.eq_or_eq_other party with rfl | rfl
  · obtain ⟨hstore, hpast'⟩ := r.turn_past calls hpast
    have hsame := or_iff_left (a := overlaps) (Race.not_overlapping_of_isPast hpast')
    refine .once ?_ hamends hpast' ?_ (.inl hahead)
      (not_or.mpr ⟨hbehind, Race.not_ahead_other_of_isPast hpast'⟩)
    · rwa [hstore]
    · rwa [hsame, hother]
  · have hpast' : ((r.turn calls race x.other).progress x).isPast = true := by
      rwa [r.turn_progress_of_ne calls _ x.other_ne.symm]
    have hsame := or_iff_left (a := overlaps) (Race.not_overlapping_of_isPast hpast')
    have hbehind' : ¬(ahead x.other ∨ (r.turn calls race x.other).Ahead x.other) :=
      not_or.mpr ⟨hbehind, Race.not_ahead_other_of_isPast hpast'⟩
    rcases hawaits with ⟨hasked, hno⟩ | ⟨base, i, hbase, hdrafts⟩
    · obtain ⟨hstore, i, hi⟩ := turn_asked h hasked hvalues hok
      refine .once ?_ hamends hpast' (.inr ⟨new, i, ?_, hi⟩) (.inl hahead) hbehind'
      · rwa [hstore]
      · rw [hsame]
        exact .inr ⟨hno, rfl⟩
    · rw [← hsame] at hbase
      rcases turn_drafts h hdrafts hvalues hok with ⟨hstore, i, hi⟩ | ⟨hlast, last, hnew, hamends'⟩
      · refine .once ?_ hamends hpast' (.inr ⟨base, i, hbase, hi⟩) (.inl hahead) hbehind'
        rwa [hstore]
      · refine .twice hnew hamends hbase hamends' (fun q => ?_) (.inl hahead) hbehind'
        rcases x.eq_or_eq_other q with rfl | rfl
        · exact hpast'
        · exact hlast

/-- **What a turn does** to the requests and the record. -/
theorem Editing.turn (h : r.Edited f number collection id calls bodies race)
    (he : Editing f number collection id bodies old race overlaps ahead) {party : Party}
    (hok : ((r.turn calls race party).progress party).hasFailed = false) :
    Editing f number collection id bodies old (r.turn calls race party)
      (overlaps ∨ (r.turn calls race party).Overlapping)
      (fun q => ahead q ∨ (r.turn calls race party).Ahead q) := by
  have hother := r.turn_progress_of_ne calls race party.other_ne
  cases he with
  | unwritten hvalues hparties hoverlaps hahead =>
    exact editing_turn_unwritten h hvalues hparties hoverlaps hahead hok
  | @once x new hvalues hamends hpast hawaits hahead hbehind =>
    exact editing_turn_once h hvalues hamends hpast hawaits hahead hbehind hok
  | @twice x new base last hvalues hamends hbase hamends' hpast hahead hbehind =>
    obtain ⟨hstore, hpast'⟩ := r.turn_past calls (hpast party)
    have hpasts : ∀ q, ((r.turn calls race party).progress q).isPast = true := by
      intro q
      rcases party.eq_or_eq_other q with rfl | rfl
      · exact hpast'
      · rw [hother]
        exact hpast party.other
    have hsame := or_iff_left (a := overlaps) (Race.not_overlapping_of_isPast hpast')
    refine .twice ?_ hamends ?_ hamends' hpasts (.inl hahead) ?_
    · rwa [hstore]
    · rwa [hsame]
    · exact not_or.mpr ⟨hbehind, Race.not_ahead_other_of_isPast (hpasts x)⟩

/-! ### The requests from their beginning -/

/-- At some time both requests had an instance that was not written. -/
def Overlaps (r : Registry) (calls : Party → Call) (s : Store) (turns : List Party) : Prop :=
  r.Sometime calls s turns Race.Overlapping

/-- At some time the request had written its instance, and the other one had not. -/
def GoesFirst (r : Registry) (calls : Party → Call) (s : Store) (turns : List Party)
    (party : Party) : Prop :=
  r.Sometime calls s turns (Race.Ahead party)

/-- A value that the request gives is not borne by the record in the end. -/
inductive Loses (r : Registry) (f : Factory) (calls : Party → Call) (bodies : Party → Object)
    (s : Store) (old : Object) (turns : List Party) (party : Party) : Prop where
  /-- The other request has loaded the record before, and writes the old value afterwards. -/
  | overwritten {name : String} {v : Json} (hfirst : r.GoesFirst calls s turns party)
      (hoverlaps : r.Overlaps calls s turns) (hname : f.schema.Opens name)
      (hv : KeyMap.get? (bodies party) name = some v)
      (hlost : (KeyMap.get? old name).map (f.schema.settled name) ≠
        some (f.schema.settled name (f.schema.taken name v)))
  /-- The other request has loaded the record afterwards, and saving it simplifies the value once
  more. -/
  | simplified {name : String} {v : Json} (hfirst : r.GoesFirst calls s turns party)
      (hoverlaps : ¬r.Overlaps calls s turns) (hname : f.schema.Opens name)
      (hv : KeyMap.get? (bodies party) name = some v)
      (hlost : f.schema.settled name (f.schema.settled name (f.schema.taken name v)) ≠
        f.schema.settled name (f.schema.taken name v))

/-- Requests that have not failed after some turns had not before. -/
theorem hasFailed_of_turn {q party : Party}
    (h : ((r.turn calls race party).progress q).hasFailed = false) :
    (race.progress q).hasFailed = false := by
  by_cases hq : q = party
  · subst hq
    rw [turn_progress_self] at h
    by_contra hfailed
    rw [hasFailed_advance (by simpa using hfailed)] at h
    cases h
  · rwa [r.turn_progress_of_ne calls _ hq] at h

/-- How the requests and the record are after any turns, if neither request has failed. -/
theorem editing_race (h : r.Edited f number collection id calls bodies (r.race calls s []))
    (hvalues : s.valuesOf number collection id = some old) {turns : List Party}
    (hok : ∀ party, ((r.race calls s turns).progress party).hasFailed = false) :
    Editing f number collection id bodies old (r.race calls s turns)
      (r.Overlaps calls s turns) (r.GoesFirst calls s turns) := by
  induction turns using List.reverseRecOn with
  | nil =>
    refine .unwritten hvalues (fun party => .inl rfl) sometime_nil fun party hahead => ?_
    cases (sometime_nil.mp hahead).1
  | append_singleton turns party ih =>
    rw [race_append_singleton] at hok ⊢
    have hfactory := h.edits.factory
    have hsound := r.race_sound (fun party => (hfactory party).symm ▸ h.hooks)
      (fun party => (hfactory party).symm ▸ h.bound) h.size h.sound turns
    have hedited : r.Edited f number collection id calls bodies (r.race calls s turns) :=
      { h with size := hsound.1 ▸ h.size, sound := hsound.2 }
    have hone := Editing.turn hedited (ih fun q => hasFailed_of_turn (hok q)) (hok party)
    have hahead : r.GoesFirst calls s (turns ++ [party]) = fun q =>
        r.GoesFirst calls s turns q ∨ (r.turn calls (r.race calls s turns) party).Ahead q :=
      funext fun q => propext sometime_append_singleton
    unfold Overlaps at hone ⊢
    rwa [sometime_append_singleton, hahead]

/-- When both instances are written, the record bears both bodies if no value is lost. -/
theorem forall_bears_iff {turns : List Party} {x : Party} {new base last : Object}
    (hdisjoint : f.schema.Disjoint (bodies x) (bodies x.other))
    (hamends : f.schema.Amends (bodies x) old new)
    (hbase : BaseValues (r.Overlaps calls s turns) old new base)
    (hamends' : f.schema.Amends (bodies x.other) base last)
    (hfirst : r.GoesFirst calls s turns x) (hbehind : ¬r.GoesFirst calls s turns x.other) :
    (∀ party, f.schema.Bears (bodies party) last) ↔
      ∀ party, ¬r.Loses f calls bodies s old turns party := by
  have hlast : (∀ party, f.schema.Bears (bodies party) last) ↔ f.schema.Bears (bodies x) last := by
    refine ⟨fun hall => hall x, fun hx party => ?_⟩
    rcases x.eq_or_eq_other party with rfl | rfl
    · exact hx
    · exact hamends'.bears
  have hloses : (∀ party, ¬r.Loses f calls bodies s old turns party) ↔
      ¬r.Loses f calls bodies s old turns x := by
    refine ⟨fun hall => hall x, fun hx party => ?_⟩
    rcases x.eq_or_eq_other party with rfl | rfl
    · exact hx
    · rintro (⟨hother, -⟩ | ⟨hother, -⟩) <;> exact hbehind hother
  rw [hlast, hloses, hamends'.bears_other_iff hdisjoint]
  constructor
  · rintro hall (⟨-, hoverlaps, hname, hv, hlost⟩ | ⟨-, hoverlaps, hname, hv, hlost⟩)
    · rcases hbase with ⟨-, rfl⟩ | ⟨hno, -⟩
      · exact hlost (hall _ _ hname hv)
      · exact hno hoverlaps
    · rcases hbase with ⟨ho, -⟩ | ⟨-, rfl⟩
      · exact hoverlaps ho
      · have hsame := hall _ _ hname hv
        rw [hamends.bears _ _ hname hv] at hsame
        exact hlost (Option.some.inj hsame)
  · intro hnot name v hname hv
    by_contra hlost
    refine hnot ?_
    rcases hbase with ⟨ho, rfl⟩ | ⟨hno, rfl⟩
    · exact .overwritten hfirst ho hname hv hlost
    · rw [hamends.bears _ _ hname hv] at hlost
      exact .simplified hfirst hno hname hv fun he => hlost (congrArg some he)

end Registry

/-- **The record bears what both requests give**, if they patch it with different fields and take
turns in any order, exactly if neither loses a value. -/
theorem Server.bears_both_iff {server : Server} (h : server.Assembled) {s : Store}
    (hs : server.Reaches s) {f : Factory} (hf : f ∈ server.registry.made) (hooks : f.HookFree)
    {number : Nat} {collection : String} (hb : f.actions? = some (.memory number collection))
    {id : String} {calls : Party → Call} {bodies : Party → Object} (hc : Edits f id calls bodies)
    (hdisjoint : f.schema.Disjoint (bodies .first) (bodies .second)) {old : StoredRecord}
    (hold : KeyMap.get? (s.records number collection) id = some old) {turns : List Party}
    (hok : ∀ party, ((server.registry.race calls s turns).progress party).hasSucceeded = true) :
    (∃ record, KeyMap.get? ((server.registry.race calls s turns).store.records number collection)
        id = some record ∧ ∀ party, f.schema.Bears (bodies party) record.values) ↔
      ∀ party, ¬server.registry.Loses f calls bodies s old.values turns party := by
  have hd := hs.deployed h
  have hedited : server.registry.Edited f number collection id calls bodies
      (server.registry.race calls s []) :=
    { edits := hc, deployed := ⟨s, hd⟩, made := hf, fitted := h.fitted f hf, hooks := hooks,
      bound := hb, size := (hd.memory f hf).lt hb, sound := (hs.sound h).2 }
  have hvalues : s.valuesOf number collection id = some old.values := by
    unfold Store.valuesOf
    rw [hold]
    rfl
  have hpast := fun party => (Progress.of_hasSucceeded (hok party)).2
  have hnot : ∀ party body values, ¬f.Awaits body id values
      ((server.registry.race calls s turns).progress party) := by
    intro party body values hawaits
    have hboth := hpast party
    rw [hawaits.isPast_eq_false] at hboth
    cases hboth
  cases Registry.editing_race hedited hvalues
    fun party => (Progress.of_hasSucceeded (hok party)).1 with
  | unwritten _ hparties => exact (hnot _ _ _ (hparties .first)).elim
  | once _ _ _ hother =>
    rcases hother with ⟨hasked, -⟩ | ⟨base, i, -, hdrafts⟩
    · exact (hnot _ (bodies .first) old.values (.inl hasked)).elim
    · exact (hnot _ _ _ (.inr ⟨i, hdrafts⟩)).elim
  | @twice x new base last hvalues' hamends hbase hamends' _ hfirst hbehind =>
    have hdisjoint' : f.schema.Disjoint (bodies x) (bodies x.other) := by
      cases x with
      | first => exact hdisjoint
      | second => exact hdisjoint.symm
    obtain ⟨record, hrecord, rfl⟩ := Option.map_eq_some_iff.mp hvalues'
    rw [← Registry.forall_bears_iff hdisjoint' hamends hbase hamends' hfirst hbehind]
    constructor
    · rintro ⟨record', hrecord', hall⟩
      cases hrecord.symm.trans hrecord'
      exact hall
    · exact fun hall => ⟨record, hrecord, hall⟩

namespace Shelving

/-- A book has a title and a shelf. -/
def classes : List ClassDecl :=
  [{ ClassDecl.model "Book" with
     members := [Lending.property "title" "string" [], Lending.property "shelf" "string" []] }]

/-- The server with its models set up. -/
def server : Server := stateLeft (Server.assemble (.storing "shelving" classes))

theorem assembled : server.Assembled := Server.assembled_storing (by decide +kernel)

theorem hookFree : server.HookFree := Server.hookFree_of_isNone (by decide +kernel)

/-- The factory of books. -/
def books : Factory := server.factory "Book"

theorem books_mem : books ∈ server.registry.made := Server.factory_mem (by decide +kernel)

theorem books_actions : books.actions? = some (.memory 0 "Book") :=
  Lending.eq_of_collection? (by decide +kernel)

/-- The store with a book. -/
def store : Store := server.storeAfter [("Book", .create,
  { body := .object [("_id", .string "b1"), ("shelf", .string "A"), ("title", .string "Emma")] })]

theorem reaches_store : server.Reaches store := Server.reaches_storeAfter (by decide +kernel)

/-- One request gives the book another title, the other one another shelf. -/
def bodies : Party → Object
  | .first => [("title", .string "Persuasion")]
  | .second => [("shelf", .string "B")]

/-- The two requests. -/
def calls (party : Party) : Call where
  operation := .patch
  factory := books
  request := { id := some "b1", body := .object (bodies party) }

/-- Both load the book before either writes it. -/
def turns : List Party :=
  [.first, .second, .first, .first, .first, .second, .second, .second]

theorem edits : Edits books "b1" calls bodies :=
  ⟨fun _ => rfl, fun _ => rfl, fun _ => rfl, fun _ => rfl, fun _ => rfl⟩

theorem disjoint : books.schema.Disjoint (bodies .first) (bodies .second) := by
  intro name _ hname
  by_cases htitle : "title" = name
  · subst htitle
    decide
  · simp [bodies, KeyMap.contains, KeyMap.get?_cons, htitle] at hname

theorem hasSucceeded (party : Party) :
    ((server.registry.race calls store turns).progress party).hasSucceeded = true := by
  cases party <;> decide +kernel

theorem title_opens : books.schema.Opens "title" :=
  ⟨⟨by decide, by decide, by decide⟩, by decide +kernel, by decide +kernel⟩

/-- The title that is given is not the one that the book has in the end. -/
theorem title_last :
    ((KeyMap.get? ((server.registry.race calls store turns).store.records 0 "Book") "b1").bind
      fun record => KeyMap.get? record.values "title") = some (.string "Emma") ∧
    books.schema.settled "title" (books.schema.taken "title" (.string "Persuasion")) =
      .string "Persuasion" := by
  decide +kernel

/-- The book does not bear what both requests give. -/
theorem not_both_borne : ¬∃ record,
    KeyMap.get? ((server.registry.race calls store turns).store.records 0 "Book") "b1" =
      some record ∧ ∀ party, books.schema.Bears (bodies party) record.values := by
  rintro ⟨record, hrecord, hbears⟩
  obtain ⟨hlast, hgiven⟩ := title_last
  have hborne := hbears .first "title" _ title_opens rfl
  rw [hrecord, Option.bind_some, hborne, hgiven] at hlast
  simp at hlast

/-- One of the requests loses a value. -/
theorem title_lost : ∃ old, KeyMap.get? (store.records 0 "Book") "b1" = some old ∧
    ∃ party, server.registry.Loses books calls bodies store old.values turns party := by
  have hstored : (KeyMap.get? (store.records 0 "Book") "b1").isSome = true := by decide +kernel
  obtain ⟨old, hold⟩ := Option.isSome_iff_exists.mp hstored
  refine ⟨old, hold, ?_⟩
  by_contra hno
  refine not_both_borne ((Server.bears_both_iff assembled reaches_store books_mem
    (hookFree _ books_mem) books_actions edits disjoint hold hasSucceeded).mpr ?_)
  exact fun party hloses => hno ⟨party, hloses⟩

/-- Both requests succeed, and yet the book does not bear what both give. -/
theorem update_lost :
    Edits books "b1" calls bodies ∧ books.schema.Disjoint (bodies .first) (bodies .second) ∧
      (∀ party, ((server.registry.race calls store turns).progress party).hasSucceeded = true) ∧
      ¬∃ record,
        KeyMap.get? ((server.registry.race calls store turns).store.records 0 "Book") "b1" =
          some record ∧ ∀ party, books.schema.Bears (bodies party) record.values :=
  ⟨edits, disjoint, hasSucceeded, not_both_borne⟩

end Shelving

end ModelRest
