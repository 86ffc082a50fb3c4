import ModelRest.Proofs.Assignment
import ModelRest.Proofs.Deployment

/-!
# Requests that create

A new instance is saved like any other: if there is a record of its identifier, it is put in the
place of that record. A request to create therefore adds a record (`Store.Written.adds`) or does
nothing, unless the body says the identifier of a record that is there and nothing else refuses the
request; `Server.onlyAdds_iff` says that this is all that can go wrong. It goes unnoticed only if the
request writes what is there already, and fails when it is to be answered.
-/

namespace ModelRest

/-- The second store has one record more, under an identifier that was free in its collection; every
other record is what it was. -/
structure Store.Adds (s s' : Store) (number : Nat) (collection id : String) : Prop where
  /-- There was no record of the identifier. -/
  free : KeyMap.get? (s.records number collection) id = none
  /-- There is one now. -/
  stored : (KeyMap.get? (s'.records number collection) id).isSome = true
  /-- All other records are the same. -/
  others : ∀ number' collection' id', ¬(number = number' ∧ collection = collection' ∧ id = id') →
    KeyMap.get? (s'.records number' collection') id' =
      KeyMap.get? (s.records number' collection') id'

/-- Writing an instance adds a record, if there is none of its identifier. -/
theorem Store.Written.adds {s s' : Store} {number : Nat} {collection : String}
    {id? : Option String} {values stored : Object}
    (h : Written s s' number collection id? values stored)
    (hfree : ∀ id, id? = some id → KeyMap.get? (s.records number collection) id = none) :
    ∃ id, s.Adds s' number collection id := by
  cases h with
  | updated hid hold _ =>
    rw [hfree _ hid] at hold
    cases hold
  | created _ hnew hput =>
    refine ⟨_, ?_, ?_, fun _ _ _ hne => hput.get?_of_ne hne⟩
    · exact Option.not_isSome_iff_eq_none.mp (Bool.eq_false_iff.mp hnew)
    · rw [hput.get?_self]
      rfl

/-- The request to create a record of a model. -/
def Factory.creation (f : Factory) (req : Request) : Call :=
  { operation := .create, factory := f, request := req }

/-- The body of a request says the identifier of a record of the model. -/
def Factory.NamesStored (f : Factory) (req : Request) (s : Store) : Prop :=
  ∃ number collection body id record, f.actions? = some (.memory number collection) ∧
    req.body = .object body ∧ idOf? body = some id ∧
    KeyMap.get? (s.records number collection) id = some record

/-- The body says the identifier of a record of the model, and nothing else refuses to create it. -/
def Factory.Overwrites (f : Factory) (req : Request) (s : Store) : Prop :=
  f.NamesStored req s ∧ (∃ params, req.parameters = .ok params) ∧
    f.accepts s (f.instanceOf req.body) = true

namespace Registry

/-- Creating what the request says adds a record, and does nothing else. -/
structure OnlyAdds (r : Registry) (f : Factory) (req : Request) (s : Store) : Prop where
  /-- If a record is created, it is one more. -/
  added : ∀ body s', r.create f req s = .ok (.created body) s' → ∃ number collection id,
    f.actions? = some (.memory number collection) ∧ s.Adds s' number collection id
  /-- No record is created in the place of another. -/
  refused : f.NamesStored req s → ∃ e s', r.create f req s = .error e s' ∧ s.SameRecords s'

variable {r : Registry} {f : Factory} {req : Request} {s s' : Store}

/-- Records of a model that is not stored are not created. -/
theorem create_of_unbound (hb : f.actions? = none) {outcome : Outcome} :
    r.create f req s ≠ .ok outcome s' := by
  intro h
  have hp : r.perform (f.creation req) s = .ok outcome s' := h
  rw [perform_writes r rfl] at hp
  obtain ⟨p, s₁, -, hp⟩ := bind_eq_ok_iff.mp hp
  obtain ⟨i, s₂, hsave, -⟩ := bind_eq_ok_iff.mp hp
  obtain ⟨e, he⟩ :=
    Factory.saveInstance_of_unbound (f := (f.creation req).factory) (s := s₁) hb p.1 p.2
  rw [liftFactory_apply, he] at hsave
  cases hsave

/-- How creating goes for a model that is stored in memory. -/
theorem create_cases (r : Registry) (req : Request) (hf : f.HookFree) {number : Nat}
    {collection : String} (hb : f.actions? = some (.memory number collection))
    (hn : number < s.databases.length) :
    (∃ e, planCreate f req s = .error e s ∧ r.create f req s = .error e s) ∨
    (∃ i params e, planCreate f req s = .ok (i, params) s ∧
      f.saveInstance i params s = .error e s ∧ r.create f req s = .error e.toRequest s) ∨
    ∃ i params i', planCreate f req s = .ok (i, params) s ∧
      f.saveInstance i params s = .ok i' (stateLeft (r.create f req s)) := by
  have hcases := @perform_writes_cases r (f.creation req) s number collection rfl hf hb hn
  rcases hcases with h | h | ⟨i, params, i', s', hplan, hsave, hp⟩
  · exact .inl h
  · exact .inr (.inl h)
  · refine .inr (.inr ⟨i, params, i', hplan, ?_⟩)
    have hleft : stateLeft (r.create f req s) = s' := by
      show stateLeft (r.perform (f.creation req) s) = s'
      rw [hp]
      exact r.keeps_answer _ i' params s'
    rw [hleft]
    exact hsave

/-- What says no identifier of a record, or is refused, adds a record or does nothing. -/
theorem onlyAdds_of_not_overwrites (hf : f.HookFree) (hm : f.InMemory s.databases.length)
    (hid : ∃ field ∈ f.fields, field.name = idField)
    (h : ¬f.Overwrites req s) : r.OnlyAdds f req s := by
  constructor
  · intro body s' hok
    cases ha : f.actions? with
    | none => exact (create_of_unbound ha hok).elim
    | some actions =>
      obtain ⟨number, collection, rfl, hn⟩ := hm actions ha
      rcases r.create_cases req hf ha hn with
        ⟨e, -, he⟩ | ⟨i, params, e, -, -, he⟩ | ⟨i, params, i', hplan, hsave⟩
      · rw [he] at hok
        cases hok
      · rw [he] at hok
        cases hok
      · rw [hok] at hsave
        obtain ⟨-, values, hbody, hparams, rfl⟩ := planCreate_eq_ok_iff.mp hplan
        obtain ⟨hacc, hw⟩ := Factory.saveInstance_ok hf ha hn hsave
        rw [Factory.id?_instanceOf hid] at hw
        obtain ⟨id, hadds⟩ := hw.adds fun id hidb => by
          cases hget : KeyMap.get? (s.records number collection) id with
          | none => rfl
          | some record =>
            rw [← hbody] at hacc
            exact (h ⟨⟨number, collection, values, id, record, ha, hbody, hidb, hget⟩,
              ⟨params, hparams⟩, hacc⟩).elim
        exact ⟨number, collection, id, rfl, hadds⟩
  · intro hnames
    have ⟨number, collection, _, _, _, ha, _⟩ := hnames
    have hn := hm.lt ha
    rcases r.create_cases req hf ha hn with
      ⟨e, -, he⟩ | ⟨i, params, e, -, -, he⟩ | ⟨i, params, i', hplan, hsave⟩
    · exact ⟨e, s, he, .refl s⟩
    · exact ⟨_, s, he, .refl s⟩
    · obtain ⟨-, values, hbody, hparams, rfl⟩ := planCreate_eq_ok_iff.mp hplan
      have hacc := (Factory.saveInstance_ok hf ha hn hsave).1
      rw [← hbody] at hacc
      exact (h ⟨hnames, ⟨params, hparams⟩, hacc⟩).elim

/-- What is in order but for saying the identifier of a record is written in its place. -/
theorem saved_of_overwrites (hf : f.HookFree) (hm : f.InMemory s.databases.length)
    (hid : ∃ field ∈ f.fields, field.name = idField) (h : f.Overwrites req s) :
    ∃ number collection i params i', f.actions? = some (.memory number collection) ∧
      planCreate f req s = .ok (i, params) s ∧
      f.saveInstance i params s = .ok i' (stateLeft (r.create f req s)) := by
  obtain ⟨hnames, ⟨params, hparams⟩, hacc⟩ := h
  obtain ⟨number, collection, body, id, record, ha, hbody, hidb, hget⟩ := hnames
  rw [hbody] at hacc
  have hplan : planCreate f req s = .ok (f.instanceOf (.object body), params) s :=
    planCreate_eq_ok_iff.mpr ⟨rfl, body, hbody, hparams, rfl⟩
  have hidi : (f.instanceOf (.object body)).id? = some id := by
    rw [Factory.id?_instanceOf hid, hidb]
  obtain ⟨i, s₁, hok⟩ := Factory.saveInstance_of_stored hf ha params hacc hidi hget
  refine ⟨number, collection, _, params, i, ha, hplan, ?_⟩
  rcases r.create_cases req hf ha (hm.lt ha) with
    ⟨e', hplan', -⟩ | ⟨i', params', e', hplan', hsave, -⟩ | ⟨i', params', i'', hplan', hsave⟩
  · rw [hplan] at hplan'
    cases hplan'
  · rw [hplan] at hplan'
    cases hplan'
    rw [hok] at hsave
    cases hsave
  · rw [hplan] at hplan'
    cases hplan'
    rw [hok] at hsave ⊢
    cases hsave
    rfl

/-- The request writes what is there already, and fails when it is to be answered. -/
def RepeatsInVain (r : Registry) (f : Factory) (req : Request) (s : Store) : Prop :=
  r.Repeats (f.creation req) s ∧ ∃ e s', r.create f req s = .error e s'

/-- Where a record is written in the place of another, creating does nothing only if it writes what
is there already, in vain. -/
theorem OnlyAdds.repeatsInVain (hadds : r.OnlyAdds f req s) (hf : f.HookFree)
    (hm : f.InMemory s.databases.length) (hid : ∃ field ∈ f.fields, field.name = idField)
    (h : f.Overwrites req s) : r.RepeatsInVain f req s := by
  obtain ⟨e, s', hfail, hsame⟩ := hadds.refused h.1
  obtain ⟨number, collection, i, params, i', hb, hplan, hsave⟩ :=
    saved_of_overwrites (r := r) hf hm hid h
  rw [hfail] at hsave
  have hiff : s.SameRecords s' ↔ r.Repeats (f.creation req) s :=
    sameRecords_iff_repeats hf hb (hm.lt hb) hplan hsave
  exact ⟨hiff.mp hsame, e, s', hfail⟩

/-- A request that writes what is there already, in vain, does nothing. -/
theorem RepeatsInVain.onlyAdds (h : r.RepeatsInVain f req s) (hf : f.HookFree)
    (hm : f.InMemory s.databases.length) : r.OnlyAdds f req s := by
  obtain ⟨hrepeats, e, s', hfail⟩ := h
  refine ⟨fun body left hok => ?_, fun _ => ⟨e, s', hfail, ?_⟩⟩
  · rw [hfail] at hok
    cases hok
  · have ⟨number, collection, _, _, hb, _⟩ := hrepeats
    have hn := hm.lt hb
    rcases r.create_cases req hf hb hn with
      ⟨e', -, he⟩ | ⟨i, params, e', -, -, he⟩ | ⟨i, params, i', hplan, hsave⟩
    · cases hfail.symm.trans he
      exact .refl s
    · cases hfail.symm.trans he
      exact .refl s
    · rw [hfail] at hsave
      have hiff : s.SameRecords s' ↔ r.Repeats (f.creation req) s :=
        sameRecords_iff_repeats hf hb hn hplan hsave
      exact hiff.mpr hrepeats

end Registry

/-- **Creating adds a record, or does nothing,** exactly if the request does not say the identifier
of a record that there is, or is refused for another reason, or else writes what is there already and
fails when it is to be answered. -/
theorem Server.onlyAdds_iff {server : Server} (h : server.Assembled) {s : Store}
    (hs : server.Reaches s) {f : Factory} (hf : f ∈ server.registry.made) (hooks : f.HookFree)
    (req : Request) : server.registry.OnlyAdds f req s ↔
      ¬f.Overwrites req s ∨ server.registry.RepeatsInVain f req s := by
  have hd := hs.deployed h
  have hid := hd.identified f hf
  have hm := hd.memory f hf
  constructor
  · intro hadds
    by_cases hover : f.Overwrites req s
    · exact .inr (hadds.repeatsInVain hooks hm hid hover)
    · exact .inl hover
  · rintro (hnot | hvain)
    · exact Registry.onlyAdds_of_not_overwrites hooks hm hid hnot
    · exact hvain.onlyAdds hooks hm

namespace Lending

/-- A book with an identifier. -/
def emma : Request := { body := .object [("_id", .string "b1"), ("title", .string "Emma")] }

/-- Another book, with the same identifier. -/
def persuasion : Request :=
  { body := .object [("_id", .string "b1"), ("title", .string "Persuasion")] }

/-- The store with the first book. -/
def emmaStore : Store := storeAfter [(.create, emma)]

/-- Where there is no book, the first is one more. -/
theorem emma_onlyAdds : server.registry.OnlyAdds books emma server.store := by
  refine (Server.onlyAdds_iff assembled (.refl server) books_mem (hookFree _ books_mem) _).mpr
    (.inl ?_)
  rintro ⟨⟨number, collection, body, id, record, -, -, -, hget⟩, -⟩
  rw [assembled.empty] at hget
  cases hget

/-- What a creation answers. -/
def created? : EStateM.Result RequestError Store Outcome → Option Json
  | .ok (.created body) _ => some body
  | _ => none

theorem exists_of_created? {x : EStateM.Result RequestError Store Outcome}
    (h : (created? x).isSome = true) : ∃ body, x = .ok (.created body) (stateLeft x) := by
  unfold created? at h
  split at h
  · exact ⟨_, rfl⟩
  · cases h

/-- The second book is created in the place of the first. -/
theorem persuasion_replaces_emma :
    ∃ body s', server.registry.create books persuasion emmaStore = .ok (.created body) s' ∧
      KeyMap.contains (emmaStore.records 0 "Book") "b1" = true ∧
      KeyMap.get? (s'.records 0 "Book") "b1" ≠ KeyMap.get? (emmaStore.records 0 "Book") "b1" := by
  have hcreated : (created? (server.registry.create books persuasion emmaStore)).isSome = true := by
    decide +kernel
  obtain ⟨body, h⟩ := exists_of_created? hcreated
  exact ⟨body, _, h, by decide +kernel, by decide +kernel⟩

end Lending

end ModelRest
