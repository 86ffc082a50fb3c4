import ModelRest.Persistence
import ModelRest.Proofs.Effects
import ModelRest.Proofs.Storage

/-!
# Saving instances

Saving an instance of a model without hooks, stored in memory: if the validators accept it, its
record is put in the place of the one with its identifier, or else a new record is made of it.
`Store.Written` says which record is there then. `saveInstance_ok` and `saveInstance_error` say that
nothing else happens to the store, and nothing at all if saving fails.
-/

namespace ModelRest

namespace Store

/-! ### Writing records -/

/-- The second store comes from the first by writing values that ask for an identifier, or for none;
the stored values are what the record has then. -/
inductive Written (s s' : Store) (number : Nat) (collection : String) (id? : Option String)
    (values : Object) : Object → Prop where
  /-- The record of the identifier is replaced. -/
  | updated {id : String} {old : StoredRecord} (hid : id? = some id)
      (hold : KeyMap.get? (s.records number collection) id = some old)
      (hput : Put s s' number collection id
        { old with values := updatedValues old.values values id true s.nextStamp }) :
      Written s s' number collection id? values
        (updatedValues old.values values id true s.nextStamp)
  /-- There is no record of the identifier, and a new one is made. -/
  | created (hnew : ∀ id, id? = some id → KeyMap.get? (s.records number collection) id = none)
      (hfree : KeyMap.contains (s.records number collection) (s.newId values) = false)
      (hput : Put s s' number collection (s.newId values)
        { number := (s.database number).created,
          values := createdValues values (s.newId values) s.nextStamp }) :
      Written s s' number collection id? values
        (createdValues values (s.newId values) s.nextStamp)

variable {s s' : Store} {number : Nat} {collection : String} {id? : Option String}
  {values stored : Object}

/-- Writing puts one record. -/
theorem Written.exists_put (h : Written s s' number collection id? values stored) :
    ∃ id record, Put s s' number collection id record := by
  cases h with
  | updated _ _ hput => exact ⟨_, _, hput⟩
  | created _ _ hput => exact ⟨_, _, hput⟩

/-- Where there is a record of the identifier, it is replaced. -/
theorem Written.put_of_stored {id : String} {old : StoredRecord}
    (h : Written s s' number collection (some id) values stored)
    (hold : KeyMap.get? (s.records number collection) id = some old) :
    Put s s' number collection id
      { old with values := updatedValues old.values values id true s.nextStamp } := by
  cases h with
  | updated hid hold' hput =>
    cases hid
    cases hold.symm.trans hold'
    exact hput
  | created hnew =>
    rw [hnew id rfl] at hold
    cases hold

theorem Written.size (h : Written s s' number collection id? values stored) :
    s'.databases.length = s.databases.length := by
  obtain ⟨_, _, hput⟩ := h.exists_put
  exact hput.size

/-- What was written is in order. -/
theorem Written.sound (h : Written s s' number collection id? values stored) (hs : s.Sound) :
    s'.Sound := by
  cases h with
  | updated _ hold hput => exact hs.put hput ((hs _ _ _ _ hold).updatedValues s values)
  | created _ _ hput => exact hs.put hput (soundRecord_created s values _)

/-- What is put under an identifier when values are written that ask for one, or for none. -/
structure Makes (s : Store) (number : Nat) (collection : String) (id? : Option String)
    (values : Object) (id : String) (record : StoredRecord) : Prop where
  /-- The identifier is that of a record exactly if the values ask for the record. -/
  own : ∀ id' other, KeyMap.get? (s.records number collection) id' = some other →
    (id? = some id' ↔ id = id')
  /-- The record has the identifier. -/
  keyed : KeyMap.get? record.values idField = some (.string id)
  /-- It was changed last at the time that the clock shows. -/
  updated : KeyMap.get? record.values updatedAtField = some s.nextStamp
  /-- It was created when the record it replaces was, or at the time that the clock shows. -/
  created : (∃ old, id? = some id ∧ KeyMap.get? (s.records number collection) id = some old ∧
      KeyMap.get? record.values createdAtField = KeyMap.get? old.values createdAtField) ∨
    (∀ id', id? = some id' → KeyMap.get? (s.records number collection) id' = none) ∧
      KeyMap.get? record.values createdAtField = some s.nextStamp
  /-- All else is as the values say. -/
  ordinary : ∀ name, IsOrdinary name →
    KeyMap.get? record.values name = KeyMap.get? values name

/-- What a record is made of decides what is put. -/
theorem Written.exists_makes (h : Written s s' number collection id? values stored)
    (hs : s.Sound) : ∃ id record, record.values = stored ∧
      Put s s' number collection id record ∧ s.Makes number collection id? values id record := by
  cases h with
  | @updated id old hid hold hput =>
    have hget := (hs _ _ _ _ hold).get?_updated values s.nextStamp
    refine ⟨id, _, rfl, hput, fun id' _ _ => by rw [hid, Option.some.injEq], ?_, ?_,
      .inl ⟨old, hid, hold, ?_⟩, fun name hname => ?_⟩
    · exact ((hs _ _ _ _ hold).updatedValues s values).keyed
    · rw [hget, if_pos rfl]
    · rw [hget, if_neg (by decide), if_pos (.inl rfl)]
    · rw [hget, if_neg hname.2.2, if_neg fun hor => hor.elim hname.2.1 hname.1]
  | created hnew hfree hput =>
    refine ⟨_, _, rfl, hput, fun id' other hother => ⟨fun hid => ?_, fun hid => ?_⟩, ?_, ?_,
      .inr ⟨hnew, ?_⟩, fun name hname => ?_⟩
    · rw [hnew id' hid] at hother
      cases hother
    · subst hid
      rw [KeyMap.contains, hother] at hfree
      cases hfree
    · exact (soundRecord_created s values _).keyed
    · rw [get?_createdValues, if_pos rfl]
    · rw [get?_createdValues, if_neg (by decide), if_pos rfl]
    · rw [get?_createdValues, if_neg hname.2.2.symm, if_neg hname.2.1.symm, if_neg hname.1.symm]

/-- The values ask for the identifier of a record that has them all already, and that was changed at
the very time the clock shows: writing them over it gives it back as it is. -/
def Repeats (s : Store) (number : Nat) (collection : String) (id? : Option String)
    (values : Object) : Prop :=
  ∃ id old, id? = some id ∧ KeyMap.get? (s.records number collection) id = some old ∧
    updatedValues old.values values id true s.nextStamp = old.values

/-- Writing leaves the records as they are exactly if it repeats what is there. -/
theorem Written.sameRecords_iff (h : Written s s' number collection id? values stored) :
    s.SameRecords s' ↔ s.Repeats number collection id? values := by
  cases h with
  | @updated id old hid hold hput =>
    rw [hput.sameRecords_iff, hold]
    refine ⟨fun he => ⟨id, old, hid, hold, ?_⟩, ?_⟩
    · exact congrArg StoredRecord.values (Option.some.inj he).symm
    · rintro ⟨id', old', hid', hold', hvalues⟩
      cases hid.symm.trans hid'
      cases hold.symm.trans hold'
      rw [hvalues]
  | created hnew hfree hput =>
    rw [hput.sameRecords_iff]
    refine ⟨fun he => ?_, ?_⟩
    · rw [KeyMap.contains, he] at hfree
      cases hfree
    · rintro ⟨id, old, hid, hold, -⟩
      rw [hnew id hid] at hold
      cases hold

end Store

namespace Factory

variable {f : Factory} {s s' : Store} {number : Nat} {collection : String}

theorem write_of_stored {id : String} {old : StoredRecord}
    (h : KeyMap.get? (s.records number collection) id = some old) (values : Object)
    (params : Parameters) :
    write (.memory number collection) (.object values) (some id) params s =
      .ok (.object (updatedValues old.values values id true s.nextStamp))
        (s.afterUpdate number collection id
          { old with values := updatedValues old.values values id true s.nextStamp }) := by
  unfold write
  simp only [Actions.update, bind_apply, Store.update_object, h]
  rfl

theorem write_of_not_stored {id? : Option String}
    (h : ∀ id, id? = some id → KeyMap.get? (s.records number collection) id = none)
    (values : Object) (params : Parameters) :
    write (.memory number collection) (.object values) id? params s =
      Store.create number collection (.object values) s := by
  cases id? with
  | none => rfl
  | some id =>
    unfold write
    simp only [Actions.update, bind_apply, Store.update_object, h id rfl]
    rfl

/-- There is a record of the identifier, or there is none. -/
theorem stored_or_not (c : Collection) (id? : Option String) :
    (∃ id old, id? = some id ∧ KeyMap.get? c id = some old) ∨
      ∀ id, id? = some id → KeyMap.get? c id = none := by
  cases id? with
  | none => exact .inr nofun
  | some id =>
    cases hget : KeyMap.get? c id with
    | none =>
      refine .inr fun id' hid => ?_
      cases hid
      exact hget
    | some old => exact .inl ⟨id, old, rfl, hget⟩

/-- Writing fails without a trace, or writes. -/
theorem write_memory (h : number < s.databases.length) (values : Object) (id? : Option String)
    (params : Parameters) :
    (∃ cause, write (.memory number collection) (.object values) id? params s =
        .error cause s) ∨
      ∃ stored s', write (.memory number collection) (.object values) id? params s =
          .ok (.object stored) s' ∧
        Store.Written s s' number collection id? values stored := by
  rcases stored_or_not (s.records number collection) id? with ⟨id, old, rfl, hold⟩ | hnew
  · exact .inr ⟨_, _, write_of_stored hold values params,
      .updated rfl hold (Store.put_afterUpdate h _)⟩
  · rw [write_of_not_stored hnew, Store.create_object]
    split
    · exact .inl ⟨_, rfl⟩
    · rename_i hfree
      exact .inr ⟨_, _, rfl, .created hnew (by simpa using hfree) (Store.put_afterCreate h _)⟩

/-! ### Saving instances -/

/-- What saving does to the store: nothing, or it writes the instance that was made ready. -/
theorem saveInstance_cases (hb : f.actions? = some (.memory number collection))
    (hn : number < s.databases.length) (i : Instance) (params : Parameters) :
    stateLeft (f.saveInstance i params s) = s ∨
      ((f.prepare s i).outcome = .ok () ∧ ∃ stored,
        Store.Written s (stateLeft (f.saveInstance i params s)) number collection
          (f.prepare s i).saved.id? (f.simplifyValues (f.prepare s i).saved.values) stored) := by
  have hleft : stateLeft (f.saveInstance i params s) = (f.save i params s).2 := by
    unfold saveInstance
    obtain ⟨⟨saved, outcome⟩, s'⟩ := f.save i params s
    cases outcome <;> rfl
  rw [hleft]
  unfold save
  obtain ⟨saved, outcome⟩ := f.prepare s i
  cases outcome with
  | error e => exact .inl rfl
  | ok u =>
    simp only [requireActions, hb]
    rcases write_memory hn (f.simplifyValues saved.values) saved.id? params with
      ⟨cause, hw⟩ | ⟨stored, s', hw, hwritten⟩
    · rw [hw]
      exact .inl rfl
    · rw [hw]
      exact .inr ⟨trivial, stored, hwritten⟩

/-- An instance of a model that is not stored is never saved. -/
theorem saveInstance_of_unbound (hb : f.actions? = none) (i : Instance) (params : Parameters) :
    ∃ e, f.saveInstance i params s = .error e s := by
  unfold saveInstance save
  obtain ⟨saved, outcome⟩ := f.prepare s i
  cases outcome with
  | error e => exact ⟨e, rfl⟩
  | ok u =>
    simp only [requireActions, hb]
    exact ⟨_, rfl⟩

/-- No hook runs when an instance is written. -/
def HookFree (f : Factory) : Prop := f.hook? beforeSave = none ∧ f.hook? afterSave = none

/-- The validators find no error in an instance. -/
def accepts (f : Factory) (s : Store) (i : Instance) : Bool := !(f.diagnose s i).hasErrors

/-- Without hooks, an instance is ready to be written as it is. -/
theorem prepare_eq (hf : f.HookFree) (i : Instance) :
    f.prepare s i = { saved := f.diagnose s i, outcome := verdict (f.diagnose s i) } := by
  unfold prepare runHook
  rw [hf.1]

theorem id?_prepare (hf : f.HookFree) (i : Instance) : (f.prepare s i).saved.id? = i.id? := by
  rw [prepare_eq hf]
  rfl

theorem accepts_of_prepare (hf : f.HookFree) {i : Instance}
    (h : (f.prepare s i).outcome = .ok ()) : f.accepts s i = true := by
  rw [prepare_eq hf] at h
  unfold verdict at h
  unfold accepts
  cases he : (f.diagnose s i).hasErrors with
  | true => simp [he] at h
  | false => rfl

/-- What saving comes to without hooks. -/
theorem saveInstance_eq (hf : f.HookFree) {actions : Actions} (hb : f.actions? = some actions)
    (i : Instance) (params : Parameters) :
    f.saveInstance i params s =
      if f.accepts s i then
        match write actions (.object (f.simplifyValues i.values)) i.id? params s with
        | .error cause s' => .error (.datastore cause) s'
        | .ok (.object values) s' => .ok ((f.diagnose s i).replace values) s'
        | .ok _ s' => .ok (f.diagnose s i) s'
      else .error (.validation (f.diagnose s i).diagnoses) s := by
  have hvalues : (f.diagnose s i).values = i.values := rfl
  have hid : (f.diagnose s i).id? = i.id? := rfl
  unfold saveInstance save accepts
  cases he : (f.diagnose s i).hasErrors with
  | true => simp [prepare_eq hf, verdict, he]
  | false =>
    simp only [prepare_eq hf, verdict, he, Bool.false_eq_true, if_false, requireActions, hb, hvalues,
      hid, Bool.not_false, if_true]
    cases write actions (.object (f.simplifyValues i.values)) i.id? params s with
    | error cause s' => rfl
    | ok stored s' => cases stored <;> simp only [finish, runHook, hf.2]

/-- Saving an instance that succeeds has written its record, and the instance has its values. -/
theorem saveInstance_ok (hf : f.HookFree) (hb : f.actions? = some (.memory number collection))
    (hn : number < s.databases.length) {i i' : Instance} {params : Parameters}
    (h : f.saveInstance i params s = .ok i' s') :
    f.accepts s i = true ∧
      Store.Written s s' number collection i.id? (f.simplifyValues i.values) i'.values := by
  rw [saveInstance_eq hf hb] at h
  split at h
  · rename_i ha
    rcases write_memory hn (f.simplifyValues i.values) i.id? params with
      ⟨cause, hw⟩ | ⟨stored, s₁, hw, hwritten⟩
    · rw [hw] at h
      cases h
    · rw [hw] at h
      cases h
      exact ⟨ha, hwritten⟩
  · cases h

/-- Saving an instance that fails leaves the store as it was. -/
theorem saveInstance_error (hf : f.HookFree) (hb : f.actions? = some (.memory number collection))
    (hn : number < s.databases.length) {i : Instance} {params : Parameters} {e : FactoryError}
    (h : f.saveInstance i params s = .error e s') :
    s' = s ∧ ((∃ diagnoses, e = .validation diagnoses) ∨ ∃ cause, e = .datastore cause) := by
  rw [saveInstance_eq hf hb] at h
  split at h
  · rcases write_memory hn (f.simplifyValues i.values) i.id? params with
      ⟨cause, hw⟩ | ⟨stored, s₁, hw, -⟩
    · rw [hw] at h
      cases h
      exact ⟨rfl, .inr ⟨cause, rfl⟩⟩
    · rw [hw] at h
      cases h
  · cases h
    exact ⟨rfl, .inl ⟨_, rfl⟩⟩

/-- Saving an instance that is accepted and has the identifier of a record succeeds. -/
theorem saveInstance_of_stored (hf : f.HookFree)
    (hb : f.actions? = some (.memory number collection)) {i : Instance} (params : Parameters)
    (ha : f.accepts s i = true) {id : String} {old : StoredRecord} (hid : i.id? = some id)
    (hold : KeyMap.get? (s.records number collection) id = some old) :
    ∃ i' s', f.saveInstance i params s = .ok i' s' := by
  rw [saveInstance_eq hf hb, if_pos ha, hid, write_of_stored hold]
  exact ⟨_, _, rfl⟩

end Factory

end ModelRest
