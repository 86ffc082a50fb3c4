import ModelRest.Proofs.Deployment
import ModelRest.Proofs.Steps

/-!
# Deleted records

A record that a request deletes may be stored again by another that was under way meanwhile: it has
loaded the record before, and when it does not find it any more, it creates one of the instance that
it has. `Revives` is the state of a request that is about to do so. `Server.stays_deleted_iff` says
that this is the only way: of two requests that take turns, one of which deletes the record, the
other stores a record under its identifier exactly if it is in this state at some time after the
deletion.
-/

namespace ModelRest

/-! ### Records that are made again -/

/-- A record that were made of the instance now would be kept under the identifier. -/
structure Factory.Remakes (f : Factory) (s : Store) (number : Nat) (collection id : String)
    (i : Instance) : Prop where
  /-- There is no record of the instance. -/
  absent : ∀ j, i.id? = some j → KeyMap.get? (s.records number collection) j = none
  /-- The new record gets the identifier. -/
  named : s.newId (f.simplifyValues i.values) = id

/-- A request that is so far is about to store a record under the identifier where there is none. -/
inductive Factory.Revives (f : Factory) (s : Store) (number : Nat) (collection id : String) :
    Progress → Prop where
  /-- The validators will accept the instance. -/
  | planned {i : Instance} {params : Parameters} (ha : f.accepts s i = true)
      (hm : f.Remakes s number collection id i) : Revives f s number collection id (.planned i params)
  /-- They have accepted it. -/
  | ready {i : Instance} {params : Parameters} (hm : f.Remakes s number collection id i) :
      Revives f s number collection id (.ready i params)
  /-- It is known that there is no record of the instance. -/
  | missed {i : Instance} {params : Parameters}
      (hid : s.newId (f.simplifyValues i.values) = id) :
      Revives f s number collection id (.missed i params)

namespace Registry

variable {r : Registry} {call : Call} {s : Store} {number : Nat} {collection id : String}
  {progress : Progress}

/-- Deleting a record stores none. -/
theorem Store.get?_afterDelete_of_none (hn : number < s.databases.length) (j : String)
    (h : KeyMap.get? (s.records number collection) id = none) :
    KeyMap.get? ((s.afterDelete number collection j).records number collection) id = none := by
  rw [Store.records_afterDelete hn, if_pos ⟨rfl, rfl⟩, KeyMap.get?_erase, h, ite_self]

/-- A request that is about to make the record again, is so after its next step or has made it. -/
theorem advance_of_revives (hooks : call.factory.HookFree)
    (hb : call.factory.actions? = some (.memory number collection))
    (hn : number < s.databases.length)
    (habsent : KeyMap.get? (s.records number collection) id = none)
    (h : call.factory.Revives s number collection id progress) :
    ((r.advance call progress s).2 = s ∧
        call.factory.Revives s number collection id (r.advance call progress s).1) ∨
      (KeyMap.contains ((r.advance call progress s).2.records number collection) id = true ∧
        (r.advance call progress s).1.isPast = true) := by
  cases h with
  | planned ha hm =>
    rw [advance_planned hooks, if_pos ha]
    exact .inl ⟨rfl, .ready ⟨hm.absent, hm.named⟩⟩
  | ready hm =>
    rw [advance_ready_of_not_stored hb hm.absent]
    exact .inl ⟨rfl, .missed hm.named⟩
  | @missed i params hid =>
    rcases r.advance_missed hooks hb i params s with
      ⟨e, -, hc⟩ | ⟨⟨i', h⟩, -⟩
    · rw [hid, KeyMap.contains, habsent] at hc
      cases hc
    · refine .inr ?_
      have hput : s.Put (s.afterCreate number collection (call.factory.simplifyValues i.values))
          number collection _ _ := Store.put_afterCreate hn (call.factory.simplifyValues i.values)
      rw [hid] at hput
      rw [h, KeyMap.contains, hput.get?_self]
      exact ⟨rfl, rfl⟩

/-- Any other request leaves the identifier without a record. -/
theorem advance_of_not_revives (hooks : call.factory.HookFree)
    (hb : call.factory.actions? = some (.memory number collection))
    (hn : number < s.databases.length)
    (habsent : KeyMap.get? (s.records number collection) id = none)
    (h : ¬call.factory.Revives s number collection id progress) :
    KeyMap.get? ((r.advance call progress s).2.records number collection) id = none := by
  have hsame : ∀ {s' : Store}, s' = s → KeyMap.get? (s'.records number collection) id = none := by
    rintro s' rfl
    exact habsent
  cases progress with
  | asked => exact hsame (r.firstStep_snd call s)
  | planned i params => exact hsame (congrArg Prod.snd (advance_planned hooks))
  | ready i params =>
    rcases Factory.stored_or_not (s.records number collection) i.id? with
      ⟨j, old, hj, hold⟩ | hnew
    · rw [advance_ready_of_stored hooks hb hj hold, ← habsent]
      refine (Store.put_afterUpdate hn _).get?_of_ne ?_
      rintro ⟨-, -, rfl⟩
      rw [habsent] at hold
      cases hold
    · exact hsame (congrArg Prod.snd (advance_ready_of_not_stored hb hnew))
  | missed i params =>
    rcases r.advance_missed hooks hb i params s with
      ⟨e, he, -⟩ | ⟨⟨i', he⟩, -⟩
    · exact hsame (congrArg Prod.snd he)
    · rw [he, ← habsent]
      refine (Store.put_afterCreate hn _).get?_of_ne ?_
      rintro ⟨-, -, hid⟩
      exact h (.missed hid)
  | saved i params =>
    refine hsame ?_
    rw [advance, Progress.ofResult_snd]
    exact r.keeps_answer call i params s
  | loaded i =>
    rw [advance, Progress.ofResult_snd, deleteLoaded_eq hb]
    cases i.id? with
    | none => exact habsent
    | some j =>
      dsimp only
      cases KeyMap.contains (s.records number collection) j with
      | true => exact Store.get?_afterDelete_of_none hn j habsent
      | false => exact habsent
  | answered result => exact habsent

/-! ### The deletion -/

/-- How far a deletion of the record of an identifier can be. -/
def DeletesAt (id : String) : Progress → Prop
  | .asked | .answered _ => True
  | .loaded i => i.id? = some id
  | _ => False

theorem deletesAt_advance (hb : call.factory.actions? = some (.memory number collection))
    (hs : s.Sound) (hop : call.operation = .delete) (hid : call.request.id = some id)
    (h : DeletesAt id progress) : DeletesAt id (r.advance call progress s).1 := by
  cases progress with
  | asked =>
    rw [advance, firstStep, hop]
    show DeletesAt id (Progress.ofResult .loaded (call.factory.loadDoomed call.request s)).1
    cases hrun : call.factory.loadDoomed call.request s with
    | error e s' => trivial
    | ok i s' =>
      obtain ⟨params, s₁, hparams, hload⟩ := bind_eq_ok_iff.mp hrun
      obtain ⟨-, rfl⟩ := liftResult_eq_ok_iff.mp hparams
      obtain ⟨-, id', record, hid', hget, rfl⟩ := (Factory.loadFor_eq_ok_iff hb).mp hload
      cases hid.symm.trans hid'
      exact (hs _ _ _ _ hget).idOf?_eq
  | loaded i =>
    rw [advance]
    cases call.factory.deleteLoaded i s <;> trivial
  | answered result => trivial
  | planned | ready | missed | saved => cases h

/-- When the deletion is answered as done, there is no record of the identifier. -/
theorem get?_advance_of_deleted (hb : call.factory.actions? = some (.memory number collection))
    (hn : number < s.databases.length) (h : DeletesAt id progress)
    (hop : call.operation = .delete) (hbefore : progress.hasDeleted = false)
    (hafter : (r.advance call progress s).1.hasDeleted = true) :
    KeyMap.get? ((r.advance call progress s).2.records number collection) id = none := by
  cases progress with
  | asked =>
    rw [advance, firstStep, hop] at hafter
    have hload : (Progress.ofResult .loaded
        (call.factory.loadDoomed call.request s)).1.hasDeleted = true := hafter
    cases hrun : call.factory.loadDoomed call.request s <;> rw [hrun] at hload <;> cases hload
  | loaded i =>
    rw [advance] at hafter ⊢
    rw [deleteLoaded_eq hb, show i.id? = some id from h] at hafter ⊢
    dsimp only at hafter ⊢
    cases hc : KeyMap.contains (s.records number collection) id with
    | true =>
      rw [if_pos rfl]
      show KeyMap.get? ((s.afterDelete number collection id).records number collection) id = none
      rw [Store.records_afterDelete hn, if_pos ⟨rfl, rfl⟩, KeyMap.get?_erase_self]
    | false =>
      rw [hc] at hafter
      cases hafter
  | answered result =>
    rw [show (Progress.answered result).hasDeleted = true from hafter] at hbefore
    cases hbefore
  | planned | ready | missed | saved => cases h

/-! ### A deletion and another request -/

/-- Two requests to a model, of which the second deletes the record of an identifier. -/
structure Contest (f : Factory) (id : String) (calls : Party → Call) : Prop where
  /-- Both are to the model. -/
  factory : ∀ party, (calls party).factory = f
  /-- The second deletes. -/
  deletes : (calls .second).operation = .delete
  /-- It names the identifier. -/
  named : (calls .second).request.id = some id

/-- The record is deleted, and the first request about to make it again. -/
def Reviving (f : Factory) (number : Nat) (collection id : String) (race : Race Party) : Prop :=
  (race.progress .second).hasDeleted = true ∧
    f.Revives race.store number collection id (race.progress .first)

/-- At some time the record was deleted, and the first request about to make it again. -/
def Revived (r : Registry) (f : Factory) (calls : Party → Call) (s : Store) (number : Nat)
    (collection id : String) (turns : List Party) : Prop :=
  r.Sometime calls s turns (Reviving f number collection id)

/-- How the two requests and the record can be, by whether the record was once about to be made
again after it was deleted. -/
inductive Standing (f : Factory) (number : Nat) (collection id : String) (race : Race Party)
    (revived : Prop) : Prop where
  /-- The record is not deleted yet. -/
  | before (hdeletes : DeletesAt id (race.progress .second))
      (hdeleted : (race.progress .second).hasDeleted = false) (hnot : ¬revived)
  /-- It is deleted, and it is about to be made again if it ever was. -/
  | absent (hdeleted : (race.progress .second).hasDeleted = true)
      (hnone : KeyMap.get? (race.store.records number collection) id = none)
      (hiff : revived ↔ f.Revives race.store number collection id (race.progress .first))
  /-- It was made again. -/
  | remade (hdeleted : (race.progress .second).hasDeleted = true)
      (hstored : KeyMap.contains (race.store.records number collection) id = true)
      (hpast : (race.progress .first).isPast = true) (hrevived : revived)

variable {f : Factory} {calls : Party → Call} {race : Race Party} {revived : Prop}

/-- A deletion that is done makes no difference any more. -/
theorem turn_of_hasDeleted (h : (race.progress .second).hasDeleted = true) :
    r.turn calls race .second = race := by
  unfold turn
  cases hp : race.progress .second with
  | answered result => rw [advance, ← hp, Function.update_eq_self]
  | asked | planned | ready | missed | saved | loaded =>
    rw [hp] at h
    cases h

/-- What a turn does while the record is not deleted. -/
theorem standing_turn_before (hc : Contest f id calls)
    (hb : f.actions? = some (.memory number collection))
    (hn : number < race.store.databases.length) (hs : race.store.Sound)
    (hdeletes : DeletesAt id (race.progress .second))
    (hdeleted : (race.progress .second).hasDeleted = false) (party : Party) :
    Standing f number collection id (r.turn calls race party)
      (Reviving f number collection id (r.turn calls race party)) := by
  cases party with
  | first =>
    have hsame := r.turn_progress_of_ne calls race
      (show Party.second ≠ .first by decide)
    refine .before ?_ ?_ fun hreviving => ?_
    · rwa [hsame]
    · rwa [hsame]
    · have hdeleted' := hreviving.1
      rw [hsame, hdeleted] at hdeleted'
      cases hdeleted'
  | second =>
    have hself := r.turn_progress_self calls race .second
    rw [← hc.factory .second] at hb
    cases hafter : ((r.turn calls race .second).progress .second).hasDeleted with
    | true =>
      refine .absent hafter ?_ (and_iff_right hafter)
      rw [hself] at hafter
      exact get?_advance_of_deleted hb hn hdeletes hc.deletes hdeleted hafter
    | false =>
      refine .before ?_ hafter fun hreviving => ?_
      · rw [hself]
        exact deletesAt_advance hb hs hc.deletes hc.named hdeletes
      · have hdeleted' := hreviving.1
        rw [hafter] at hdeleted'
        cases hdeleted'

/-- What a turn of the first request does while there is no record. -/
theorem standing_turn_absent (hf : (calls .first).factory = f) (hooks : f.HookFree)
    (hb : f.actions? = some (.memory number collection))
    (hn : number < race.store.databases.length)
    (hdeleted : (race.progress .second).hasDeleted = true)
    (hnone : KeyMap.get? (race.store.records number collection) id = none)
    (hiff : revived ↔ f.Revives race.store number collection id (race.progress .first)) :
    Standing f number collection id (r.turn calls race .first)
      (revived ∨ Reviving f number collection id (r.turn calls race .first)) := by
  have hself := r.turn_progress_self calls race .first
  have hdeleted' : ((r.turn calls race .first).progress .second).hasDeleted = true := by
    rwa [r.turn_progress_of_ne calls race (show Party.second ≠ .first by decide)]
  subst hf
  by_cases hrevives : (calls .first).factory.Revives race.store number collection id
    (race.progress .first)
  case pos =>
    rcases advance_of_revives (r := r) hooks hb hn hnone hrevives with
      ⟨hstore, hrevives'⟩ | ⟨hstored, hpast⟩
    · have hstore' : (r.turn calls race .first).store = race.store := hstore
      refine .absent hdeleted' ?_ (iff_of_true (.inl (hiff.mpr hrevives)) ?_)
      · rwa [hstore']
      · rwa [hstore', hself]
    · refine .remade hdeleted' hstored ?_ (.inl (hiff.mpr hrevives))
      rwa [hself]
  case neg =>
    refine .absent hdeleted' (advance_of_not_revives hooks hb hn hnone hrevives) ?_
    rw [or_iff_right (mt hiff.mp hrevives)]
    exact and_iff_right hdeleted'

/-- **What a turn does** to the standing of the requests. -/
theorem Standing.turn (hc : Contest f id calls) (hooks : f.HookFree)
    (hb : f.actions? = some (.memory number collection))
    (hn : number < race.store.databases.length) (hs : race.store.Sound)
    (h : Standing f number collection id race revived) (party : Party) :
    Standing f number collection id (r.turn calls race party)
      (revived ∨ Reviving f number collection id (r.turn calls race party)) := by
  cases h with
  | before hdeletes hdeleted hnot =>
    rw [or_iff_right hnot]
    exact standing_turn_before hc hb hn hs hdeletes hdeleted party
  | absent hdeleted hnone hiff =>
    cases party with
    | first => exact standing_turn_absent (hc.factory .first) hooks hb hn hdeleted hnone hiff
    | second =>
      rw [turn_of_hasDeleted hdeleted]
      refine .absent hdeleted hnone ⟨fun hrevived => ?_, fun hrevives => .inl (hiff.mpr hrevives)⟩
      rcases hrevived with hrevived | hreviving
      · exact hiff.mp hrevived
      · exact hreviving.2
  | remade hdeleted hstored hpast hrevived =>
    cases party with
    | first =>
      obtain ⟨hstore, hpast'⟩ := r.advance_of_isPast (calls .first) (s := race.store) hpast
      refine .remade ?_ ?_ ?_ (.inl hrevived)
      · rwa [r.turn_progress_of_ne calls _ (by decide)]
      · rwa [turn_store, hstore]
      · rwa [turn_progress_self]
    | second =>
      rw [turn_of_hasDeleted hdeleted]
      exact .remade hdeleted hstored hpast (.inl hrevived)

/-- How the two requests and the record are after any turns. -/
theorem standing_race (hc : Contest f id calls) (hooks : f.HookFree)
    (hb : f.actions? = some (.memory number collection)) (hn : number < s.databases.length)
    (hs : s.Sound) (turns : List Party) :
    Standing f number collection id (r.race calls s turns)
      (r.Revived f calls s number collection id turns) := by
  induction turns using List.reverseRecOn with
  | nil =>
    refine .before trivial rfl fun hrevived => ?_
    cases (sometime_nil.mp hrevived).1
  | append_singleton turns party ih =>
    have hsound := r.race_sound (fun party => (hc.factory party).symm ▸ hooks)
      (fun party => (hc.factory party).symm ▸ hb) hn hs turns
    have hone := ih.turn (r := r) hc hooks hb (by omega) hsound.2 party
    unfold Revived at hone ⊢
    rwa [sometime_append_singleton, race_append_singleton]

end Registry

/-- **A deleted record stays deleted** by two requests that take turns, one of which deletes it,
exactly if the other was not about to make it again after the deletion. -/
theorem Server.stays_deleted_iff {server : Server} (h : server.Assembled) {s : Store}
    (hs : server.Reaches s) {f : Factory} (hf : f ∈ server.registry.made) (hooks : f.HookFree)
    {number : Nat} {collection : String} (hb : f.actions? = some (.memory number collection))
    {id : String} {calls : Party → Call} (hc : Registry.Contest f id calls) {turns : List Party}
    (hfirst : ((server.registry.race calls s turns).progress .first).isAnswered = true)
    (hsecond : ((server.registry.race calls s turns).progress .second).hasDeleted = true) :
    KeyMap.get? ((server.registry.race calls s turns).store.records number collection) id = none ↔
      ¬server.registry.Revived f calls s number collection id turns := by
  have hn := ((hs.deployed h).memory f hf).lt hb
  cases Registry.standing_race (r := server.registry) hc hooks hb hn (hs.sound h).2 turns with
  | before _ hdeleted =>
    rw [hdeleted] at hsecond
    cases hsecond
  | absent _ hnone hiff =>
    refine iff_of_true hnone fun hrevived => ?_
    have hrevives := hiff.mp hrevived
    generalize (server.registry.race calls s turns).progress .first = progress at hrevives hfirst
    cases hrevives <;> cases hfirst
  | remade _ hstored _ hrevived =>
    refine iff_of_false (fun hnone => ?_) (not_not.mpr hrevived)
    rw [KeyMap.contains, hnone] at hstored
    cases hstored

namespace Lending

/-- The store with a book. -/
def shelvedStore : Store :=
  storeAfter [(.create, { body := .object [("_id", .string "b1"), ("title", .string "Emma")] })]

/-- The book gets another title, and is deleted. -/
def retitledAndDeleted : Party → Call
  | .first =>
    { operation := .patch, factory := books,
      request := { id := some "b1", body := .object [("title", .string "Persuasion")] } }
  | .second => { operation := .delete, factory := books, request := { id := some "b1" } }

/-- The change loads the book before it is deleted, and saves it afterwards. -/
def deletedMeanwhile : List Party :=
  [.first, .second, .second, .first, .first, .first, .first]

theorem retitledAndDeleted_contest : Registry.Contest books "b1" retitledAndDeleted :=
  ⟨fun party => by cases party <;> rfl, rfl, rfl⟩

theorem answered_deletedMeanwhile :
    ((server.registry.race retitledAndDeleted shelvedStore deletedMeanwhile).progress
        .first).hasSucceeded = true ∧
      ((server.registry.race retitledAndDeleted shelvedStore deletedMeanwhile).progress
        .first).isAnswered = true ∧
      ((server.registry.race retitledAndDeleted shelvedStore deletedMeanwhile).progress
        .second).hasDeleted = true := by
  decide +kernel

theorem contains_deletedMeanwhile :
    KeyMap.contains ((server.registry.race retitledAndDeleted shelvedStore
      deletedMeanwhile).store.records 0 "Book") "b1" = true := by
  decide +kernel

/-- The change makes the deleted book again. -/
theorem book_revived :
    server.registry.Revived books retitledAndDeleted shelvedStore 0 "Book" "b1"
      deletedMeanwhile := by
  obtain ⟨-, hfirst, hsecond⟩ := answered_deletedMeanwhile
  have hiff := Server.stays_deleted_iff assembled (reaches_storeAfter _) books_mem
    (hookFree _ books_mem) books_actions retitledAndDeleted_contest hfirst hsecond
  by_contra hnot
  have hc := contains_deletedMeanwhile
  have hnone : KeyMap.get? ((server.registry.race retitledAndDeleted shelvedStore
    deletedMeanwhile).store.records 0 "Book") "b1" = none := hiff.mpr hnot
  rw [KeyMap.contains, hnone] at hc
  cases hc

/-- Both requests succeed, the one as done deleting, and the book is stored. -/
theorem book_stored_after_deletion :
    ((server.registry.race retitledAndDeleted shelvedStore deletedMeanwhile).progress
        .first).hasSucceeded = true ∧
      ((server.registry.race retitledAndDeleted shelvedStore deletedMeanwhile).progress
        .second).hasDeleted = true ∧
      KeyMap.contains ((server.registry.race retitledAndDeleted shelvedStore
        deletedMeanwhile).store.records 0 "Book") "b1" = true :=
  ⟨answered_deletedMeanwhile.1, answered_deletedMeanwhile.2.2, contains_deletedMeanwhile⟩

end Lending

end ModelRest
