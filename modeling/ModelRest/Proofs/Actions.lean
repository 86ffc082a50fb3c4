import ModelRest.Proofs.Ledger
import ModelRest.Proofs.Transitions
import Mathlib.Logic.Relation

/-!
# What is done through the actions of models

A store is changed through the actions of a model, by a program that has them in hand or by a
request that is answered with them. What the actions preserve (`Actions.Maintains`), requests
preserve too, whatever hooks and validators do (`Registry.preserves_perform`), and so does every
sequence of both (`Registry.Leads.preserves`).

Of actions in memory it is said here what they may change, whether their database is there or not
(`Store.Confined`), and from this that they leave other collections alone (`maintains_records`).
Every action keeps records under the identifiers that they carry (`maintains_keyed`).
-/

namespace ModelRest

/-! ### Preserving through actions -/

section Preserving

variable {ε σ α : Type} {holds : σ → Prop}

theorem Keeps.preserves {x : EStateM ε σ α} (hx : Keeps x) : Preserves holds x := by
  intro s hs
  rw [hx s]
  exact hs

theorem Preserves.adaptExcept {ε' : Type} {x : EStateM ε σ α} (hx : Preserves holds x)
    (raise : ε → ε') : Preserves holds (EStateM.adaptExcept raise x) := by
  intro s hs
  have hleft := hx s hs
  rw [adaptExcept_apply]
  cases h : x s with
  | ok a s₁ =>
    rw [h] at hleft
    exact hleft
  | error e s₁ =>
    rw [h] at hleft
    exact hleft

end Preserving

/-- What holds of a store holds of it after every action that writes. -/
structure Actions.Maintains (a : Actions) (holds : Store → Prop) : Prop where
  /-- A record is created. -/
  create : ∀ item params, Preserves holds (a.create item params)
  /-- A record is updated. -/
  update : ∀ id item params, Preserves holds (a.update id item params)
  /-- A record is deleted. -/
  delete : ∀ id, Preserves holds (a.delete id)

/-- What holds of a store holds of it after every action of the model. -/
def Factory.Maintains (f : Factory) (holds : Store → Prop) : Prop :=
  ∀ a, f.actions? = some a → a.Maintains holds

namespace Factory

variable {f : Factory} {holds : Store → Prop}

theorem preserves_write {a : Actions} (ha : a.Maintains holds) (item : Json) (id : Option String)
    (params : Parameters) : Preserves holds (write a item id params) := by
  cases id with
  | none => exact ha.create item params
  | some id =>
    refine (ha.update id item _).bind fun stored => ?_
    cases stored with
    | some stored => exact preserves_pure stored
    | none => exact ha.create item params

/-- Hooks and validators do not get at the store. -/
theorem preserves_saveInstance (hf : f.Maintains holds) (i : Instance) (params : Parameters) :
    Preserves holds (f.saveInstance i params) := by
  intro s hs
  have hsave : holds (f.save i params s).2 := by
    unfold save requireActions
    obtain ⟨saved, outcome⟩ := f.prepare s i
    cases outcome with
    | error e => exact hs
    | ok u =>
      cases hb : f.actions? with
      | none => exact hs
      | some a =>
        have hleft := preserves_write (hf a hb) (.object (f.simplifyValues saved.values)) saved.id?
          params s hs
        dsimp only
        cases hw : write a (.object (f.simplifyValues saved.values)) saved.id? params s with
        | ok stored s' =>
          rw [hw] at hleft
          exact hleft
        | error cause s' =>
          rw [hw] at hleft
          exact hleft
  unfold saveInstance
  generalize f.save i params s = result at hsave
  obtain ⟨⟨saved, outcome⟩, s'⟩ := result
  cases outcome <;> exact hsave

theorem preserves_delete (hf : f.Maintains holds) (req : Request) :
    Preserves holds (f.delete req) := by
  refine (keeps_liftResult _).preserves.bind fun params =>
    (f.keeps_loadFor req params).preserves.bind fun i => ?_
  refine Preserves.bind (Preserves.adaptExcept ?_ _) fun existed => ?_
  · unfold deleteInstance requireActions
    cases i.id? with
    | none => exact preserves_pure false
    | some id =>
      cases hb : f.actions? with
      | none => exact (keeps_throw _).preserves
      | some a => exact ((hf a hb).delete id).adaptExcept _
  · cases existed with
    | true => exact preserves_pure _
    | false => exact (keeps_throw _).preserves

end Factory

/-- **What the actions of a model preserve, its requests preserve**, whether they succeed or
fail. -/
theorem Registry.preserves_perform (r : Registry) {holds : Store → Prop} {call : Call}
    (hf : call.factory.Maintains holds) : Preserves holds (r.perform call) := by
  cases hop : call.operation.writes with
  | true =>
    intro s hs
    rcases r.stateLeft_perform_writes hop s with h | ⟨i, params, -, h⟩
    · rwa [h]
    · rw [h]
      exact Factory.preserves_saveInstance hf i params s hs
  | false =>
    obtain ⟨operation, f, req⟩ := call
    cases operation with
    | query => exact (r.keeps_query f req).preserves
    | read => exact (r.keeps_read f req).preserves
    | delete => exact Factory.preserves_delete hf req
    | create | replace | patch => cases hop

/-! ### Sequences of actions and requests -/

/-- What is done through the actions on a collection. -/
inductive Action where
  /-- The records with these values are asked for. -/
  | query (filter : Object) (params : Parameters)
  /-- The record of an identifier is asked for. -/
  | read (id : String) (params : Parameters)
  /-- A record is created. -/
  | create (item : Json) (params : Parameters)
  /-- The record of an identifier is updated. -/
  | update (id : String) (item : Json) (params : Parameters)
  /-- The record of an identifier is deleted. -/
  | delete (id : String)

namespace Action

/-- What the action answers, and the store that it leaves. -/
def on (a : Actions) (s : Store) : Action → Reply × Store
  | .query filter params => Reply.ofAction .listed (a.query filter params s)
  | .read id params => Reply.ofAction .found (a.read id params s)
  | .create item params => Reply.ofAction .created (a.create item params s)
  | .update id item params => Reply.ofAction .found (a.update id item params s)
  | .delete id => Reply.ofAction .deleted (a.delete id s)

theorem snd_ofAction {α : Type} (reply : α → Reply) (x : EStateM.Result String Store α) :
    (Reply.ofAction reply x).2 = stateLeft x := by
  cases x <;> rfl

theorem preserves_on {a : Actions} {holds : Store → Prop} (ha : a.Maintains holds) {s : Store}
    (hs : holds s) (act : Action) : holds (act.on a s).2 := by
  cases act with
  | query filter params =>
    rw [on, snd_ofAction]
    exact (a.keeps_query filter params).preserves s hs
  | read id params =>
    rw [on, snd_ofAction]
    exact (a.keeps_read id params).preserves s hs
  | create item params =>
    rw [on, snd_ofAction]
    exact ha.create item params s hs
  | update id item params =>
    rw [on, snd_ofAction]
    exact ha.update id item params s hs
  | delete id =>
    rw [on, snd_ofAction]
    exact ha.delete id s hs

end Action

/-- What an action of a model answers, and the store that it leaves; a model that is not stored has
no actions. -/
def Factory.act (f : Factory) (s : Store) (act : Action) : Option Reply × Store :=
  match f.actions? with
  | none => (none, s)
  | some a => (some (act.on a s).1, (act.on a s).2)

/-- What actions of models answer one after the other, and the store that they leave. -/
def Factory.runs (s : Store) : List (Factory × Action) → List (Option Reply) × Store
  | [] => ([], s)
  | (f, act) :: rest =>
    let (reply, s') := f.act s act
    let (replies, left) := runs s' rest
    (reply :: replies, left)

/-- Models with the same actions do the same. -/
theorem Factory.act_congr {f f' : Factory} (h : f.actions? = f'.actions?) (s : Store)
    (act : Action) : f.act s act = f'.act s act := by
  unfold Factory.act
  rw [h]

theorem Factory.Maintains.act {f : Factory} {holds : Store → Prop} (hf : f.Maintains holds)
    {s : Store} (hs : holds s) (act : Action) : holds (f.act s act).2 := by
  unfold Factory.act
  cases hb : f.actions? with
  | none => exact hs
  | some a => exact Action.preserves_on (hf a hb) hs act

namespace Registry

/-- The store after an action of a model of the registry, or a request to one, or after all records
of a database were deleted. -/
inductive Step (r : Registry) (s : Store) : Store → Prop where
  /-- An action. -/
  | action {f : Factory} (hf : f ∈ r.made) (act : Action) : Step r s (f.act s act).2
  /-- A request. -/
  | request {call : Call} (hf : call.factory ∈ r.made) : Step r s (r.after s call)
  /-- A database is emptied. -/
  | reset (number : Nat) : Step r s (s.setDatabase number (s.database number).reset)

/-- The store after any number of these. -/
def Leads (r : Registry) : Store → Store → Prop := Relation.ReflTransGen r.Step

/-- What the actions of all models preserve, and emptying a database too, holds in the end if it
held at first. -/
theorem Leads.preserves {r : Registry} {holds : Store → Prop} {s s' : Store}
    (hmade : ∀ f ∈ r.made, f.Maintains holds)
    (hreset : ∀ s number, holds s → holds (s.setDatabase number (s.database number).reset))
    (hs : holds s) (h : r.Leads s s') : holds s' := by
  induction h with
  | refl => exact hs
  | tail _ hstep ih =>
    cases hstep with
    | action hf act => exact (hmade _ hf).act ih act
    | request hf => exact r.preserves_perform (hmade _ hf) _ ih
    | reset number => exact hreset _ number ih

end Registry

/-! ### Actions in memory -/

namespace Store

variable {s s' : Store} {number : Nat} {collection : String}

/-- A database that there is not is not replaced. -/
theorem records_setDatabase (s : Store) (number : Nat) (d : Database) (number' : Nat)
    (collection' : String) : (s.setDatabase number d).records number' collection' =
      if number = number' ∧ number < s.databases.length then d.collection collection'
      else s.records number' collection' := by
  unfold records
  by_cases hlt : number < s.databases.length
  · rw [database_setDatabase s number' d hlt]
    by_cases hn : number = number' <;> simp [hn, hlt]
    intro hge
    omega
  · have hsame : s.setDatabase number d = s := by
      unfold setDatabase
      rw [List.set_eq_of_length_le (Nat.le_of_not_lt hlt)]
    rw [hsame, if_neg fun h => hlt h.2]

/-- A store differs from another in a collection at most, and there in records that carry their
identifiers. -/
structure Confined (s s' : Store) (number : Nat) (collection : String) : Prop where
  /-- The other collections have the records that they had. -/
  others : ∀ number' collection', ¬(number = number' ∧ collection = collection') →
    s'.records number' collection' = s.records number' collection'
  /-- A record was there, or carries its identifier. -/
  own : ∀ id record, KeyMap.get? (s'.records number collection) id = some record →
    KeyMap.get? (s.records number collection) id = some record ∨
      KeyMap.get? record.values idField = some (.string id)

theorem Confined.refl (s : Store) (number : Nat) (collection : String) :
    s.Confined s number collection := ⟨fun _ _ _ => rfl, fun _ _ => .inl⟩

/-- The records of one collection are replaced by such as were there or carry their identifiers. -/
theorem confined_of_setCollection {d : Database} {c : Collection}
    (hs : s'.databases = s.databases.set number d)
    (hd : d.collections = KeyMap.insert (s.database number).collections collection c)
    (hc : ∀ id record, KeyMap.get? c id = some record →
      KeyMap.get? (s.records number collection) id = some record ∨
        KeyMap.get? record.values idField = some (.string id)) :
    s.Confined s' number collection := by
  have hcoll : ∀ collection', d.collection collection' =
      if collection = collection' then c else s.records number collection' := by
    intro collection'
    unfold records
    rw [← Database.collection_setCollection]
    unfold Database.collection Database.setCollection
    rw [hd]
  have hrecords : ∀ number' collection', s'.records number' collection' =
      if number = number' ∧ number < s.databases.length then d.collection collection'
      else s.records number' collection' := by
    intro number' collection'
    rw [← records_setDatabase]
    unfold records database setDatabase
    rw [hs]
  constructor
  · intro number' collection' hne
    rw [hrecords]
    split
    · rename_i hn
      rw [hcoll, if_neg fun he => hne ⟨hn.1, he⟩, hn.1]
    · rfl
  · intro id record hget
    rw [hrecords] at hget
    split at hget
    · rw [hcoll, if_pos rfl] at hget
      exact hc id record hget
    · exact .inl hget

/-- A record that is put into a collection carries its identifier. -/
theorem get?_insert_keyed {c : Collection} {id : String} {record : StoredRecord}
    (hkeyed : KeyMap.get? record.values idField = some (.string id)) (id' : String)
    (record' : StoredRecord) (hget : KeyMap.get? (KeyMap.insert c id record) id' = some record') :
    KeyMap.get? c id' = some record' ∨
      KeyMap.get? record'.values idField = some (.string id') := by
  rw [KeyMap.get?_insert] at hget
  split at hget
  · rename_i hid
    cases hget
    exact .inr (hid ▸ hkeyed)
  · exact .inl hget

/-- An update gives a record its identifier, whether it replaces the values or is merged. -/
theorem keyed_updatedValues (old incoming : Object) (id : String) (replace : Bool) (stamp : Json) :
    KeyMap.get? (updatedValues old incoming id replace stamp) idField = some (.string id) := by
  have hcreated : createdAtField ≠ idField := by decide
  have hupdated : updatedAtField ≠ idField := by decide
  unfold updatedValues
  dsimp only
  rw [KeyMap.get?_insert_of_ne _ _ hupdated]
  split
  · rw [KeyMap.get?_insert_of_ne _ _ hcreated, KeyMap.get?_insert_self]
  · exact KeyMap.get?_insert_self ..

theorem confined_create (number : Nat) (collection : String) (item : Json) (s : Store) :
    s.Confined (stateLeft (create number collection item s)) number collection := by
  cases item with
  | object values =>
    rw [create_object]
    split
    · exact .refl s number collection
    · refine confined_of_setCollection rfl rfl (get?_insert_keyed ?_)
      rw [get?_createdValues]
      rfl
  | null | bool | number | string | array => exact .refl s number collection

theorem confined_update (number : Nat) (collection id : String) (item : Json) (replace : Bool)
    (s : Store) :
    s.Confined (stateLeft (update number collection id item replace s)) number collection := by
  cases item with
  | object values =>
    rw [update_object]
    split
    · exact confined_of_setCollection rfl rfl (get?_insert_keyed (keyed_updatedValues ..))
    · exact .refl s number collection
  | null | bool | number | string | array => exact .refl s number collection

theorem confined_delete (number : Nat) (collection id : String) (s : Store) :
    s.Confined (stateLeft (delete number collection id s)) number collection := by
  rw [delete_eq]
  split
  · refine confined_of_setCollection rfl rfl fun id' record hget => .inl ?_
    rw [KeyMap.get?_erase] at hget
    split at hget
    · cases hget
    · exact hget
  · exact .refl s number collection

/-- Every record carries the identifier that it is kept under. -/
def Keyed (s : Store) : Prop := ∀ number collection id record,
  KeyMap.get? (s.records number collection) id = some record →
    KeyMap.get? record.values idField = some (.string id)

theorem Keyed.confined (hs : s.Keyed) (h : s.Confined s' number collection) : s'.Keyed := by
  intro number' collection' id record hget
  by_cases hsame : number = number' ∧ collection = collection'
  · obtain ⟨rfl, rfl⟩ := hsame
    rcases h.own id record hget with hold | hkeyed
    · exact hs _ _ _ _ hold
    · exact hkeyed
  · rw [h.others _ _ hsame] at hget
    exact hs _ _ _ _ hget

/-- Emptying a database leaves a collection as it was, or empty. -/
theorem records_reset (s : Store) (number number' : Nat) (collection : String) :
    (s.setDatabase number (s.database number).reset).records number' collection =
        s.records number' collection ∨
      (s.setDatabase number (s.database number).reset).records number' collection = [] := by
  rw [records_setDatabase]
  split
  · exact .inr (Database.collection_reset _ _)
  · exact .inl rfl

theorem Keyed.reset (hs : s.Keyed) (number : Nat) :
    (s.setDatabase number (s.database number).reset).Keyed := by
  intro number' collection id record hget
  rcases s.records_reset number number' collection with h | h
  · rw [h] at hget
    exact hs _ _ _ _ hget
  · rw [h] at hget
    cases hget

theorem keyed_of_empty (h : ∀ number collection, s.records number collection = []) : s.Keyed := by
  intro number collection id record hget
  rw [h] at hget
  cases hget

end Store

namespace Actions

/-- Actions of a connector from outside do not get at the store. -/
theorem maintains_service (service : Service) (holds : Store → Prop) :
    (Actions.service service).Maintains holds :=
  ⟨fun _ _ => (keeps_outside _).preserves, fun _ _ _ => (keeps_outside _).preserves,
    fun _ => (keeps_outside _).preserves⟩

/-- Actions in memory maintain what holds however their collection changes. -/
theorem maintains_memory {number : Nat} {collection : String} {holds : Store → Prop}
    (h : ∀ s s', s.Confined s' number collection → holds s → holds s') :
    (Actions.memory number collection).Maintains holds where
  create item _ s hs := h s _ (Store.confined_create number collection item s) hs
  update id item _ s hs := h s _ (Store.confined_update number collection id item _ s) hs
  delete id s hs := h s _ (Store.confined_delete number collection id s) hs

/-- Records stay under the identifiers that they carry. -/
theorem maintains_keyed (a : Actions) : a.Maintains Store.Keyed := by
  cases a with
  | memory number collection => exact maintains_memory fun s s' h hs => hs.confined h
  | service service => exact maintains_service service _

/-- Another collection is left alone. -/
theorem maintains_records {number : Nat} {collection : String} {number' : Nat}
    {collection' : String} (hne : ¬(number = number' ∧ collection = collection'))
    (c : Collection) :
    (Actions.memory number collection).Maintains fun s => s.records number' collection' = c :=
  maintains_memory fun _ _ h hs => (h.others number' collection' hne).trans hs

end Actions

/-- **Records stay under the identifiers that they carry**, whatever is done to the store. -/
theorem Registry.Leads.keyed {r : Registry} {s s' : Store} (h : r.Leads s s') (hs : s.Keyed) :
    s'.Keyed :=
  h.preserves (fun _ _ a _ => a.maintains_keyed) (fun _ number hs => hs.reset number) hs

end ModelRest
