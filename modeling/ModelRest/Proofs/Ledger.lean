import ModelRest.Proofs.Effects
import ModelRest.Proofs.Storage

/-!
# Records in the order of their creation

A collection keeps its records under their identifiers, each with the number of its creation, and
sorts them whenever it is asked for several. A `Ledger` does none of that: it lists the records of
every collection in the order of their creation. A new record comes last, an updated one stays in
its place, a deleted one goes. Which identifier a new record asks for (`Ledger.named?`), which records
a filter selects (`Kept.has`) and what becomes of the values of one that is updated
(`Kept.get?_update`) is said of ledgers by themselves.

`Collection.Shows` says that a collection has the records that a ledger lists, and what becomes of
both when a record is created, updated or deleted; `Store.Represents` says it of all collections of
a database. What operations do to a database and to a ledger is compared in `Refinement`.
-/

namespace ModelRest

/-! ### Collections as lists -/

/-- The records of the collection in the order of their creation, with their identifiers. -/
structure Collection.Lists (c : Collection) (rs : List (String × StoredRecord)) : Prop where
  /-- They are all records, each once. -/
  perm : rs.Perm c
  /-- They are in order. -/
  increasing : rs.Pairwise fun p q => p.2.number < q.2.number

namespace Collection.Lists

variable {c : Collection} {rs : List (String × StoredRecord)} {id : String}

theorem nil : Lists [] [] := ⟨.nil, .nil⟩

/-- Records of one number are the same. -/
theorem eq_of_number (h : c.Lists rs) {p q : String × StoredRecord} (hp : p ∈ rs) (hq : q ∈ rs)
    (hn : p.2.number = q.2.number) : p = q := by
  have hnodup : (rs.map fun p => p.2.number).Nodup := by
    apply List.pairwise_map.mpr
    exact h.increasing.imp fun hlt => Nat.ne_of_lt hlt
  exact List.inj_on_of_nodup_map hnodup hp hq hn

/-- What a collection answers when it is asked for all records. -/
theorem records_eq (h : c.Lists rs) : c.records = rs.map fun p => p.2.values := by
  have hperm : ((c.map Prod.snd).mergeSort fun a b => a.number ≤ b.number).Perm
      (rs.map Prod.snd) := (List.mergeSort_perm ..).trans (h.perm.map Prod.snd).symm
  have hsorted : (c.map Prod.snd).mergeSort (fun a b => a.number ≤ b.number) =
      rs.map Prod.snd := by
    refine @List.Perm.eq_of_pairwise _ (fun a b => a.number ≤ b.number) _ _ ?_ ?_ ?_ hperm
    · intro a b ha hb hab hba
      obtain ⟨p, hp, rfl⟩ := List.mem_map.mp (hperm.mem_iff.mp ha)
      obtain ⟨q, hq, rfl⟩ := List.mem_map.mp hb
      rw [h.eq_of_number hp hq (Nat.le_antisymm hab hba)]
    · have hpairs := @List.pairwise_mergeSort _
        (fun a b : StoredRecord => decide (a.number ≤ b.number))
        (by intro a b c; simp; omega) (by intro a b; simp; omega) (c.map Prod.snd)
      simpa only [decide_eq_true_eq] using hpairs
    · exact List.pairwise_map.mpr (h.increasing.imp Nat.le_of_lt)
  unfold records
  rw [hsorted, List.map_map]
  rfl

/-- The record of an identifier is found in the list. -/
theorem get?_eq (h : c.Lists rs) (hs : KeyMap.Sorted c) (id : String) :
    KeyMap.get? c id = (rs.find? fun p => p.1 == id).map Prod.snd := by
  apply Option.ext
  intro r
  rw [hs.get?_eq_some_iff, ← h.perm.mem_iff, Option.map_eq_some_iff]
  constructor
  · intro hmem
    cases hfind : rs.find? fun p => p.1 == id with
    | none =>
      have hno := List.find?_eq_none.mp hfind _ hmem
      simp at hno
    | some p =>
      refine ⟨p, rfl, ?_⟩
      have hp : p.1 = id := by simpa using List.find?_some hfind
      have hpmem : (id, p.2) ∈ c := hp ▸ h.perm.mem_iff.mp (List.mem_of_find?_eq_some hfind)
      have hget := hs.get?_eq_some_iff.mpr hpmem
      rw [hs.get?_eq_some_iff.mpr (h.perm.mem_iff.mp hmem)] at hget
      exact (Option.some.inj hget).symm
  · rintro ⟨p, hfind, rfl⟩
    have hp : p.1 = id := by simpa using List.find?_some hfind
    rw [← hp]
    exact List.mem_of_find?_eq_some hfind

/-- A new record comes last. -/
theorem insert_new (h : c.Lists rs) (hnew : KeyMap.contains c id = false) {record : StoredRecord}
    (hlast : ∀ p ∈ c, p.2.number < record.number) :
    Lists (KeyMap.insert c id record) (rs ++ [(id, record)]) where
  perm := by
    have hcons : (rs ++ [(id, record)]).Perm ((id, record) :: rs) := List.perm_append_singleton _ _
    exact hcons.trans ((h.perm.cons _).trans (KeyMap.insert_perm hnew record).symm)
  increasing := by
    apply List.pairwise_append.mpr
    refine ⟨h.increasing, List.pairwise_singleton _ _, fun p hp q hq => ?_⟩
    rw [List.mem_singleton.mp hq]
    exact hlast p (h.perm.mem_iff.mp hp)

/-- A record that is changed stays in its place. -/
theorem insert_changed (h : c.Lists rs) (hs : KeyMap.Sorted c) {old : StoredRecord}
    (hget : KeyMap.get? c id = some old) (change : StoredRecord → StoredRecord)
    (hnumber : ∀ r, (change r).number = r.number) :
    Lists (KeyMap.insert c id (change old))
      (rs.map fun p => if p.1 = id then (id, change p.2) else p) where
  perm := by
    have hmap : KeyMap.insert c id (change old) =
        c.map fun p => if p.1 = id then (id, change p.2) else p := by
      have hc : KeyMap.contains c id = true := by
        rw [KeyMap.contains, hget]
        rfl
      rw [hs.insert_eq_map hc]
      apply List.map_congr_left
      intro p hp
      by_cases hid : p.1 = id
      · have hp2 : KeyMap.get? c id = some p.2 := hs.get?_eq_some_iff.mpr (hid ▸ hp)
        rw [hget] at hp2
        rw [if_pos hid, if_pos hid, Option.some.inj hp2]
      · rw [if_neg hid, if_neg hid]
    rw [hmap]
    exact h.perm.map _
  increasing := by
    have hkept : ∀ p : String × StoredRecord,
        (if p.1 = id then (id, change p.2) else p).2.number = p.2.number := by
      intro p
      split
      · exact hnumber p.2
      · rfl
    apply List.pairwise_map.mpr
    simpa only [hkept] using h.increasing

/-- A record that is deleted goes. -/
theorem erase (h : c.Lists rs) (id : String) :
    Lists (KeyMap.erase c id) (rs.filter fun p => p.1 ≠ id) where
  perm := by
    rw [KeyMap.erase_eq_filter]
    exact h.perm.filter _
  increasing := h.increasing.filter _

end Collection.Lists

/-! ### Ledgers -/

/-- Values with an identifier, a time of creation and a time of the last change. -/
def markedValues (values : Object) (id : String) (created changed : Json) : Object :=
  KeyMap.insert (KeyMap.insert (KeyMap.insert values idField (.string id)) createdAtField created)
    updatedAtField changed

/-- A record as a ledger lists it. -/
structure Kept where
  /-- The identifier. -/
  id : String
  /-- The time of the creation. -/
  created : Json
  /-- The values. -/
  values : Object

namespace Kept

/-- A new record. -/
def create (values : Object) (id : String) (now : Json) : Kept where
  id := id
  created := now
  values := markedValues values id now now

/-- The record after an update, which replaces its values or is merged into them. -/
def update (k : Kept) (incoming : Object) (replace : Bool) (now : Json) : Kept :=
  { k with
    values := markedValues (if replace then incoming else KeyMap.union k.values incoming) k.id
      k.created now }

/-- The record has these values in these fields. -/
def has (filter : Object) (k : Kept) : Bool :=
  filter.all fun p =>
    match KeyMap.get? k.values p.1 with
    | some v => Json.same v p.2
    | none => false

/-- The record with the identifier. -/
def find? (ks : List Kept) (id : String) : Option Kept := List.find? (fun k => k.id == id) ks

end Kept

/-- The records of every collection, in the order of their creation. -/
structure Ledger where
  /-- The identifiers and times. -/
  supply : Supply
  /-- How many identifiers were taken. -/
  ids : Nat
  /-- How often the clock was read. -/
  stamps : Nat
  /-- The records of a collection. -/
  kept : String → List Kept

namespace Ledger

/-- The time at which the next record is written. -/
def now (l : Ledger) : Json := .string (l.supply.time l.stamps)

/-- The identifier that a new record asks for: a text that is not empty. -/
def named? (values : Object) : Option String :=
  match KeyMap.get? values idField with
  | some (.string id) => if id = "" then none else some id
  | _ => none

/-- The identifier of a record that is created with these values. -/
def newId (l : Ledger) (values : Object) : String :=
  match named? values with
  | some id => id
  | none => l.supply.id l.ids

/-- The ledger with the records of a collection replaced at the next time. -/
def put (l : Ledger) (collection : String) (ks : List Kept) : Ledger :=
  { l with stamps := l.stamps + 1, kept := Function.update l.kept collection ks }

end Ledger

/-! ### Operations -/

/-- What is done to a database. -/
inductive StoreOperation where
  /-- The records with these values are asked for. -/
  | query (collection : String) (filter : Object) (params : Parameters)
  /-- The record with the identifier is asked for. -/
  | read (collection id : String) (params : Parameters)
  /-- A record is created. -/
  | create (collection : String) (item : Json) (params : Parameters)
  /-- The record with the identifier is updated. -/
  | update (collection id : String) (item : Json) (params : Parameters)
  /-- The record with the identifier is deleted. -/
  | delete (collection id : String)
  /-- All records of all collections are deleted. -/
  | reset

/-- What an operation answers. -/
inductive Reply where
  /-- The records that were asked for. -/
  | listed (records : List Json)
  /-- The record that was asked for or updated, if there is one. -/
  | found (record : Option Json)
  /-- The record that was created. -/
  | created (record : Json)
  /-- Whether there was a record to delete. -/
  | deleted (existed : Bool)
  /-- Why nothing was done. -/
  | refused (cause : String)
  /-- It was done. -/
  | done
deriving DecidableEq

/-- The operation failed, or the record it is about is not there. -/
def Reply.isMiss : Reply → Bool
  | .found none => true
  | .deleted existed => !existed
  | .refused _ => true
  | _ => false

/-- What an action answers, and the store that it leaves. -/
def Reply.ofAction {α : Type} (reply : α → Reply) : EStateM.Result String Store α → Reply × Store
  | .ok a s => (reply a, s)
  | .error cause s => (.refused cause, s)

namespace StoreOperation

/-- The collection that the operation is about. -/
def collection? : StoreOperation → Option String
  | .query collection .. => some collection
  | .read collection .. => some collection
  | .create collection .. => some collection
  | .update collection .. => some collection
  | .delete collection _ => some collection
  | .reset => none

/-- What the operation answers on the database of a number, and the store that it leaves. -/
def onStore (number : Nat) (s : Store) : StoreOperation → Reply × Store
  | .query collection filter params =>
    Reply.ofAction .listed (Actions.query (.memory number collection) filter params s)
  | .read collection id params =>
    Reply.ofAction .found (Actions.read (.memory number collection) id params s)
  | .create collection item params =>
    Reply.ofAction .created (Actions.create (.memory number collection) item params s)
  | .update collection id item params =>
    Reply.ofAction .found (Actions.update (.memory number collection) id item params s)
  | .delete collection id =>
    Reply.ofAction .deleted (Actions.delete (.memory number collection) id s)
  | .reset => (.done, s.setDatabase number (s.database number).reset)

/-- What the operation answers on a ledger, and the ledger that it leaves. -/
def onLedger (l : Ledger) : StoreOperation → Reply × Ledger
  | .query collection filter _ =>
    (.listed (((l.kept collection).filter (Kept.has filter)).map fun k => .object k.values), l)
  | .read collection id _ =>
    (.found ((Kept.find? (l.kept collection) id).map fun k => .object k.values), l)
  | .create collection (.object values) _ =>
    let id := l.newId values
    match Kept.find? (l.kept collection) id with
    | some _ => (.refused s!"duplicate _id '{id}' in '{collection}'", l)
    | none =>
      let k := Kept.create values id l.now
      let ids := if (Ledger.named? values).isSome then l.ids else l.ids + 1
      (.created (.object k.values), { l.put collection (l.kept collection ++ [k]) with ids := ids })
  | .update collection id (.object values) params =>
    match Kept.find? (l.kept collection) id with
    | none => (.found none, l)
    | some k =>
      let update (k : Kept) : Kept := k.update values params.deleteMissing l.now
      (.found (some (.object (update k).values)), l.put collection
        ((l.kept collection).map fun k => if k.id = id then update k else k))
  | .create collection _ _ | .update collection _ _ _ =>
    (.refused s!"record for '{collection}' must be a JSON object", l)
  | .delete collection id =>
    match Kept.find? (l.kept collection) id with
    | none => (.deleted false, l)
    | some _ => (.deleted true,
        { l with
          kept := Function.update l.kept collection
            ((l.kept collection).filter fun k => k.id ≠ id) })
  | .reset => (.done, { l with kept := fun _ => [] })

end StoreOperation

/-! ### Collections that a ledger shows -/

theorem get?_markedValues (values : Object) (id : String) (created changed : Json)
    (field : String) : KeyMap.get? (markedValues values id created changed) field =
      if updatedAtField = field then some changed
      else if createdAtField = field then some created
      else if idField = field then some (.string id)
      else KeyMap.get? values field := by
  simp only [markedValues, KeyMap.get?_insert]

/-- An updated record has the incoming values and, if they do not replace its own, those of its own
that are not among them; identifier and time of creation stay. -/
theorem Kept.get?_update (k : Kept) {incoming : Object} (h : KeyMap.Sorted incoming)
    (replace : Bool) (now : Json) (field : String) :
    KeyMap.get? (k.update incoming replace now).values field =
      if updatedAtField = field then some now
      else if createdAtField = field then some k.created
      else if idField = field then some (.string k.id)
      else (KeyMap.get? incoming field).or
        (if replace then none else KeyMap.get? k.values field) := by
  rw [update, get?_markedValues]
  cases replace with
  | true => simp
  | false => simp [KeyMap.get?_union k.values h]

/-- A ledger selects records as a collection does. -/
theorem Kept.selects_eq_has (filter : Object) (k : Kept) :
    Collection.selects filter k.values = k.has filter := by
  unfold Collection.selects has
  congr 1
  funext p
  cases KeyMap.get? k.values p.1 <;> rfl

/-- A new record asks for the same identifier of a ledger and of a store. -/
theorem Ledger.named?_eq (values : Object) : named? values = Store.chosenId? values := by
  unfold named? Store.chosenId? idOf?
  cases hget : KeyMap.get? values idField with
  | none => rfl
  | some v =>
    cases v with
    | string id =>
      by_cases hid : id = ""
      · simp [hid, Json.string?]
      · simp [hid, Json.string?]
    | null | bool | number | array | object => rfl

/-- The stored record is what the ledger keeps, and has identifier and time of creation among its
values. -/
structure Kept.IsOf (k : Kept) (p : String × StoredRecord) : Prop where
  /-- It is kept under the identifier. -/
  id : k.id = p.1
  /-- The values are the same. -/
  values : k.values = p.2.values
  /-- The identifier is among them. -/
  keyed : KeyMap.get? k.values idField = some (.string k.id)
  /-- The time of creation is among them. -/
  created : KeyMap.get? k.values createdAtField = some k.created

theorem Kept.isOf_create (values : Object) (id : String) (now : Json) (number : Nat) :
    (Kept.create values id now).IsOf (id, ⟨number, createdValues values id now⟩) where
  id := rfl
  values := rfl
  keyed := by simp [create, get?_markedValues, idField, createdAtField, updatedAtField]
  created := by simp [create, get?_markedValues, createdAtField, updatedAtField]

/-- An update keeps identifier and time of creation. -/
theorem Kept.IsOf.update {k : Kept} {id : String} {r : StoredRecord} (h : k.IsOf (id, r))
    (incoming : Object) (replace : Bool) (now : Json) :
    (k.update incoming replace now).IsOf
      (id, { r with values := updatedValues r.values incoming id replace now }) where
  id := h.id
  values := by
    have hcreated := h.created
    rw [h.values] at hcreated
    simp only [Kept.update, markedValues, updatedValues, hcreated, h.values, h.id]
  keyed := by simp [Kept.update, get?_markedValues, idField, createdAtField, updatedAtField]
  created := by simp [Kept.update, get?_markedValues, createdAtField, updatedAtField]

/-- What is looked up in the one list is of what is looked up in the other. -/
theorem Kept.rel_find? {ks : List Kept} {rs : List (String × StoredRecord)}
    (h : List.Forall₂ Kept.IsOf ks rs) (id : String) :
    Option.Rel Kept.IsOf (Kept.find? ks id) (rs.find? fun p => p.1 == id) := by
  induction h with
  | nil => exact .none
  | @cons k p ks rs hkp _ ih =>
    unfold Kept.find? at ih ⊢
    rw [List.find?_cons, List.find?_cons, hkp.id]
    cases p.1 == id with
    | true => exact .some hkp
    | false => exact ih

theorem Kept.rel_filter {ks : List Kept} {rs : List (String × StoredRecord)}
    (h : List.Forall₂ Kept.IsOf ks rs) (id : String) :
    List.Forall₂ Kept.IsOf (ks.filter fun k => k.id ≠ id) (rs.filter fun p => p.1 ≠ id) := by
  induction h with
  | nil => exact .nil
  | @cons k p ks rs hkp _ ih =>
    by_cases hp : p.1 = id
    · rw [List.filter_cons_of_neg (by simp [hkp.id, hp]), List.filter_cons_of_neg (by simp [hp])]
      exact ih
    · rw [List.filter_cons_of_pos (by simp [hkp.id, hp]), List.filter_cons_of_pos (by simp [hp])]
      exact .cons hkp ih

/-- The collection has the records that the ledger lists, all created when the database had created
fewer than so many. -/
structure Collection.Shows (c : Collection) (created : Nat) (ks : List Kept) : Prop where
  /-- The identifiers are in order. -/
  sorted : KeyMap.Sorted c
  /-- A record that is created next comes last. -/
  early : ∀ p ∈ c, p.2.number < created
  /-- The records in order are those of the ledger. -/
  listed : ∃ rs, c.Lists rs ∧ List.Forall₂ Kept.IsOf ks rs

namespace Collection.Shows

variable {c : Collection} {created : Nat} {ks : List Kept} {id : String}

theorem nil (created : Nat) : Shows [] created [] :=
  ⟨KeyMap.sorted_nil, fun _ hp => absurd hp List.not_mem_nil, [], Lists.nil, .nil⟩

theorem mono (h : c.Shows created ks) {created' : Nat} (hle : created ≤ created') :
    c.Shows created' ks :=
  ⟨h.sorted, fun p hp => Nat.lt_of_lt_of_le (h.early p hp) hle, h.listed⟩

/-- A record is found in both, or in neither. -/
theorem rel_get? (h : c.Shows created ks) (id : String) :
    Option.Rel (fun k r => Kept.IsOf k (id, r)) (Kept.find? ks id) (KeyMap.get? c id) := by
  obtain ⟨rs, hrs, hks⟩ := h.listed
  rw [hrs.get?_eq h.sorted]
  have hrel := Kept.rel_find? hks id
  generalize Kept.find? ks id = found at hrel ⊢
  cases hfind : rs.find? fun p => p.1 == id with
  | none =>
    rw [hfind] at hrel
    cases hrel
    exact .none
  | some p =>
    have hp : p.1 = id := by simpa using List.find?_some hfind
    rw [hfind] at hrel
    cases hrel with
    | some hkp => exact .some (hp ▸ hkp)

theorem contains_eq (h : c.Shows created ks) (id : String) :
    KeyMap.contains c id = (Kept.find? ks id).isSome := by
  have hrel := h.rel_get? id
  unfold KeyMap.contains
  generalize KeyMap.get? c id = r at hrel
  generalize Kept.find? ks id = k at hrel
  cases hrel <;> rfl

theorem read?_eq (h : c.Shows created ks) (id : String) :
    c.read? id = (Kept.find? ks id).map Kept.values := by
  have hrel := h.rel_get? id
  unfold read?
  generalize KeyMap.get? c id = r at hrel ⊢
  generalize Kept.find? ks id = k at hrel ⊢
  cases hrel with
  | some hk => simp [hk.values]
  | none => rfl

theorem records_eq (h : c.Shows created ks) : c.records = ks.map Kept.values := by
  obtain ⟨rs, hrs, hks⟩ := h.listed
  rw [hrs.records_eq]
  exact forall₂_map_eq hks fun _ _ hkp => hkp.values.symm

theorem query_eq (h : c.Shows created ks) (filter : Object) :
    c.query filter = (ks.filter (Kept.has filter)).map Kept.values := by
  unfold query
  rw [h.records_eq, List.filter_map]
  exact congrArg _ (List.filter_congr fun k _ => Kept.selects_eq_has filter k)

/-- A new record comes last. -/
theorem create (h : c.Shows created ks) (hnew : KeyMap.contains c id = false) (values : Object)
    (now : Json) :
    Shows (KeyMap.insert c id ⟨created, createdValues values id now⟩) (created + 1)
      (ks ++ [Kept.create values id now]) := by
  obtain ⟨rs, hrs, hks⟩ := h.listed
  refine ⟨h.sorted.insert _ _, fun p hp => ?_, _, hrs.insert_new hnew h.early, ?_⟩
  · rcases KeyMap.mem_insert hp with rfl | hp
    · exact Nat.lt_succ_self created
    · exact Nat.lt_succ_of_lt (h.early p hp)
  · exact List.rel_append hks (.cons (Kept.isOf_create values id now created) .nil)

/-- An updated record stays in its place. -/
theorem update (h : c.Shows created ks) {old : StoredRecord} (hget : KeyMap.get? c id = some old)
    (incoming : Object) (replace : Bool) (now : Json) :
    Shows (KeyMap.insert c id
        { old with values := updatedValues old.values incoming id replace now }) created
      (ks.map fun k => if k.id = id then k.update incoming replace now else k) := by
  obtain ⟨rs, hrs, hks⟩ := h.listed
  refine ⟨h.sorted.insert _ _, fun p hp => ?_, _, hrs.insert_changed h.sorted hget
    (fun r => { r with values := updatedValues r.values incoming id replace now })
    (fun _ => rfl), ?_⟩
  · rcases KeyMap.mem_insert hp with rfl | hp
    · exact h.early (id, old) (KeyMap.mem_of_get? hget)
    · exact h.early p hp
  · rw [List.forall₂_map_left_iff, List.forall₂_map_right_iff]
    refine hks.imp fun k p hkp => ?_
    by_cases hp : p.1 = id
    · rw [if_pos (hkp.id.trans hp), if_pos hp]
      rw [← hp]
      exact hkp.update incoming replace now
    · rw [if_neg fun hk => hp (hkp.id.symm.trans hk), if_neg hp]
      exact hkp

/-- A deleted record goes. -/
theorem delete (h : c.Shows created ks) (id : String) :
    Shows (KeyMap.erase c id) created (ks.filter fun k => k.id ≠ id) := by
  obtain ⟨rs, hrs, hks⟩ := h.listed
  exact ⟨h.sorted.erase _, fun p hp => h.early p (KeyMap.mem_of_mem_erase hp), _, hrs.erase id,
    Kept.rel_filter hks id⟩

end Collection.Shows

/-- The database of a number has the records that the ledger lists, and the store goes on as the
ledger does. -/
structure Store.Represents (s : Store) (number : Nat) (l : Ledger) : Prop where
  /-- There is the database. -/
  there : number < s.databases.length
  /-- The identifiers and times are the same. -/
  supply : l.supply = s.supply
  /-- As many identifiers were taken. -/
  ids : l.ids = s.ids
  /-- The clock was read as often. -/
  stamps : l.stamps = s.stamps
  /-- The collections have the records that are listed. -/
  collections : ∀ collection,
    (s.records number collection).Shows (s.database number).created (l.kept collection)

namespace Store.Represents

variable {s : Store} {number : Nat} {l : Ledger}

theorem now_eq (h : s.Represents number l) : l.now = s.nextStamp := by
  unfold Ledger.now nextStamp
  rw [h.supply, h.stamps]

theorem newId_eq (h : s.Represents number l) (values : Object) :
    l.newId values = s.newId values := by
  unfold Ledger.newId newId
  rw [h.supply, h.ids, Ledger.named?_eq]
  cases chosenId? values <;> rfl

/-- One collection is changed in both, and so the others are as they were. -/
theorem change (h : s.Represents number l) {s' : Store} {l' : Ledger} {collection : String}
    {c : Collection} {ks : List Kept} (hsize : s'.databases.length = s.databases.length)
    (hsupply : l'.supply = s'.supply) (hids : l'.ids = s'.ids) (hstamps : l'.stamps = s'.stamps)
    (hcreated : (s.database number).created ≤ (s'.database number).created)
    (hrecords : ∀ collection', s'.records number collection' =
      if number = number ∧ collection = collection' then c else s.records number collection')
    (hkept : l'.kept = Function.update l.kept collection ks)
    (hc : c.Shows (s'.database number).created ks) : s'.Represents number l' where
  there := hsize ▸ h.there
  supply := hsupply
  ids := hids
  stamps := hstamps
  collections collection' := by
    rw [hrecords, hkept]
    by_cases hn : collection = collection'
    · subst hn
      rw [if_pos ⟨rfl, rfl⟩, Function.update_self]
      exact hc
    · rw [if_neg fun hand => hn hand.2, Function.update_of_ne (Ne.symm hn)]
      exact (h.collections collection').mono hcreated

end Store.Represents

end ModelRest
