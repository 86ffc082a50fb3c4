import ModelRest.Proofs.Ledger

/-!
# Databases as ordered lists

Every operation on a database has the answer that it has on the ledger of the database, and leaves
the database and the ledger together, `StoreOperation.refines`; hence so does every sequence of
operations, `StoreOperation.refines_all`.

What a ledger says by its form is then true of the database, `Store.orderly`: the records are in the
order of their creation, a record has the identifier that it is kept under and the time at which it
was created, whatever it was updated with; what fails or finds nothing changes nothing; and no
collection is changed by what is done to another.
-/

namespace ModelRest

/-! ### Every operation -/

/-- The operation has the same answer on the database and on the ledger, and keeps them together. -/
structure StoreOperation.Refines (op : StoreOperation) (number : Nat) (s : Store) (l : Ledger) :
    Prop where
  /-- The answers are the same. -/
  reply : (op.onStore number s).1 = (op.onLedger l).1
  /-- What is left is represented. -/
  left : (op.onStore number s).2.Represents number (op.onLedger l).2

theorem StoreOperation.Refines.of_eq {op : StoreOperation} {number : Nat} {s s' : Store}
    {l l' : Ledger} {reply : Reply} (hs : op.onStore number s = (reply, s'))
    (hl : op.onLedger l = (reply, l'))
    (h : s'.Represents number l') : op.Refines number s l where
  reply := by rw [hs, hl]
  left := by
    rw [hs, hl]
    exact h

namespace Store

/-- A new record makes the database count one more. -/
theorem created_afterCreate {s : Store} {number : Nat} (h : number < s.databases.length)
    (collection : String) (values : Object) :
    ((s.afterCreate number collection values).database number).created =
      (s.database number).created + 1 := by
  have hdatabase := database_setDatabase s number
    { (s.database number).setCollection collection
        (KeyMap.insert (s.records number collection) (s.newId values)
          { number := (s.database number).created,
            values := createdValues values (s.newId values) s.nextStamp })
      with created := (s.database number).created + 1 } h
  rw [if_pos rfl] at hdatabase
  exact congrArg Database.created hdatabase

/-- An identifier is taken for a new record that asks for none. -/
theorem ids_afterCreate (s : Store) (number : Nat) (collection : String) (values : Object) :
    (s.afterCreate number collection values).ids =
      if (chosenId? values).isSome then s.ids else s.ids + 1 := by
  unfold afterCreate
  cases chosenId? values <;> rfl

/-- A record that is put in place of another, or deleted, does not count. -/
theorem created_setCollection {s : Store} {number : Nat} (h : number < s.databases.length)
    (collection : String) (c : Collection) :
    ((s.setDatabase number ((s.database number).setCollection collection c)).database
      number).created = (s.database number).created := by
  rw [database_setDatabase s number _ h, if_pos rfl]
  rfl

end Store

namespace StoreOperation

variable {s : Store} {number : Nat} {l : Ledger}

section Answers

variable (number : Nat) (s : Store) (collection id : String) (values : Object)
  (params : Parameters)

theorem onStore_create : onStore number s (.create collection (.object values) params) =
    Reply.ofAction .created
      (if KeyMap.contains (s.records number collection) (s.newId values) then
        .error s!"duplicate _id '{s.newId values}' in '{collection}'" s
      else .ok (.object (createdValues values (s.newId values) s.nextStamp))
        (s.afterCreate number collection values)) :=
  congrArg (Reply.ofAction .created) (Store.create_object s number collection values)

theorem onStore_update : onStore number s (.update collection id (.object values) params) =
    Reply.ofAction .found
      (match KeyMap.get? (s.records number collection) id with
      | some old =>
        .ok (some (.object
            (updatedValues old.values values id params.deleteMissing s.nextStamp)))
          (s.afterUpdate number collection id
            { old with
              values := updatedValues old.values values id params.deleteMissing s.nextStamp })
      | none => .ok none s) :=
  congrArg (Reply.ofAction .found)
    (Store.update_object s number collection id values params.deleteMissing)

theorem onStore_delete : onStore number s (.delete collection id) =
    Reply.ofAction .deleted
      (if KeyMap.contains (s.records number collection) id then
        .ok true (s.afterDelete number collection id)
      else .ok false s) :=
  congrArg (Reply.ofAction .deleted) (Store.delete_eq s number collection id)

end Answers

theorem refines_query (h : s.Represents number l) (collection : String) (filter : Object)
    (params : Parameters) : (query collection filter params).Refines number s l where
  reply := by
    have hquery := (h.collections collection).query_eq filter
    have hlisted : (((s.records number collection).query filter).map Json.object) =
        ((l.kept collection).filter (Kept.has filter)).map fun k => .object k.values := by
      rw [hquery, List.map_map]
      rfl
    exact congrArg Reply.listed hlisted
  left := h

theorem refines_read (h : s.Represents number l) (collection id : String) (params : Parameters) :
    (read collection id params).Refines number s l where
  reply := by
    have hfound : ((s.records number collection).read? id).map Json.object =
        (Kept.find? (l.kept collection) id).map fun k => .object k.values := by
      rw [(h.collections collection).read?_eq, Option.map_map]
      rfl
    exact congrArg Reply.found hfound
  left := h

theorem refines_create (h : s.Represents number l) (collection : String) (values : Object)
    (params : Parameters) :
    (create collection (.object values) params).Refines number s l := by
  have hshows := h.collections collection
  have hcontains := hshows.contains_eq (s.newId values)
  have hstore := onStore_create number s collection values params
  cases hfind : Kept.find? (l.kept collection) (s.newId values) with
  | some k =>
    have hledger : onLedger l (.create collection (.object values) params) =
        (.refused s!"duplicate _id '{s.newId values}' in '{collection}'", l) := by
      simp only [onLedger, h.newId_eq, hfind]
    rw [hfind, Option.isSome_some] at hcontains
    rw [if_pos hcontains] at hstore
    exact .of_eq hstore hledger h
  | none =>
    have hledger : onLedger l (.create collection (.object values) params) =
        (.created (.object (Kept.create values (s.newId values) s.nextStamp).values),
          { l.put collection
              (l.kept collection ++ [Kept.create values (s.newId values) s.nextStamp])
            with ids := if (Ledger.named? values).isSome then l.ids else l.ids + 1 }) := by
      simp only [onLedger, h.newId_eq, h.now_eq, hfind]
    rw [hfind, Option.isSome_none] at hcontains
    rw [if_neg (by simp [hcontains])] at hstore
    have hcreated := Store.created_afterCreate h.there collection values
    refine .of_eq hstore hledger (h.change List.length_set h.supply ?_ ?_ ?_
      ((Store.put_afterCreate h.there values).records number) rfl ?_)
    · rw [Store.ids_afterCreate, ← h.ids, Ledger.named?_eq]
    · exact congrArg (· + 1) h.stamps
    · rw [hcreated]
      exact Nat.le_succ _
    · rw [hcreated]
      exact hshows.create hcontains values s.nextStamp

theorem refines_update (h : s.Represents number l) (collection id : String) (values : Object)
    (params : Parameters) :
    (update collection id (.object values) params).Refines number s l := by
  have hshows := h.collections collection
  have hrel := hshows.rel_get? id
  have hstore := onStore_update number s collection id values params
  cases hget : KeyMap.get? (s.records number collection) id with
  | none =>
    rw [hget] at hrel hstore
    have hfind : Kept.find? (l.kept collection) id = none := by
      generalize Kept.find? (l.kept collection) id = found at hrel ⊢
      cases hrel
      rfl
    have hledger : onLedger l (.update collection id (.object values) params) =
        (.found none, l) := by
      simp only [onLedger, hfind]
    exact .of_eq hstore hledger h
  | some old =>
    rw [hget] at hrel hstore
    obtain ⟨k, hfind, hk⟩ : ∃ k, Kept.find? (l.kept collection) id = some k ∧ k.IsOf (id, old) := by
      generalize Kept.find? (l.kept collection) id = found at hrel ⊢
      cases hrel with
      | some hk => exact ⟨_, rfl, hk⟩
    have hledger : onLedger l (.update collection id (.object values) params) =
        (.found (some (.object
            (updatedValues old.values values id params.deleteMissing s.nextStamp))),
          l.put collection ((l.kept collection).map fun k =>
            if k.id = id then k.update values params.deleteMissing s.nextStamp else k)) := by
      have hvalues : (k.update values params.deleteMissing s.nextStamp).values =
          updatedValues old.values values id params.deleteMissing s.nextStamp :=
        (hk.update values params.deleteMissing s.nextStamp).values
      simp only [onLedger, h.now_eq, hfind, hvalues]
    have hcreated := Store.created_setCollection h.there collection
      (KeyMap.insert (s.records number collection) id
        { old with values := updatedValues old.values values id params.deleteMissing s.nextStamp })
    refine .of_eq hstore hledger (h.change List.length_set h.supply h.ids ?_
      (Nat.le_of_eq hcreated.symm) ((Store.put_afterUpdate h.there _).records number) rfl ?_)
    · exact congrArg (· + 1) h.stamps
    · have hupdate := hshows.update hget values params.deleteMissing s.nextStamp
      rw [← hcreated] at hupdate
      exact hupdate

theorem refines_delete (h : s.Represents number l) (collection id : String) :
    (delete collection id).Refines number s l := by
  have hshows := h.collections collection
  have hcontains := hshows.contains_eq id
  have hstore := onStore_delete number s collection id
  cases hfind : Kept.find? (l.kept collection) id with
  | none =>
    have hledger : onLedger l (.delete collection id) = (.deleted false, l) := by
      simp only [onLedger, hfind]
    rw [hfind, Option.isSome_none] at hcontains
    rw [if_neg (by simp [hcontains])] at hstore
    exact .of_eq hstore hledger h
  | some k =>
    have hledger : onLedger l (.delete collection id) = (.deleted true,
        { l with
          kept := Function.update l.kept collection
            ((l.kept collection).filter fun k => k.id ≠ id) }) := by
      simp only [onLedger, hfind]
    rw [hfind, Option.isSome_some] at hcontains
    rw [if_pos hcontains] at hstore
    have hcreated := Store.created_setCollection h.there collection
      (KeyMap.erase (s.records number collection) id)
    refine .of_eq hstore hledger (h.change List.length_set h.supply h.ids h.stamps
      (Nat.le_of_eq hcreated.symm) (Store.records_afterDelete h.there number) rfl ?_)
    have hdelete := hshows.delete id
    rw [← hcreated] at hdelete
    exact hdelete

theorem refines_reset (h : s.Represents number l) : reset.Refines number s l where
  reply := rfl
  left := by
    have hdatabase : (s.setDatabase number (s.database number).reset).database number =
        (s.database number).reset := by
      rw [Store.database_setDatabase s number _ h.there, if_pos rfl]
    refine ⟨?_, h.supply, h.ids, h.stamps, fun collection => ?_⟩
    · show number < (s.databases.set number _).length
      rw [List.length_set]
      exact h.there
    · show Collection.Shows (((s.setDatabase number _).database number).collection collection) _ []
      rw [hdatabase, Database.collection_reset]
      exact .nil _

/-- **Every operation** has the same answer on a database and on its ledger, and keeps them
together. -/
theorem refines (h : s.Represents number l) (op : StoreOperation) : op.Refines number s l := by
  cases op with
  | query collection filter params => exact refines_query h collection filter params
  | read collection id params => exact refines_read h collection id params
  | create collection item params =>
    cases item with
    | object values => exact refines_create h collection values params
    | null | bool | number | string | array => exact ⟨rfl, h⟩
  | update collection id item params =>
    cases item with
    | object values => exact refines_update h collection id values params
    | null | bool | number | string | array => exact ⟨rfl, h⟩
  | delete collection id => exact refines_delete h collection id
  | reset => exact refines_reset h

/-! ### Sequences of operations -/

section Sequences

variable {σ : Type} (step : σ → StoreOperation → Reply × σ)

/-- The state after operations. -/
def leaves (s : σ) (ops : List StoreOperation) : σ := ops.foldl (fun s op => (step s op).2) s

/-- What operations answer. -/
def replies : σ → List StoreOperation → List Reply
  | _, [] => []
  | s, op :: ops => (step s op).1 :: replies (step s op).2 ops

theorem leaves_append_singleton (s : σ) (ops : List StoreOperation) (op : StoreOperation) :
    leaves step s (ops ++ [op]) = (step (leaves step s ops) op).2 := by
  simp [leaves]

end Sequences

/-- Operations have the same answers on a database and on its ledger, and keep them together. -/
theorem refines_all (h : s.Represents number l) (ops : List StoreOperation) :
    replies (onStore number) s ops = replies onLedger l ops ∧
      (leaves (onStore number) s ops).Represents number (leaves onLedger l ops) := by
  induction ops generalizing s l with
  | nil => exact ⟨rfl, h⟩
  | cons op ops ih =>
    have hop := refines h op
    obtain ⟨hreplies, hleft⟩ := ih hop.left
    refine ⟨?_, hleft⟩
    unfold replies
    rw [hop.reply, hreplies]

/-! ### Where records come from -/

/-- A record is listed after the records of one collection were replaced. -/
theorem mem_update_iff {kept : String → List Kept} {changed collection : String} {ks : List Kept}
    {k : Kept} : k ∈ Function.update kept changed ks collection ↔
      (collection = changed ∧ k ∈ ks) ∨ (collection ≠ changed ∧ k ∈ kept collection) := by
  by_cases hc : collection = changed
  · subst hc
    simp
  · simp [hc]

/-- The record that a ledger lists after an operation was listed before, and the operation does not
delete it; or the operation is its creation. -/
theorem mem_kept_onLedger {op : StoreOperation} {collection : String} {k : Kept}
    (hk : k ∈ (op.onLedger l).2.kept collection) :
    ((∃ k' ∈ l.kept collection, k'.id = k.id ∧ k'.created = k.created) ∧
        op ≠ .delete collection k.id ∧ op ≠ .reset) ∨
      ∃ values params, op = .create collection (.object values) params ∧
        k.id = l.newId values ∧ k.created = l.now := by
  have hsame : k ∈ l.kept collection →
      ∃ k' ∈ l.kept collection, k'.id = k.id ∧ k'.created = k.created :=
    fun hk => ⟨k, hk, rfl, rfl⟩
  cases op with
  | query | read => exact .inl ⟨hsame hk, by simp, by simp⟩
  | create c item params =>
    cases item with
    | null | bool | number | string | array => exact .inl ⟨hsame hk, by simp, by simp⟩
    | object values =>
      unfold onLedger at hk
      dsimp only at hk
      split at hk
      · exact .inl ⟨hsame hk, by simp, by simp⟩
      · rcases mem_update_iff.mp hk with ⟨rfl, hk⟩ | ⟨-, hk⟩
        · rcases List.mem_append.mp hk with hk | hk
          · exact .inl ⟨hsame hk, by simp, by simp⟩
          · rw [List.mem_singleton.mp hk]
            exact .inr ⟨values, params, rfl, rfl, rfl⟩
        · exact .inl ⟨hsame hk, by simp, by simp⟩
  | update c id item params =>
    refine .inl ⟨?_, by simp, by simp⟩
    cases item with
    | null | bool | number | string | array => exact hsame hk
    | object values =>
      unfold onLedger at hk
      dsimp only at hk
      split at hk
      · exact hsame hk
      · rcases mem_update_iff.mp hk with ⟨rfl, hk⟩ | ⟨-, hk⟩
        · obtain ⟨k', hk', rfl⟩ := List.mem_map.mp hk
          refine ⟨k', hk', ?_⟩
          split <;> exact ⟨rfl, rfl⟩
        · exact hsame hk
  | delete c id =>
    unfold onLedger at hk
    dsimp only at hk
    split at hk
    · rename_i hnone
      refine .inl ⟨hsame hk, fun he => ?_, by simp⟩
      cases he
      exact List.find?_eq_none.mp hnone k hk (beq_self_eq_true k.id)
    · rcases mem_update_iff.mp hk with ⟨rfl, hk⟩ | ⟨hc, hk⟩
      · obtain ⟨hk, hid⟩ := List.mem_filter.mp hk
        refine .inl ⟨hsame hk, fun he => ?_, by simp⟩
        cases he
        simp at hid
      · refine .inl ⟨hsame hk, fun he => ?_, by simp⟩
        cases he
        exact hc rfl
  | reset => cases hk

/-- The record that a ledger lists after operations on an empty one was created by one of them, and
not deleted since. -/
theorem exists_create (hl : ∀ collection, l.kept collection = []) (ops : List StoreOperation)
    {collection : String} {k : Kept} (hk : k ∈ (leaves onLedger l ops).kept collection) :
    ∃ before values params after,
      ops = before ++ .create collection (.object values) params :: after ∧
      (∀ op ∈ after, op ≠ .delete collection k.id ∧ op ≠ .reset) ∧
      k.id = (leaves onLedger l before).newId values ∧
      k.created = (leaves onLedger l before).now := by
  induction ops using List.reverseRecOn generalizing k with
  | nil =>
    rw [show leaves onLedger l [] = l from rfl, hl] at hk
    cases hk
  | append_singleton ops op ih =>
    rw [leaves_append_singleton] at hk
    rcases mem_kept_onLedger hk with ⟨⟨k', hk', hid, hcreated⟩, hkept⟩ | ⟨values, params, rfl, h⟩
    · obtain ⟨before, values, params, after, rfl, hafter, hnew, hnow⟩ := ih hk'
      refine ⟨before, values, params, after ++ [op], by simp, ?_, hid ▸ hnew, hcreated ▸ hnow⟩
      intro op' hop'
      rcases List.mem_append.mp hop' with hop' | hop'
      · exact hid ▸ hafter op' hop'
      · rw [List.mem_singleton.mp hop']
        exact hkept
    · exact ⟨ops, values, params, [], rfl, fun op hop => absurd hop List.not_mem_nil, h⟩

/-! ### What an operation leaves alone -/

/-- What fails, or finds nothing, changes nothing. -/
theorem unchanged_of_isMiss {op : StoreOperation} (h : (op.onStore number s).1.isMiss = true) :
    (op.onStore number s).2 = s := by
  cases op with
  | query => rfl
  | read => rfl
  | create collection item params =>
    cases item with
    | null | bool | number | string | array => rfl
    | object values =>
      rw [onStore_create] at h ⊢
      split at h
      · rename_i hc
        rw [if_pos hc]
        rfl
      · cases h
  | update collection id item params =>
    cases item with
    | null | bool | number | string | array => rfl
    | object values =>
      rw [onStore_update] at h ⊢
      cases hget : KeyMap.get? (s.records number collection) id with
      | none => rfl
      | some old =>
        rw [hget] at h
        cases h
  | delete collection id =>
    rw [onStore_delete] at h ⊢
    split at h
    · cases h
    · rename_i hc
      rw [if_neg hc]
      rfl
  | reset => cases h

/-- An operation leaves the other databases, and the other collections of its own unless it is about
all. -/
theorem records_onStore (h : number < s.databases.length) (op : StoreOperation) {number' : Nat}
    {collection' : String}
    (hother : number' ≠ number ∨ ∃ collection, op.collection? = some collection ∧
      collection ≠ collection') :
    (op.onStore number s).2.records number' collection' = s.records number' collection' := by
  have hne : ∀ collection, op.collection? = some collection →
      ¬(number = number' ∧ collection = collection') := by
    rintro collection hc ⟨rfl, rfl⟩
    rcases hother with hn | ⟨c, hc', hne⟩
    · exact hn rfl
    · rw [hc] at hc'
      exact hne (Option.some.inj hc').symm
  cases op with
  | query => rfl
  | read => rfl
  | create collection item params =>
    cases item with
    | null | bool | number | string | array => rfl
    | object values =>
      rw [onStore_create]
      split
      · rfl
      · exact ((Store.put_afterCreate h values).records number' collection').trans
          (if_neg (hne collection rfl))
  | update collection id item params =>
    cases item with
    | null | bool | number | string | array => rfl
    | object values =>
      rw [onStore_update]
      split
      · exact ((Store.put_afterUpdate h _).records number' collection').trans
          (if_neg (hne collection rfl))
      · rfl
  | delete collection id =>
    rw [onStore_delete]
    split
    · exact (Store.records_afterDelete h number' collection').trans (if_neg (hne collection rfl))
    · rfl
  | reset =>
    rcases hother with hn | ⟨collection, hc, -⟩
    · show ((s.setDatabase number _).database number').collection collection' = _
      rw [Store.database_setDatabase s number' _ h, if_neg (Ne.symm hn)]
      rfl
    · cases hc

end StoreOperation

/-! ### What holds after operations -/

/-- The identifiers that a collection lists are different. -/
theorem Collection.Shows.nodup_ids {c : Collection} {created : Nat} {ks : List Kept}
    (h : c.Shows created ks) : (ks.map Kept.id).Nodup := by
  obtain ⟨rs, hrs, hks⟩ := h.listed
  have hids : rs.map Prod.fst = ks.map Kept.id :=
    forall₂_map_eq hks fun k p hkp => hkp.id.symm
  rw [← hids]
  exact ((hrs.perm.map Prod.fst).nodup_iff).mpr h.sorted.nodup_keys

/-- The records listed with an identifier are the one that is found, if there is one. -/
theorem Kept.filter_eq_find? {ks : List Kept} (h : (ks.map Kept.id).Nodup) (id : String) :
    (ks.filter fun k => k.id == id) = (Kept.find? ks id).toList := by
  induction ks with
  | nil => rfl
  | cons k ks ih =>
    obtain ⟨hk, hks⟩ := List.nodup_cons.mp h
    unfold find? at ih ⊢
    rw [List.filter_cons, List.find?_cons]
    by_cases hid : k.id = id
    · have hnone : (ks.filter fun k => k.id == id) = [] := by
        refine List.filter_eq_nil_iff.mpr fun k' hk' he => hk ?_
        rw [hid, ← beq_iff_eq.mp he]
        exact List.mem_map_of_mem hk'
      simp [hid, hnone]
    · have hne : (k.id == id) = false := by simpa using hid
      simpa [hne] using ih hks

/-- A record that is listed has its identifier among its values. -/
theorem Collection.Shows.keyed {c : Collection} {created : Nat} {ks : List Kept}
    (h : c.Shows created ks) {k : Kept} (hk : k ∈ ks) :
    KeyMap.get? k.values idField = some (.string k.id) := by
  obtain ⟨rs, -, hks⟩ := h.listed
  obtain ⟨p, -, hkp⟩ := exists_right_of_forall₂ hks hk
  exact hkp.keyed

/-- The records with an identifier among their values are the one of that identifier. -/
theorem Collection.Shows.query_id {c : Collection} {created : Nat} {ks : List Kept}
    (h : c.Shows created ks) (id : String) :
    c.query [(idField, .string id)] = (c.read? id).toList := by
  have hhas : ks.filter (Kept.has [(idField, .string id)]) = ks.filter fun k => k.id == id := by
    refine List.filter_congr fun k hk => ?_
    simp [Kept.has, h.keyed hk, Json.same]
  rw [h.query_eq, hhas, Kept.filter_eq_find? h.nodup_ids, h.read?_eq]
  cases Kept.find? ks id <;> rfl

/-- The ledger without records that goes on as the store does. -/
def Ledger.blank (s : Store) : Ledger where
  supply := s.supply
  ids := s.ids
  stamps := s.stamps
  kept _ := []

theorem Store.represents_blank {s : Store} {number : Nat} (h : number < s.databases.length)
    (hempty : ∀ collection, s.records number collection = []) :
    s.Represents number (.blank s) :=
  ⟨h, rfl, rfl, rfl, fun collection => hempty collection ▸ .nil _⟩

open StoreOperation (leaves replies onStore onLedger)

/-- What holds of the database of a number after operations on it. -/
structure Store.Orderly (start : Store) (number : Nat) (ops : List StoreOperation) : Prop where
  /-- The operations have answered what they answer on the ledger. -/
  replies : replies (onStore number) start ops = replies onLedger (.blank start) ops
  /-- A collection has the records of the ledger, in its order. -/
  listed : ∀ collection,
    ((leaves (onStore number) start ops).records number collection).records =
      ((leaves onLedger (.blank start) ops).kept collection).map Kept.values
  /-- A record has the identifier that it is kept under, and the time of the operation that created
  it; none since then has deleted it. -/
  marked : ∀ collection id record,
    KeyMap.get? ((leaves (onStore number) start ops).records number collection) id = some record →
      KeyMap.get? record.values idField = some (.string id) ∧
      ∃ before values params after,
        ops = before ++ .create collection (.object values) params :: after ∧
        (∀ op ∈ after, op ≠ .delete collection id ∧ op ≠ .reset) ∧
        (leaves (onStore number) start before).newId values = id ∧
        KeyMap.get? record.values createdAtField =
          some (leaves (onStore number) start before).nextStamp
  /-- The record of an identifier is the one that is selected by it. -/
  selected : ∀ collection id params params', ∃ found : Option Json,
    ((StoreOperation.read collection id params).onStore number
      (leaves (onStore number) start ops)).1 = .found found ∧
    ((StoreOperation.query collection [(idField, .string id)] params').onStore number
      (leaves (onStore number) start ops)).1 = .listed found.toList
  /-- What fails next, or finds nothing, changes nothing. -/
  missed : ∀ op : StoreOperation,
    (op.onStore number (leaves (onStore number) start ops)).1.isMiss = true →
      (op.onStore number (leaves (onStore number) start ops)).2 = leaves (onStore number) start ops
  /-- What is done next leaves the other databases as they are, and the other collections of its own
  unless it is about all of them. -/
  apart : ∀ (op : StoreOperation) (number' : Nat) (collection' : String),
    (number' ≠ number ∨ ∃ collection, op.collection? = some collection ∧ collection ≠ collection') →
      (op.onStore number (leaves (onStore number) start ops)).2.records number' collection' =
        (leaves (onStore number) start ops).records number' collection'

/-- **A database is an ordered list.** After any operations on a database that had no records, it
has answered as its ledger does and has the records of the ledger, which keep identifier and time of
creation; and no operation changes what it is not about. -/
theorem Store.orderly {start : Store} {number : Nat} (h : number < start.databases.length)
    (hempty : ∀ collection, start.records number collection = []) (ops : List StoreOperation) :
    start.Orderly number ops := by
  have hrun := StoreOperation.refines_all (Store.represents_blank h hempty)
  obtain ⟨hreplies, hleft⟩ := hrun ops
  refine ⟨hreplies, fun collection => (hleft.collections collection).records_eq, ?_, ?_,
    fun op => StoreOperation.unchanged_of_isMiss,
    fun op _ _ => StoreOperation.records_onStore hleft.there op⟩
  · intro collection id record hget
    have hrel := (hleft.collections collection).rel_get? id
    rw [hget] at hrel
    cases hfind : Kept.find? ((leaves onLedger (.blank start) ops).kept collection) id with
    | none =>
      rw [hfind] at hrel
      cases hrel
    | some k =>
      rw [hfind] at hrel
      cases hrel with
      | some hk =>
        have hid : k.id = id := hk.id
        have hvalues : k.values = record.values := hk.values
        obtain ⟨before, values, params, after, rfl, hafter, hnew, hnow⟩ :=
          StoreOperation.exists_create (fun _ => rfl) ops (List.mem_of_find?_eq_some hfind)
        have hbefore := (hrun before).2
        rw [← hvalues]
        refine ⟨hid ▸ hk.keyed, before, values, params, after, rfl, hid ▸ hafter, ?_, ?_⟩
        · rw [← hbefore.newId_eq, ← hnew, hid]
        · rw [hk.created, hnow, hbefore.now_eq]
  · intro collection id params params'
    refine ⟨_, rfl, ?_⟩
    have hquery := (hleft.collections collection).query_id id
    have hlisted : (((leaves (onStore number) start ops).records number collection).query
        [(idField, .string id)]).map Json.object =
        ((((leaves (onStore number) start ops).records number collection).read? id).map
          Json.object).toList := by
      rw [hquery]
      cases ((leaves (onStore number) start ops).records number collection).read? id <;> rfl
    exact congrArg Reply.listed hlisted

namespace Borrowing

/-- A store with a database for what is lent. -/
def store : Store := { databases := [{ connected := true }] }

/-- What a client says about a loan. -/
def loan (id reader : String) : Json :=
  .object [("_createdAt", .string "long ago"), ("_id", .string id), ("reader", .string reader)]

/-- A loan that there is is not created again; one that was deleted comes last when it is. -/
def operations : List StoreOperation :=
  [.create "loans" (loan "b" "Ada") {}, .create "loans" (loan "a" "Ben") {},
    .create "loans" (loan "b" "Cleo") {}, .create "readers" (loan "b" "Dan") {},
    .update "loans" "b" (loan "z" "Eve") {}, .update "loans" "c" (loan "c" "Fay") {},
    .delete "loans" "b", .create "loans" (loan "b" "Gus") {},
    .update "loans" "a" (loan "a" "Hal") { deleteMissing := true }]

/-- The loans are in order after these operations. -/
theorem loans_orderly : (0 < store.databases.length ∧
    ∀ collection, store.records 0 collection = []) ∧ store.Orderly 0 operations :=
  ⟨⟨by decide, fun _ => rfl⟩, Store.orderly (by decide) (fun _ => rfl) operations⟩

example : ((leaves onLedger (.blank store) operations).kept "loans").map
    (fun k => (k.id, KeyMap.get? k.values "reader")) =
      [("a", some (.string "Hal")), ("b", some (.string "Gus"))] := by decide +kernel

end Borrowing

end ModelRest
