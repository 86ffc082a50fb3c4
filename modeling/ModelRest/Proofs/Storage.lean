import ModelRest.Connector
import ModelRest.Proofs.KeyMap

/-!
# What actions do to a store

Every action on a collection leaves all other collections as they are, and of its own collection
every record but one. For the actions that write, `Store.Put` says this together with the record that
is there afterwards; `create_object`, `update_object` and `delete_eq` say what each action does and
what it answers.

`Store.Sound` is what holds of every store whose records were all written by these actions: a record
has the identifier under which it is kept, a time of creation and a time of its last change. Nothing
is said of which times these are, so a record that is written again may well be what it was.
-/

namespace ModelRest

/-- A field whose values the store does not write itself. -/
def IsOrdinary (name : String) : Prop :=
  name ≠ idField ∧ name ≠ createdAtField ∧ name ≠ updatedAtField

namespace Store

/-! ### Contents -/

/-- The records of a collection of the database of a number. -/
def records (s : Store) (number : Nat) (collection : String) : Collection :=
  (s.database number).collection collection

/-- The two stores have the same records in every collection, under the same identifiers. -/
def SameRecords (s s' : Store) : Prop := ∀ number collection id,
  KeyMap.get? (s'.records number collection) id = KeyMap.get? (s.records number collection) id

theorem SameRecords.refl (s : Store) : s.SameRecords s := fun _ _ _ => rfl

/-- The second store comes from the first by putting a record into a collection under an
identifier, at the next time that the clock shows. -/
structure Put (s s' : Store) (number : Nat) (collection id : String) (record : StoredRecord) :
    Prop where
  supply : s'.supply = s.supply
  size : s'.databases.length = s.databases.length
  stamps : s'.stamps = s.stamps + 1
  records : ∀ number' collection', s'.records number' collection' =
    if number = number' ∧ collection = collection' then
      KeyMap.insert (s.records number collection) id record
    else s.records number' collection'

variable {s s' : Store} {number : Nat} {collection id : String} {record : StoredRecord}

/-- Replacing the records of one collection of a database leaves all others as they are. -/
theorem records_of_setCollection {d : Database} {c : Collection}
    (hs : s'.databases = s.databases.set number d) (h : number < s.databases.length)
    (hd : d.collections = KeyMap.insert (s.database number).collections collection c)
    (number' : Nat) (collection' : String) :
    s'.records number' collection' =
      if number = number' ∧ collection = collection' then c else s.records number' collection' := by
  have hdb : s'.database number' = if number = number' then d else s.database number' := by
    rw [← database_setDatabase s number' d h]
    unfold database setDatabase
    rw [hs]
  have hcoll : d.collection collection' =
      if collection = collection' then c else s.records number collection' := by
    unfold records
    rw [← Database.collection_setCollection]
    unfold Database.collection Database.setCollection
    rw [hd]
  unfold records
  rw [hdb]
  by_cases hn : number = number'
  · subst hn
    rw [if_pos rfl, hcoll]
    by_cases hc : collection = collection' <;> simp [hc, records]
  · rw [if_neg hn, if_neg fun hand => hn hand.1]

theorem Put.get?_self (h : Put s s' number collection id record) :
    KeyMap.get? (s'.records number collection) id = some record := by
  rw [h.records, if_pos ⟨rfl, rfl⟩, KeyMap.get?_insert_self]

/-- Every other record stays. -/
theorem Put.get?_of_ne (h : Put s s' number collection id record) {number' : Nat}
    {collection' id' : String} (hne : ¬(number = number' ∧ collection = collection' ∧ id = id')) :
    KeyMap.get? (s'.records number' collection') id' =
      KeyMap.get? (s.records number' collection') id' := by
  rw [h.records]
  split
  · rename_i hc
    obtain ⟨rfl, rfl⟩ := hc
    exact KeyMap.get?_insert_of_ne _ _ fun hid => hne ⟨rfl, rfl, hid⟩
  · rfl

/-- Putting a record leaves the records as they are exactly if it was there before. -/
theorem Put.sameRecords_iff (h : Put s s' number collection id record) :
    s.SameRecords s' ↔ KeyMap.get? (s.records number collection) id = some record := by
  refine ⟨fun hsame => (hsame number collection id).symm.trans h.get?_self,
    fun hget number' collection' id' => ?_⟩
  by_cases hplace : number = number' ∧ collection = collection' ∧ id = id'
  · obtain ⟨rfl, rfl, rfl⟩ := hplace
    rw [h.get?_self, hget]
  · exact h.get?_of_ne hplace

/-! ### The actions -/

/-- The identifier of a record that is created with these values. -/
def newId (s : Store) (values : Object) : String :=
  (chosenId? values).getD (s.supply.id s.ids)

/-- The store after a record was created in a collection. -/
def afterCreate (s : Store) (number : Nat) (collection : String) (values : Object) : Store :=
  { s.setDatabase number
      { (s.database number).setCollection collection
          (KeyMap.insert (s.records number collection) (s.newId values)
            { number := (s.database number).created,
              values := createdValues values (s.newId values) s.nextStamp })
        with created := (s.database number).created + 1 } with
    ids :=
      match chosenId? values with
      | some _ => s.ids
      | none => s.ids + 1
    stamps := s.stamps + 1 }

/-- The store after the record of an identifier was updated. -/
def afterUpdate (s : Store) (number : Nat) (collection id : String) (record : StoredRecord) :
    Store :=
  { s.setDatabase number ((s.database number).setCollection collection
      (KeyMap.insert (s.records number collection) id record)) with stamps := s.stamps + 1 }

/-- The store after the record of an identifier was deleted. -/
def afterDelete (s : Store) (number : Nat) (collection id : String) : Store :=
  s.setDatabase number ((s.database number).setCollection collection
    (KeyMap.erase (s.records number collection) id))

theorem create_object (s : Store) (number : Nat) (collection : String) (values : Object) :
    create number collection (.object values) s =
      if KeyMap.contains (s.records number collection) (s.newId values) then
        .error s!"duplicate _id '{s.newId values}' in '{collection}'" s
      else .ok (.object (createdValues values (s.newId values) s.nextStamp))
        (s.afterCreate number collection values) := by
  unfold create afterCreate newId
  simp only
  cases chosenId? values with
  | none => rfl
  | some id => rfl

theorem update_object (s : Store) (number : Nat) (collection id : String) (values : Object)
    (replace : Bool) :
    update number collection id (.object values) replace s =
      match KeyMap.get? (s.records number collection) id with
      | some old => .ok (some (.object (updatedValues old.values values id replace s.nextStamp)))
          (s.afterUpdate number collection id
            { old with values := updatedValues old.values values id replace s.nextStamp })
      | none => .ok none s := by
  rfl

theorem delete_eq (s : Store) (number : Nat) (collection id : String) :
    delete number collection id s =
      if KeyMap.contains (s.records number collection) id then
        .ok true (s.afterDelete number collection id)
      else .ok false s := rfl

theorem put_afterCreate (h : number < s.databases.length) (values : Object) :
    Put s (s.afterCreate number collection values) number collection (s.newId values)
      { number := (s.database number).created,
        values := createdValues values (s.newId values) s.nextStamp } where
  supply := rfl
  size := List.length_set
  stamps := rfl
  records := records_of_setCollection rfl h rfl

theorem put_afterUpdate (h : number < s.databases.length) (record : StoredRecord) :
    Put s (s.afterUpdate number collection id record) number collection id record where
  supply := rfl
  size := List.length_set
  stamps := rfl
  records := records_of_setCollection rfl h rfl

theorem records_afterDelete (h : number < s.databases.length) (number' : Nat)
    (collection' : String) :
    (s.afterDelete number collection id).records number' collection' =
      if number = number' ∧ collection = collection' then
        KeyMap.erase (s.records number collection) id
      else s.records number' collection' :=
  records_of_setCollection rfl h rfl number' collection'

/-- What is left after a deletion was there before. -/
theorem get?_of_afterDelete (h : number < s.databases.length) {number' : Nat}
    {collection' id' : String}
    (hget : KeyMap.get? ((s.afterDelete number collection id).records number' collection') id' =
      some record) : KeyMap.get? (s.records number' collection') id' = some record := by
  rw [records_afterDelete h] at hget
  split at hget
  · rename_i hplace
    obtain ⟨rfl, rfl⟩ := hplace
    rw [KeyMap.get?_erase] at hget
    split at hget
    · cases hget
    · exact hget
  · exact hget

/-! ### Times and identifiers of records -/

theorem get?_createdValues (values : Object) (id : String) (stamp : Json) (field : String) :
    KeyMap.get? (createdValues values id stamp) field =
      if updatedAtField = field then some stamp
      else if createdAtField = field then some stamp
      else if idField = field then some (.string id)
      else KeyMap.get? values field := by
  simp only [createdValues, KeyMap.get?_insert]

theorem get?_updatedValues {old : Object} {created : Json}
    (h : KeyMap.get? old createdAtField = some created) (incoming : Object) (id : String)
    (stamp : Json) (field : String) :
    KeyMap.get? (updatedValues old incoming id true stamp) field =
      if updatedAtField = field then some stamp
      else if createdAtField = field then some created
      else if idField = field then some (.string id)
      else KeyMap.get? incoming field := by
  simp only [updatedValues, h, if_true, KeyMap.get?_insert]

/-- The values of a record kept under an identifier. -/
structure SoundRecord (id : String) (values : Object) : Prop where
  /-- The record has the identifier. -/
  keyed : KeyMap.get? values idField = some (.string id)
  /-- The record has a time of creation. -/
  created : ∃ time, KeyMap.get? values createdAtField = some (.string time)
  /-- The record has a time of its last change. -/
  updated : ∃ time, KeyMap.get? values updatedAtField = some (.string time)

/-- All records are in order. -/
def Sound (s : Store) : Prop := ∀ number collection id record,
  KeyMap.get? (s.records number collection) id = some record → SoundRecord id record.values

theorem SoundRecord.idOf?_eq {id : String} {values : Object} (h : SoundRecord id values) :
    idOf? values = some id := by
  rw [idOf?, h.keyed]
  rfl

theorem soundRecord_created (s : Store) (values : Object) (id : String) :
    SoundRecord id (createdValues values id s.nextStamp) where
  keyed := by simp [get?_createdValues, updatedAtField, createdAtField, idField]
  created := ⟨s.supply.time s.stamps, by simp [get?_createdValues, nextStamp]⟩
  updated := ⟨s.supply.time s.stamps, by simp [get?_createdValues, nextStamp]⟩

theorem SoundRecord.updatedValues {id : String} {old : Object} (h : SoundRecord id old)
    (s : Store) (incoming : Object) :
    SoundRecord id (updatedValues old incoming id true s.nextStamp) := by
  obtain ⟨time, ht⟩ := h.created
  refine ⟨?_, ⟨time, ?_⟩, s.supply.time s.stamps, ?_⟩
  · simp [get?_updatedValues ht, updatedAtField, createdAtField, idField]
  · simp [get?_updatedValues ht, updatedAtField, createdAtField]
  · simp [get?_updatedValues ht, nextStamp]

/-- A record that is updated has the time of the update, and keeps its identifier and the time when
it was created. -/
theorem SoundRecord.get?_updated {id : String} {old : Object} (h : SoundRecord id old)
    (incoming : Object) (stamp : Json) (field : String) :
    KeyMap.get? (ModelRest.updatedValues old incoming id true stamp) field =
      if field = updatedAtField then some stamp
      else if field = createdAtField ∨ field = idField then KeyMap.get? old field
      else KeyMap.get? incoming field := by
  obtain ⟨time, ht⟩ := h.created
  rw [get?_updatedValues ht]
  by_cases hupdated : field = updatedAtField
  · rw [if_pos hupdated.symm, if_pos hupdated]
  · rw [if_neg (Ne.symm hupdated), if_neg hupdated]
    by_cases hcreated : field = createdAtField
    · rw [if_pos hcreated.symm, if_pos (.inl hcreated), hcreated, ht]
    · rw [if_neg (Ne.symm hcreated)]
      by_cases hid : field = idField
      · rw [if_pos hid.symm, if_pos (.inr hid), hid, h.keyed]
      · rw [if_neg (Ne.symm hid), if_neg (not_or_intro hcreated hid)]

theorem Sound.put (hs : s.Sound) (h : Put s s' number collection id record)
    (hr : SoundRecord id record.values) : s'.Sound := by
  intro number' collection' id' record' hget
  by_cases hhere : number = number' ∧ collection = collection' ∧ id = id'
  · obtain ⟨rfl, rfl, rfl⟩ := hhere
    rw [h.get?_self] at hget
    cases hget
    exact hr
  · rw [h.get?_of_ne hhere] at hget
    exact hs _ _ _ _ hget

theorem Sound.afterDelete (hs : s.Sound) (h : number < s.databases.length) :
    (s.afterDelete number collection id).Sound :=
  fun _ _ _ _ hget => hs _ _ _ _ (get?_of_afterDelete h hget)

end Store

end ModelRest
