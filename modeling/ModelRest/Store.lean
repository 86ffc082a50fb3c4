import ModelRest.Instance
import ModelRest.Parameters

/-!
# Stores

A store holds databases in memory. A database keeps, for every collection, records under their
identifiers, each with the number of its creation; `Database.records` lists the records of a
collection in the order they were created. A record carries its identifier and the times of its
creation and of its last change among its values, whatever the client says about them.

Identifiers and times come from outside, one after the other (`Supply`), and the store counts how
many it has taken. Nothing is known of them: a clock may show the same time twice, or an earlier one,
and an identifier may be one that a record has. A record that cannot be created takes neither.

Reading is done by `Collection`, which knows nothing of other collections; writing goes through
`Database.setCollection`, which leaves the others as they are.
-/

namespace ModelRest

/-- A record as it is kept. -/
structure StoredRecord where
  /-- How many records the database had created before. -/
  number : Nat
  /-- The values. -/
  values : Object
deriving DecidableEq, Inhabited

/-- The records of one collection, by identifier. -/
abbrev Collection := KeyMap StoredRecord

namespace Collection

/-- The values of the records, in the order they were created. -/
def records (c : Collection) : List Object :=
  ((c.map Prod.snd).mergeSort fun a b => a.number ≤ b.number).map StoredRecord.values

/-- The values of the record of an identifier. -/
def read? (c : Collection) (id : String) : Option Object :=
  (KeyMap.get? c id).map StoredRecord.values

/-- The record has these values in these fields. -/
def selects (filter values : Object) : Bool :=
  filter.all fun p => Json.sameOption (KeyMap.get? values p.1) (some p.2)

/-- The values of the records selected by a filter, in the order they were created. -/
def query (c : Collection) (filter : Object) : List Object := c.records.filter (selects filter)

/-- Another record has this value in this field. -/
def taken (c : Collection) (own : Option String) (field : String) (value : Json) : Bool :=
  c.any fun p =>
    own != some p.1 && Json.sameOption (KeyMap.get? p.2.values field) (some value)

end Collection

/-- The values with an identifier and both times. -/
def createdValues (values : Object) (id : String) (stamp : Json) : Object :=
  KeyMap.insert (KeyMap.insert (KeyMap.insert values idField (.string id)) createdAtField stamp)
    updatedAtField stamp

/-- The values that a record has after it was updated: its own and, over them, the new ones, or the
new ones alone. Identifier and time of creation stay. -/
def updatedValues (old incoming : Object) (id : String) (replace : Bool) (stamp : Json) : Object :=
  let values := if replace then incoming else KeyMap.union old incoming
  let values := KeyMap.insert values idField (.string id)
  let values :=
    match KeyMap.get? old createdAtField with
    | some created => KeyMap.insert values createdAtField created
    | none => values
  KeyMap.insert values updatedAtField stamp

/-! ### Databases -/

/-- A database in memory. -/
structure Database where
  /-- It can be used. -/
  connected : Bool := false
  /-- The collections, by name. -/
  collections : KeyMap Collection := []
  /-- How many records were created. -/
  created : Nat := 0
deriving Inhabited

namespace Database

/-- The records of a collection, which are none if nothing was ever created in it. -/
def collection (d : Database) (name : String) : Collection :=
  (KeyMap.get? d.collections name).getD []

/-- The database with the records of a collection replaced. -/
def setCollection (d : Database) (name : String) (c : Collection) : Database :=
  { d with collections := KeyMap.insert d.collections name c }

/-- The database without any record. -/
def reset (d : Database) : Database := { d with collections := [] }

/-- Replacing the records of a collection leaves every other collection as it is. -/
theorem collection_setCollection (d : Database) (name other : String) (c : Collection) :
    (d.setCollection name c).collection other = if name = other then c else d.collection other := by
  unfold collection setCollection
  rw [KeyMap.get?_insert]
  split <;> rfl

@[simp] theorem collection_reset (d : Database) (name : String) : d.reset.collection name = [] :=
  rfl

end Database

/-! ### Stores -/

/-- What is given to a store from outside: an identifier for every record that is created without
one, and what the clock shows whenever a record is written. -/
structure Supply where
  /-- The identifiers, in the order they are taken. -/
  id : Nat → String := fun n => s!"r{n + 1}"
  /-- What the clock shows, in the order it is read; a clock that stands still if nothing is said. -/
  time : Nat → String := fun _ => "1970-01-01T00:00:00.000Z"
deriving Inhabited

/-- Databases, and what is still to be had from outside. -/
structure Store where
  /-- The identifiers and times. -/
  supply : Supply := {}
  /-- The databases, by number. -/
  databases : List Database := []
  /-- How many identifiers were taken. -/
  ids : Nat := 0
  /-- How often the clock was read. -/
  stamps : Nat := 0
deriving Inhabited

/-- A computation that uses a store and may fail; what it did to the store before it failed stays
done. -/
abbrev StoreM (ε : Type) := EStateM ε Store

namespace Store

/-- The database of a number; a database that there is not has no records. -/
def database (s : Store) (number : Nat) : Database := (s.databases[number]?).getD {}

/-- The store with a database replaced. -/
def setDatabase (s : Store) (number : Nat) (d : Database) : Store :=
  { s with databases := s.databases.set number d }

/-- Replacing a database leaves every other one as it is. -/
theorem database_setDatabase (s : Store) {number : Nat} (other : Nat) (d : Database)
    (h : number < s.databases.length) :
    (s.setDatabase number d).database other = if number = other then d else s.database other := by
  unfold database setDatabase
  rw [List.getElem?_set]
  split <;> simp_all

/-- The store with one more database, and its number. -/
def addDatabase (s : Store) (d : Database) : Store × Nat :=
  ({ s with databases := s.databases ++ [d] }, s.databases.length)

/-- The time at which the next record is written. -/
def nextStamp (s : Store) : Json := .string (s.supply.time s.stamps)

/-- The identifier that a new record asks for. -/
def chosenId? (values : Object) : Option String :=
  match idOf? values with
  | some "" => none
  | id => id

/-- Creates a record, and answers its values. -/
def create (number : Nat) (collection : String) (item : Json) : StoreM String Json := fun s =>
  match item with
  | .object values =>
    let d := s.database number
    let c := d.collection collection
    let (id, ids) :=
      match chosenId? values with
      | some id => (id, s.ids)
      | none => (s.supply.id s.ids, s.ids + 1)
    if KeyMap.contains c id then .error s!"duplicate _id '{id}' in '{collection}'" s
    else
      let values := createdValues values id s.nextStamp
      let c := KeyMap.insert c id { number := d.created, values := values }
      let d := { d.setCollection collection c with created := d.created + 1 }
      .ok (.object values) { s.setDatabase number d with ids := ids, stamps := s.stamps + 1 }
  | _ => .error s!"record for '{collection}' must be a JSON object" s

/-- Updates the record of an identifier, and answers its values, if there is one. -/
def update (number : Nat) (collection id : String) (item : Json) (replace : Bool) :
    StoreM String (Option Json) := fun s =>
  match item with
  | .object incoming =>
    let d := s.database number
    let c := d.collection collection
    match KeyMap.get? c id with
    | some record =>
      let values := updatedValues record.values incoming id replace s.nextStamp
      let c := KeyMap.insert c id { record with values := values }
      .ok (some (.object values))
        { s.setDatabase number (d.setCollection collection c) with stamps := s.stamps + 1 }
    | none => .ok none s
  | _ => .error s!"record for '{collection}' must be a JSON object" s

/-- Deletes the record of an identifier, and answers whether there was one. -/
def delete (number : Nat) (collection id : String) : StoreM String Bool := fun s =>
  let d := s.database number
  let c := d.collection collection
  if KeyMap.contains c id then
    .ok true (s.setDatabase number (d.setCollection collection (KeyMap.erase c id)))
  else .ok false s

/-- The values of the record of an identifier, if there is one. -/
def read (number : Nat) (collection id : String) : StoreM String (Option Json) := fun s =>
  .ok (((s.database number).collection collection).read? id |>.map .object) s

/-- The values of the records selected by a filter, in the order they were created. -/
def query (number : Nat) (collection : String) (filter : Object) : StoreM String (List Json) :=
  fun s => .ok ((((s.database number).collection collection).query filter).map .object) s

end Store

end ModelRest
