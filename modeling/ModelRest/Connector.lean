import ModelRest.Validator

/-!
# Connectors

A connector serves a datasource. Asked for a collection it answers the actions on it, and it may
have validators of its own. The library's own connector keeps records in a database of the store;
any other is a record of functions.
-/

namespace ModelRest

/-- The datasource that models are stored in when nothing else is said. -/
def memoryDatasource : String := "memory"

/-- The actions of a connector from outside on one collection. Each may fail and says why. -/
structure Service where
  /-- The records that a filter selects. -/
  query : Object → Parameters → Except String (List Json)
  /-- The record of an identifier. -/
  read : String → Parameters → Except String (Option Json)
  /-- Creates a record, and answers it as it is kept. -/
  create : Json → Parameters → Except String Json
  /-- Updates the record of an identifier, and answers it as it is kept. -/
  update : String → Json → Parameters → Except String (Option Json)
  /-- Deletes the record of an identifier, and answers whether there was one. -/
  delete : String → Except String Bool

/-- The actions on one collection. -/
inductive Actions where
  /-- Those on a collection of the database of a number. -/
  | memory (database : Nat) (collection : String)
  /-- Those of a connector from outside. -/
  | service (s : Service)

namespace Actions

/-- An action that does not use the store. -/
def outside {α : Type} : Except String α → StoreM String α
  | .ok a => pure a
  | .error cause => throw cause

/-- The records that a filter selects. -/
def query (a : Actions) (filter : Object) (params : Parameters) : StoreM String (List Json) :=
  match a with
  | .memory database collection => Store.query database collection filter
  | .service s => outside (s.query filter params)

/-- The record of an identifier, if there is one. -/
def read (a : Actions) (id : String) (params : Parameters) : StoreM String (Option Json) :=
  match a with
  | .memory database collection => Store.read database collection id
  | .service s => outside (s.read id params)

/-- Creates a record, and answers it as it is kept. -/
def create (a : Actions) (item : Json) (params : Parameters) : StoreM String Json :=
  match a with
  | .memory database collection => Store.create database collection item
  | .service s => outside (s.create item params)

/-- Updates the record of an identifier, and answers it as it is kept, if there is one. -/
def update (a : Actions) (id : String) (item : Json) (params : Parameters) :
    StoreM String (Option Json) :=
  match a with
  | .memory database collection => Store.update database collection id item params.deleteMissing
  | .service s => outside (s.update id item params)

/-- Deletes the record of an identifier, and answers whether there was one. -/
def delete (a : Actions) (id : String) : StoreM String Bool :=
  match a with
  | .memory database collection => Store.delete database collection id
  | .service s => outside (s.delete id)

end Actions

/-- A connector from outside. -/
structure ExternalConnector where
  /-- The datasource that it serves. -/
  datasource : String
  /-- Connects to a datasource. -/
  connect : String → Except String Unit
  /-- It is connected to a datasource. -/
  isConnected : String → Bool
  /-- The actions on a collection of a datasource. -/
  actions : String → String → Except String Service
  /-- Its validator for a tag. -/
  validator? : String → Option Validator

/-- A connector. -/
inductive Connector where
  /-- The one that serves a datasource from the database of a number. -/
  | memory (datasource : String) (database : Nat)
  /-- One from outside. -/
  | external (c : ExternalConnector)

namespace Connector

/-- The datasource that it serves. -/
def datasource : Connector → String
  | .memory datasource _ => datasource
  | .external c => c.datasource

/-- It is connected to a datasource. -/
def isConnected (store : Store) (c : Connector) (datasource : String) : Bool :=
  match c with
  | .memory own database => datasource == own && (store.database database).connected
  | .external c => c.isConnected datasource

/-- Connects to a datasource. -/
def connect (c : Connector) (datasource : String) : StoreM String Unit := fun store =>
  match c with
  | .memory own database =>
    if datasource == own then
      .ok () (store.setDatabase database { store.database database with connected := true })
    else .error s!"memory connector serves '{own}', not '{datasource}'" store
  | .external c =>
    match c.connect datasource with
    | .ok () => .ok () store
    | .error cause => .error cause store

/-- The actions on a collection of a datasource. -/
def actions (store : Store) (c : Connector) (collection datasource : String) :
    Except String Actions :=
  match c with
  | .memory _ database =>
    if c.isConnected store datasource then .ok (.memory database collection)
    else .error s!"datasource '{datasource}' is not connected"
  | .external c => (c.actions collection datasource).map .service

/-- The connector's own validator for a tag. -/
def validator? (c : Connector) (tag : String) : Option Validator :=
  match c with
  | .memory _ database => if tag == "unique" then some (.unique database) else none
  | .external c => c.validator? tag

end Connector

/-- Connectors by the datasources that they serve. -/
abbrev Connectors := KeyMap Connector

namespace Connectors

/-- The connectors with one more, in place of another for the same datasource. -/
def register (cs : Connectors) (c : Connector) : Connectors := KeyMap.insert cs c.datasource c

/-- Connects every connector to its datasource, in the order of the datasources. -/
def connectAll (cs : Connectors) : StoreM String Unit :=
  List.forM cs fun p => p.2.connect p.2.datasource

end Connectors

end ModelRest
