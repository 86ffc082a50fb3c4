import ModelRest.Reference

/-!
# Instances and records

How instances are made, changed, read from records, written to records and shown. Writing runs the
hook before it, validates, simplifies the references, updates the record or creates one, takes over
the record's values, and runs the hook after it; wherever it stops, the instance stays as it was
then.
-/

namespace ModelRest

/-! ### Changing values -/

namespace Field

/-- The field may be written: it is not protected, or the protection does not count now. -/
def isWritable (f : Field) (hasId : Bool) (params : Parameters) : Bool :=
  (!f.readOnly || params.ignoreReadOnly) && !(hasId && (f.insertOnly || f.immutable))

/-- The value that a field takes from given data. -/
def accept (f : Field) (v : Json) : Json := if f.isReference then Reference.simplify v else v

/-- Changes the value of one field to what is given. An identifier is given once; the times are
taken as they are; any other field follows its protection, and loses its value if nothing is given
and missing values are to be removed. -/
def assign (hasId : Bool) (params : Parameters) (data values : Object) (f : Field) : Object :=
  let given := KeyMap.get? data f.name
  if f.name = idField then
    match given with
    | none => values
    | some .null => values
    | some id => if hasId then values else KeyMap.insert values idField id
  else if f.name = createdAtField ∨ f.name = updatedAtField then
    match given with
    | some v => KeyMap.insert values f.name v
    | none => values
  else if f.isWritable hasId params then
    match given with
    | some v => KeyMap.insert values f.name (f.accept v)
    | none => if params.deleteMissing then KeyMap.erase values f.name else values
  else values

end Field

namespace Factory

/-- Changes the values of an instance to what is given, field by field. -/
def assignAll (f : Factory) (params : Parameters) (data values : Object) : Object :=
  f.fields.foldl (Field.assign (idOf? values).isSome params data) values

/-- Changes the values of an instance to those of an object; any other data changes nothing. -/
def updateValues (f : Factory) (i : Instance) (data : Json) (params : Parameters) : Instance :=
  match data with
  | .object members => i.replace (f.assignAll params members i.values)
  | _ => i

end Factory

/-! ### New instances -/

/-- What a new instance is made from. -/
inductive NewData where
  /-- Nothing. -/
  | empty
  /-- An instance. -/
  | given (i : Instance)
  /-- An identifier. -/
  | identifier (text : String)
  /-- Values. -/
  | values (v : Json)
deriving Inhabited

/-- What a JSON value stands for: a text for an identifier, null for nothing. -/
def NewData.ofJson : Json → NewData
  | .string id => .identifier id
  | .null => .empty
  | v => .values v

/-- An instance asked for. -/
inductive NewInstance where
  /-- The instance that was given. -/
  | given (i : Instance)
  /-- A new one. -/
  | fresh (i : Instance)
deriving Inhabited

/-- The instance, whether it was given or is new. -/
def NewInstance.get : NewInstance → Instance
  | .given i => i
  | .fresh i => i

namespace Factory

/-- A new instance with these values, as far as the model has fields for them. -/
def instanceOf (f : Factory) (data : Json) : Instance :=
  f.updateValues { model := f.name } data { deleteMissing := true }

/-- An instance of this model. -/
def createOwn (f : Factory) : NewData → NewInstance
  | .empty => .fresh { model := f.name }
  | .given i =>
    if i.model = f.name then .given i else .fresh (f.instanceOf (.object i.values))
  | .identifier text => .fresh (f.instanceOf (.ofMembers [(idField, .string text)]))
  | .values v => .fresh (f.instanceOf v)

end Factory

/-- An instance of a model, or of the model of the name that is given. -/
def Registry.createNew (r : Registry) (f : Factory) (data : NewData) (type : Option String) :
    Except FactoryError NewInstance :=
  match type with
  | none => .ok (f.createOwn data)
  | some name =>
    if name = f.name then .ok (f.createOwn data)
    else (r.resolve name).map (·.createOwn data)

/-! ### Reading -/

namespace Factory

/-- The instance of a record, if the record is an object. -/
def ofRecord? (f : Factory) : Json → Option Instance
  | .object values => some { model := f.name, values := values }
  | _ => none

/-- The instances of the records that a filter selects. -/
def fetchAll (f : Factory) (filter : Object) (params : Parameters) :
    StoreM FactoryError (List Instance) := do
  let actions ← liftResult f.requireActions
  let records ← liftAction (actions.query filter params)
  pure (records.filterMap f.ofRecord?)

/-- The instance of the record of an identifier. -/
def fetch (f : Factory) (id : String) (params : Parameters) :
    StoreM FactoryError (Option Instance) := do
  let actions ← liftResult f.requireActions
  let record ← liftAction (actions.read id params)
  pure (record.bind f.ofRecord?)

/-! ### Writing -/

/-- Writes a record: in the place of that of its identifier if there is one, and as a new one
otherwise. -/
def write (actions : Actions) (item : Json) (id : Option String) (params : Parameters) :
    StoreM String Json :=
  match id with
  | none => actions.create item params
  | some id => do
    match ← actions.update id item { params with deleteMissing := true } with
    | some stored => pure stored
    | none => actions.create item params

/-- What became of an instance that was to be written. -/
structure Saved where
  /-- The instance as it is now. -/
  saved : Instance
  /-- Whether it was written. -/
  outcome : Except FactoryError Unit
deriving Inhabited

/-- The instance after its record was written. -/
def finish (f : Factory) (i : Instance) (stored : Json) : Saved :=
  let i :=
    match stored with
    | .object values => i.replace values
    | _ => i
  match f.runHook afterSave i with
  | .error e => { saved := i, outcome := .error e }
  | .ok i => { saved := i, outcome := .ok () }

/-- An instance made ready to be written: the hook before writing has run, and the validation has
left its diagnoses and its verdict. -/
def prepare (f : Factory) (store : Store) (i : Instance) : Saved :=
  match f.runHook beforeSave i with
  | .error e => { saved := i, outcome := .error e }
  | .ok i =>
    let i := f.diagnose store i
    { saved := i, outcome := verdict i }

/-- Writes an instance to its record. -/
def save (f : Factory) (i : Instance) (params : Parameters) (store : Store) : Saved × Store :=
  match f.prepare store i with
  | { saved := i, outcome := .error e } => ({ saved := i, outcome := .error e }, store)
  | { saved := i, outcome := .ok () } =>
    match f.requireActions with
    | .error e => ({ saved := i, outcome := .error e }, store)
    | .ok actions =>
      match write actions (.object (f.simplifyValues i.values)) i.id? params store with
      | .error cause store => ({ saved := i, outcome := .error (.datastore cause) }, store)
      | .ok stored store => (f.finish i stored, store)

/-- Writes an instance to its record, and answers the instance as it is then. -/
def saveInstance (f : Factory) (i : Instance) (params : Parameters) :
    StoreM FactoryError Instance := fun store =>
  match f.save i params store with
  | ({ saved, outcome := .ok () }, store) => .ok saved store
  | ({ outcome := .error e, .. }, store) => .error e store

/-- Deletes the record of an instance, and answers whether there was one. -/
def deleteInstance (f : Factory) (i : Instance) : StoreM FactoryError Bool :=
  match i.id? with
  | none => pure false
  | some id => do
    let actions ← liftResult f.requireActions
    liftAction (actions.delete id)

/-! ### Showing -/

/-- The values of an instance in those of the model's fields that are shown. -/
def visibleValues (f : Factory) (values : Object) : Object :=
  KeyMap.ofPairs ((f.fields.filter (·.isVisible values)).filterMap fun field =>
    (KeyMap.get? values field.name).map (field.name, ·))

end Factory

/-- The value that shows an instance: its visible values, with the references populated that the
request asks for. -/
def Registry.serialize (r : Registry) (f : Factory) (i : Instance) (params : Parameters) :
    StoreM FactoryError Json :=
  r.populateFields f params (.object (f.visibleValues i.values))
    ((f.fields.filter Field.isReference).map Field.name)

end ModelRest
