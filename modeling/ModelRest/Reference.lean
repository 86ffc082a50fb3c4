import ModelRest.Registry

/-!
# References

A reference is kept as the identifier of the other record. Populating puts the record, or one
property of it, in the place of the identifier; simplifying puts the identifier back.
-/

namespace ModelRest

namespace Reference

/-- The identifier of a populated reference; any other value as it is. -/
def simplifyOne (v : Json) : Json :=
  match v.member? idField with
  | none => v
  | some .null => v
  | some id => id

/-- The identifiers in a reference: of every item of an array, or of the value alone. -/
def simplify : Json → Json
  | .array items => .array (items.map simplifyOne)
  | v => simplifyOne v

/-- A record reduced to its identifier and one property. -/
def project (record : Json) (select : String) : Json :=
  let part (name : String) : List (String × Json) :=
    match record.member? name with
    | some v => [(name, v)]
    | none => []
  .ofMembers (part idField ++ part select)

/-- A record, or one property of it. -/
def selected (record : Json) : Option String → Json
  | some select => project record select
  | none => record

/-- The identifier that a reference holds: a text, or the identifier of a populated reference. -/
def id? : Json → Option String
  | .string id => some id
  | v => (v.member? idField).bind Json.string?

end Reference

/-- Turns a failure of an action into an error of the factory. -/
def liftAction {α : Type} (x : StoreM String α) : StoreM FactoryError α :=
  EStateM.adaptExcept .datastore x

/-- A computation that does not use the store. -/
def liftResult {ε α : Type} : Except ε α → StoreM ε α
  | .ok a => pure a
  | .error e => throw e

namespace Reference

/-- The record in the place of a reference; null where there is no record, and the value as it is
where it holds no identifier. -/
def populateOne (actions : Actions) (select : Option String) (v : Json) :
    StoreM FactoryError Json :=
  match id? v with
  | none => pure v
  | some id => do
    match ← liftAction (actions.read id {}) with
    | some record => pure (selected record select)
    | none => pure .null

/-- The records in the place of a reference: for every item of an array, or for the value alone. -/
def populate (actions : Actions) (select : Option String) : Json → StoreM FactoryError Json
  | .array items => .array <$> items.mapM (populateOne actions select)
  | v => populateOne actions select v

end Reference

namespace Registry

/-- Populates a field of a value, if the request asks for it and the field has a value. -/
def populateField (r : Registry) (f : Factory) (params : Parameters) (item : Json) (key : String) :
    StoreM FactoryError Json :=
  match params.include? key, item with
  | some wanted, .object members =>
    match KeyMap.get? members key with
    | none => pure item
    | some .null => pure item
    | some v => do
      let target ← liftResult (r.target f key)
      let actions ← liftResult target.requireActions
      let populated ← Reference.populate actions wanted.select v
      pure (.object (KeyMap.insert members key populated))
  | _, _ => pure item

/-- Populates several fields of a value, one after the other. -/
def populateFields (r : Registry) (f : Factory) (params : Parameters) (item : Json)
    (keys : List String) : StoreM FactoryError Json :=
  keys.foldlM (r.populateField f params) item

end Registry

namespace Factory

/-- The values with every reference simplified. -/
def simplifyValues (f : Factory) (values : Object) : Object :=
  List.map (fun p =>
    (p.1, if KeyMap.contains f.schema.references p.1 then Reference.simplify p.2 else p.2)) values

/-- A value with every reference simplified, if it is an object. -/
def simplifyReferences (f : Factory) : Json → Json
  | .object values => .object (f.simplifyValues values)
  | v => v

end Factory

end ModelRest
