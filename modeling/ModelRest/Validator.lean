import ModelRest.Field
import ModelRest.Store

/-!
# Validators

A validator looks after one field of an instance: it sees the store, the model and the values of
the instance, and answers what it finds and whether validation goes on. Three validators belong to
the library: `required` and `enumeration` for every model, and `unique` for those that are stored in
a database.
-/

namespace ModelRest

/-- What a validator answers. -/
structure Findings where
  /-- What it found. -/
  diagnoses : List Diagnosis := []
  /-- The validators after it have their turn. -/
  proceed : Bool := true
deriving DecidableEq, Inhabited

/-- A validator. -/
structure Validator where
  /-- The tag of the fields that it looks after. -/
  name : String
  /-- What it answers about a field of an instance of that model with these values. -/
  check : Store → String → Object → Field → Findings
deriving Inhabited

namespace Validator

/-- There is no value: it is absent or null, or an empty array where there should be several. -/
def isMissing (field : Field) : Option Json → Bool
  | none => true
  | some .null => true
  | some (.array items) => field.isPlural && items.isEmpty
  | some _ => false

/-- There must be a value. -/
def required : Validator where
  name := "required"
  check _ _ values field :=
    if isMissing field (KeyMap.get? values field.name) then
      { diagnoses := [.errorAt field.name s!"'{field.name}' is required"] }
    else {}

/-- The values to look at one by one, of a field that may have several. -/
def singleValues (field : Field) : Option Json → List Json
  | none => []
  | some .null => []
  | some (.array items) => if field.isPlural then items else [.array items]
  | some v => [v]

/-- The value is one of the allowed ones. -/
def isAllowed (allowed : List Json) (v : Json) : Bool := allowed.any (Json.same v)

/-- Every value must be one of the allowed ones. -/
def enumeration : Validator where
  name := "enum"
  check _ _ values field :=
    match field.allowed with
    | none => {}
    | some allowed =>
      let bad := (singleValues field (KeyMap.get? values field.name)).filter (!isAllowed allowed ·)
      { diagnoses := bad.map fun v => .errorAt field.name
          ("value " ++ v.render ++ s!" of '{field.name}' is not one of the allowed values") }

/-- No other record of the collection in the database of that number may have the value. -/
def unique (database : Nat) : Validator where
  name := "unique"
  check store model values field :=
    match KeyMap.get? values field.name with
    | none => {}
    | some .null => {}
    | some v =>
      if ((store.database database).collection model).taken (idOf? values) field.name v then
        { diagnoses := [.errorAt field.name
            (s!"'{field.name}' must be unique, " ++ v.render ++ " is already used")] }
      else {}

end Validator

end ModelRest
