import ModelRest.Schema.Entry
import ModelRest.Diagnosis

/-!
# Instances

An instance is a record of a model in the hands of the program: the name of its collection, its
values, and what the last validation found. Instances have an identity of their own, which a
`Shelf` keeps: several of its places may hold the same instance.
-/

namespace ModelRest

/-- A record of a model in the hands of the program. -/
structure Instance where
  /-- The collection of the model it belongs to. -/
  model : String
  /-- Its values, by field. -/
  values : Object := []
  /-- What was found about it. -/
  diagnoses : List Diagnosis := []
deriving DecidableEq, Inhabited

/-- The identifier among the values of a record, if it is a text. -/
def idOf? (values : Object) : Option String := (KeyMap.get? values idField).bind Json.string?

namespace Instance

/-- The identifier, if it is a text. -/
def id? (i : Instance) : Option String := idOf? i.values

/-- The value of a field. -/
def get? (i : Instance) (field : String) : Option Json := KeyMap.get? i.values field

/-- Whether a field has a value. -/
def contains (i : Instance) (field : String) : Bool := KeyMap.contains i.values field

/-- The instance with a value in a field. -/
def set (i : Instance) (field : String) (value : Json) : Instance :=
  { i with values := KeyMap.insert i.values field value }

/-- The instance without a value in a field. -/
def remove (i : Instance) (field : String) : Instance :=
  { i with values := KeyMap.erase i.values field }

/-- The instance with all its values replaced. -/
def replace (i : Instance) (values : Object) : Instance := { i with values := values }

/-- The instance with one more finding. -/
def diagnose (i : Instance) (d : Diagnosis) : Instance := { i with diagnoses := i.diagnoses ++ [d] }

/-- The instance without findings. -/
def clear (i : Instance) : Instance := { i with diagnoses := [] }

/-- One of the findings is an error. -/
def hasErrors (i : Instance) : Bool := i.diagnoses.any Diagnosis.isError

/-- The value that stands for the instance. -/
def toJson (i : Instance) : Json := .ofMembers
  [("model", .string i.model), ("id", .ofString? i.id?), ("values", .object i.values),
    ("diagnoses", .array (i.diagnoses.map Diagnosis.toJson)), ("hasErrors", .bool i.hasErrors)]

end Instance

/-! ### Identity -/

/-- Named places that hold instances. An instance is known by the number under which it was first
put on the shelf, and places that hold the same number hold the same instance. -/
structure Shelf where
  /-- The instances, by number. -/
  instances : List Instance := []
  /-- The number of the instance at each place. -/
  places : KeyMap Nat := []
deriving Inhabited

namespace Shelf

/-- The number of the instance at a place. -/
def number? (s : Shelf) (place : String) : Option Nat := KeyMap.get? s.places place

/-- The instance at a place. -/
def get? (s : Shelf) (place : String) : Option Instance :=
  (s.number? place).bind (s.instances[·]?)

/-- Puts a new instance at a place. -/
def put (s : Shelf) (place : String) (i : Instance) : Shelf where
  instances := s.instances ++ [i]
  places := KeyMap.insert s.places place s.instances.length

/-- Lets a place hold the instance of a number. -/
def hold (s : Shelf) (place : String) (number : Nat) : Shelf :=
  { s with places := KeyMap.insert s.places place number }

/-- Changes the instance of a number, wherever it is held. -/
def update (s : Shelf) (number : Nat) (i : Instance) : Shelf :=
  { s with instances := s.instances.set number i }

/-- The places that hold the instance of a number, in order. -/
def holders (s : Shelf) (number : Nat) : List String :=
  KeyMap.keys (s.places.filter fun p => p.2 == number)

/-- Whether two places hold the same instance; nothing if the second is empty. -/
def same? (s : Shelf) (place other : String) : Option Bool :=
  (s.number? other).map fun n => s.number? place == some n

end Shelf

end ModelRest
