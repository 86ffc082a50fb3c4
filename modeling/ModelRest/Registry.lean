import ModelRest.Factory

/-!
# Registries

A registry knows the factories of the models that refer to each other: all that were made, by
number, and those that are registered, by the names of their collections in the order in which they
were registered. It also has the validators for every model. A factory whose registry is gone can
still be used, but it finds no other factory any more.
-/

namespace ModelRest

/-- The factories of the models that refer to each other. -/
structure Registry where
  /-- The factories that were made, by number. -/
  made : List Factory := []
  /-- The numbers of those that are registered, by name and in order. -/
  registered : List (String × Nat) := []
  /-- The validators for every model, by tag. -/
  validators : KeyMap Validator := []
  /-- The registry is there. -/
  alive : Bool := true
deriving Inhabited

namespace Registry

/-- A registry with a validator for required values and one for allowed values. -/
def withValidators : Registry where
  validators := KeyMap.ofPairs
    [("required", .required), ("enum", .enumeration)]

/-- The number of the factory of a name. -/
def number? (r : Registry) (name : String) : Option Nat := r.registered.lookup name

/-- The factory of a name. -/
def find? (r : Registry) (name : String) : Option Factory := (r.number? name).bind (r.made[·]?)

/-- A factory of that name is registered. -/
def contains (r : Registry) (name : String) : Bool := (r.number? name).isSome

/-- The names of the registered factories, in order. -/
def names (r : Registry) : List String := r.registered.map Prod.fst

/-- How many factories are registered. -/
def size (r : Registry) : Nat := r.registered.length

/-- The registry with a factory made but not registered; its number is the number of factories made
before. -/
def make (r : Registry) (f : Factory) : Registry := { r with made := r.made ++ [f] }

/-- The registry with a factory changed. -/
def update (r : Registry) (number : Nat) (f : Factory) : Registry :=
  { r with made := r.made.set number f }

/-- Registers a factory under its name. -/
def register (r : Registry) (name : String) (number : Nat) : Except ConfigError Registry :=
  if r.contains name then .error (.duplicateModel name)
  else .ok { r with registered := r.registered ++ [(name, number)] }

/-- The registry with no factory registered. -/
def reset (r : Registry) : Registry := { r with registered := [] }

/-- The registry with a validator for every model, in place of another for the same tag. -/
def registerValidator (r : Registry) (v : Validator) : Registry :=
  { r with validators := KeyMap.insert r.validators v.name v }

/-- The registry is gone. -/
def drop (r : Registry) : Registry := { r with alive := false }

/-! ### As factories see it -/

/-- The validators for every model, which are none when the registry is gone. -/
def sharedValidators (r : Registry) : KeyMap Validator := if r.alive then r.validators else []

/-- The factory of a name, which there must be. -/
def resolve (r : Registry) (name : String) : Except FactoryError Factory :=
  if r.alive then
    match r.find? name with
    | some f => .ok f
    | none => .error (.factoryNotFound name)
  else .error .registryDropped

/-- The factory of the model that a field refers to. -/
def target (r : Registry) (f : Factory) (path : String) : Except FactoryError Factory :=
  match f.target? path with
  | none => .error (.pathNotFound path f.name)
  | some name => r.resolve name

/-- The factory whose records a factory uses: its own, or that of the model it stands for. -/
def source (r : Registry) (f : Factory) : Except ConfigError Factory :=
  match f.link? with
  | none => .ok f
  | some name =>
    match r.resolve name with
    | .ok target => .ok target
    | .error _ => .error (.unknownLinkedFactory f.name name)

/-- Initializes a factory and binds it to the actions of its connector; one that stands for another
model is bound to the actions on that model's collection. -/
def setup (r : Registry) (store : Store) (f : Factory) : Except ConfigError Factory := do
  let source ← r.source f
  let binding ← source.openActions store
  f.init r.sharedValidators binding

end Registry

end ModelRest
