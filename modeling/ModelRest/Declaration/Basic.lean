import ModelRest.Json.Basic

/-!
# Declarations of model classes

A model source declares classes, some of them inside namespaces. A class has decorators, perhaps a
superclass, and members: properties with a type and methods. Declarations say what there is; what
they mean for a model is decided when they are compiled.
-/

namespace ModelRest

/-- A decorator applied to a class or a member, with its arguments by position. -/
structure DecoratorCall where
  /-- The decorator's name. -/
  name : String
  /-- The arguments, in order. -/
  args : List Json := []
deriving DecidableEq, Inhabited

/-- Who may see a member. -/
inductive Visibility where
  /-- Everyone. -/
  | pub
  /-- The class and its subclasses. -/
  | prot
  /-- The class alone. -/
  | priv
deriving DecidableEq, Inhabited

/-- What a property is initialized with. -/
inductive Initializer where
  /-- An expression: the property holds data. -/
  | expression
  /-- An inline function: the property is behaviour. -/
  | arrowFunction
deriving DecidableEq, Inhabited

/-- A property of a class. -/
structure PropertyDecl where
  /-- The property's name. -/
  name : String
  /-- The type as it is written, such as `string`, `Date` or `User[]`. -/
  type : String
  /-- Who may see it. -/
  visibility : Visibility := .pub
  /-- What it is initialized with, if anything. -/
  initializer : Option Initializer := none
  /-- The decorators, in order. -/
  decorators : List DecoratorCall := []
deriving DecidableEq, Inhabited

/-- A method of a class. -/
structure MethodDecl where
  /-- The method's name. -/
  name : String
  /-- It belongs to the class and not to its instances. -/
  isStatic : Bool := false
  /-- Who may see it. -/
  visibility : Visibility := .pub
  /-- The decorators, in order. -/
  decorators : List DecoratorCall := []
deriving DecidableEq, Inhabited

/-- A member of a class. -/
inductive MemberDecl where
  /-- A property. -/
  | property (p : PropertyDecl)
  /-- A method. -/
  | method (m : MethodDecl)
deriving DecidableEq, Inhabited

/-- A class. -/
structure ClassDecl where
  /-- The class's name. -/
  name : String
  /-- It can be used outside its source. -/
  exported : Bool := true
  /-- What its author says about it. -/
  documentation : String := ""
  /-- The name of its superclass. -/
  superclass : Option String := none
  /-- The decorators, in order. -/
  decorators : List DecoratorCall := []
  /-- The members, in order. -/
  members : List MemberDecl := []
deriving DecidableEq, Inhabited

/-- What a model source or a namespace declares. -/
inductive SourceItem where
  /-- A class. -/
  | decl (c : ClassDecl)
  /-- A namespace, and what it declares. -/
  | space (name : String) (items : List SourceItem)
deriving Inhabited

/-- A model source. -/
structure SourceFile where
  /-- Where it was read from. -/
  path : String := ""
  /-- What it declares, in order. -/
  items : List SourceItem := []
deriving Inhabited

mutual

/-- The classes an item declares, outside in and in order. -/
def SourceItem.classes : SourceItem → List ClassDecl
  | .decl c => [c]
  | .space _ items => SourceItem.classesOf items

/-- The classes a list of items declares. -/
def SourceItem.classesOf : List SourceItem → List ClassDecl
  | [] => []
  | item :: rest => item.classes ++ SourceItem.classesOf rest

end

/-- The classes a source declares, those of its namespaces included, in order. -/
def SourceFile.classes (file : SourceFile) : List ClassDecl := SourceItem.classesOf file.items

/-! ### Building declarations -/

namespace ClassDecl

/-- An exported class without decorators and members. -/
def named (name : String) : ClassDecl := { name := name }

/-- The class with one more decorator. -/
def decorate (c : ClassDecl) (d : DecoratorCall) : ClassDecl :=
  { c with decorators := c.decorators ++ [d] }

/-- An exported class that is marked as a model. -/
def model (name : String) : ClassDecl := (named name).decorate { name := "model" }

/-- The class with one more member. -/
def addMember (c : ClassDecl) (m : MemberDecl) : ClassDecl := { c with members := c.members ++ [m] }

/-- Whether a decorator of that name is applied to the class. -/
def hasDecorator (c : ClassDecl) (name : String) : Bool := c.decorators.any fun d => d.name == name

end ClassDecl

/-- The source with one more class. -/
def SourceFile.addClass (file : SourceFile) (c : ClassDecl) : SourceFile :=
  { file with items := file.items ++ [.decl c] }

/-- The source with one more namespace. -/
def SourceFile.addSpace (file : SourceFile) (name : String) (items : List SourceItem) :
    SourceFile :=
  { file with items := file.items ++ [.space name items] }

end ModelRest
