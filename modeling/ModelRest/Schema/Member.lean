import ModelRest.Schema.Entry
import ModelRest.Schema.TypeName
import ModelRest.Schema.Lineage
import ModelRest.ModelClass

/-!
# From members to schemas

What each member of a class adds to the schema of a model. A property that was declared before,
higher up in the lineage, keeps the metadata it has and takes over type and number from the later
declaration. A method is called by its name, run as a hook, or serves a route; hooks and routes
count only if the model's class has a function for them.
-/

namespace ModelRest

/-- What names of types stand for. -/
structure TypeContext where
  /-- The collections of the models that are compiled together, by class. -/
  collections : KeyMap String := []
  /-- The names of all registered collections. -/
  registered : List String := []
deriving Inhabited

/-- The collection of the model that a type names: that of a class compiled now, or a registered
one. -/
def TypeContext.collection? (ctx : TypeContext) (type : String) : Option String :=
  (KeyMap.get? ctx.collections type).or
    (if ctx.registered.contains type then some type else none)

/-- Adds a name at the end, if it is not there yet. -/
def pushNew (names : List String) (name : String) : List String :=
  if names.contains name then names else names ++ [name]

/-- The names without one. -/
def without (names : List String) (name : String) : List String := names.filter (· ≠ name)

namespace PropertyDecl

/-- The property is data, and not the class's own affair. -/
def isData (p : PropertyDecl) : Bool :=
  p.visibility != .priv && p.initializer != some .arrowFunction

/-- The collection of the model that the property refers to; nothing for a native type. -/
def target? (ctx : TypeContext) (c : ClassDecl) (p : PropertyDecl) :
    Except ConfigError (Option String) :=
  let element := (TypeName.splitPlural p.type).1
  if TypeName.isNative element then .ok none
  else
    match ctx.collection? element with
    | some collection => .ok (some collection)
    | none => .error (.unresolvedType c.name p.name element)

end PropertyDecl

namespace SchemaEntry

/-- The metadata that a declaration finds: what was there before with what it says itself. -/
def declaredSpec? (before : Option SchemaEntry) (said : Option FieldSpec) : Option FieldSpec :=
  match before.map unwrap, said with
  | some (.field spec), some said => some (spec.merge said)
  | some (.field spec), none => some spec
  | _, said => said

/-- The entry of a property for one value, after a declaration of that element type or, for a
reference, of that target. -/
def declaredElement (before : Option SchemaEntry) (said : Option FieldSpec)
    (target : Option String) (element : String) : SchemaEntry :=
  match declaredSpec? before said, target with
  | some spec, some target => .field (spec.merge (.reference target))
  | some spec, none => .field (spec.merge (.typed element))
  | none, some target => .field (.reference target)
  | none, none => .bare element

/-- The entry of a property after a declaration. -/
def declared (before : Option SchemaEntry) (said : Option FieldSpec) (target : Option String)
    (element : String) (plural : Bool) : SchemaEntry :=
  let entry := declaredElement before said target element
  if plural then entry.toPlural else entry

end SchemaEntry

namespace ModelSchema

/-- The schema after a declaration of a property with this metadata and target. -/
def declare (s : ModelSchema) (name type : String) (said : PropertyMetadata)
    (target : Option String) : ModelSchema :=
  let (element, plural) := TypeName.splitPlural type
  let entry :=
    SchemaEntry.declared (KeyMap.get? s.prototype name) said.spec? target element plural
  { s with
    prototype := KeyMap.insert s.prototype name entry
    plurals := if plural then pushNew s.plurals name else without s.plurals name
    properties := if target.isSome then without s.properties name else pushNew s.properties name
    references := KeyMap.set s.references name
      (target.map fun t => { target := t, reverse := said.reverse }) }

/-- The schema with a property of a class. -/
def addProperty (ctx : TypeContext) (c : ClassDecl) (s : ModelSchema) (p : PropertyDecl) :
    Except ConfigError ModelSchema :=
  if p.isData then do
    let target ← p.target? ctx c
    let said ← propertyMetadata p.decorators
    pure (s.declare p.name p.type said target)
  else .ok s

/-- The schema with a method of a class. -/
def addMethod (cls : ModelClass) (s : ModelSchema) (m : MethodDecl) :
    Except ConfigError ModelSchema := do
  match ← methodRole m.decorators with
  | .hook hook =>
    if KeyMap.contains cls.hooks m.name then
      pure { s with hooks := KeyMap.insert s.hooks hook m.name }
    else pure s
  | .route verb path =>
    if KeyMap.contains cls.routes m.name then
      pure { s with routes := s.routes ++ [{ verb := verb, path := path, handler := m.name }] }
    else pure s
  | .plain =>
    if m.visibility = .priv then pure s
    else if m.isStatic then pure { s with statics := pushNew s.statics m.name }
    else pure { s with methods := pushNew s.methods m.name }

/-- The schema with a member of a class. -/
def addMember (ctx : TypeContext) (cls : ModelClass) (c : ClassDecl) (s : ModelSchema) :
    MemberDecl → Except ConfigError ModelSchema
  | .property p => s.addProperty ctx c p
  | .method m => s.addMethod cls m

/-- The schema with the members of a class, one after the other. -/
def addMembers (ctx : TypeContext) (cls : ModelClass) (s : ModelSchema) (c : ClassDecl) :
    Except ConfigError ModelSchema :=
  c.members.foldlM (addMember ctx cls c) s

/-- The schema of a class: that of every model, with the members of the lineage of the class from
the root down. -/
def ofClass (classes : KeyMap ClassDecl) (ctx : TypeContext) (cls : ModelClass) (c : ClassDecl) :
    Except ConfigError ModelSchema := do
  let lineage ← c.lineage classes
  lineage.foldlM (addMembers ctx cls) initial

end ModelSchema

end ModelRest
