import ModelRest.Proofs.Schemas
import Mathlib.Data.List.Induction
import Mathlib.Data.List.Nodup

/-!
# What the members of a class add up to

The schema of a class is made member by member, from the root of its lineage down. What a member
contributes does not depend on the schema it is added to, so the members can be read first, each by
itself, and put together then: `ofClass_eq`. The fields of the schema come from the declarations of
data among the contributions. A name may be declared many times; what the schema says about it is
said by the last declaration of the name (`get?_references`, `mem_properties_iff`, `mem_plurals_iff`,
`isPlural_of_get?`), but for the target of its entry, which is that of the last declaration as a
reference (`target?_of_get?`).
-/

namespace ModelRest

/-! ### Contributions -/

/-- A declaration of data: a property with what its decorators say and what it refers to. -/
structure Declared where
  /-- The property's name. -/
  name : String
  /-- The type as it is written. -/
  type : String
  /-- What the decorators say. -/
  said : PropertyMetadata
  /-- The collection of the model that the property refers to. -/
  target : Option String
deriving DecidableEq

/-- What a member of a class contributes to a schema. -/
inductive Contribution where
  /-- A property. -/
  | data (d : Declared)
  /-- A hook, and the method that implements it. -/
  | hook (name method : String)
  /-- A route. -/
  | route (r : RouteDecl)
  /-- A method of the class. -/
  | static (name : String)
  /-- A method of instances. -/
  | method (name : String)
  /-- Nothing. -/
  | nothing
deriving DecidableEq

/-- The declaration of data, if it is one. -/
def Contribution.data? : Contribution → Option Declared
  | .data d => some d
  | _ => none

/-- What a property contributes. -/
def PropertyDecl.contribution (ctx : TypeContext) (c : ClassDecl) (p : PropertyDecl) :
    Except ConfigError Contribution :=
  if p.isData then do
    let target ← p.target? ctx c
    let said ← propertyMetadata p.decorators
    pure (.data { name := p.name, type := p.type, said := said, target := target })
  else .ok .nothing

/-- What a method that is for so much contributes. -/
def MethodDecl.contributionAs (cls : ModelClass) (m : MethodDecl) : MethodRole → Contribution
  | .hook hook => if KeyMap.contains cls.hooks m.name then .hook hook m.name else .nothing
  | .route verb path =>
    if KeyMap.contains cls.routes m.name then
      .route { verb := verb, path := path, handler := m.name }
    else .nothing
  | .plain =>
    if m.visibility = .priv then .nothing
    else if m.isStatic then .static m.name
    else .method m.name

/-- What a member contributes. -/
def MemberDecl.contribution (ctx : TypeContext) (cls : ModelClass) (c : ClassDecl) :
    MemberDecl → Except ConfigError Contribution
  | .property p => p.contribution ctx c
  | .method m => (methodRole m.decorators).map (m.contributionAs cls)

/-- The decorators of a declaration of data say nothing about targets. -/
theorem MemberDecl.said_target_of_contribution {ctx : TypeContext} {cls : ModelClass}
    {c : ClassDecl} {m : MemberDecl} {d : Declared}
    (h : m.contribution ctx cls c = .ok (.data d)) : d.said.spec.target = none := by
  cases m with
  | property p =>
    unfold contribution PropertyDecl.contribution at h
    dsimp only at h
    split at h
    · obtain ⟨target, -, h⟩ := andThen_eq_ok_iff.mp h
      obtain ⟨said, hsaid, h⟩ := andThen_eq_ok_iff.mp h
      cases h
      exact propertyMetadata_target hsaid
    · cases h
  | method m =>
    obtain ⟨role, -, h⟩ := map_eq_ok_iff.mp h
    unfold MethodDecl.contributionAs at h
    cases role with
    | hook hook =>
      dsimp only at h
      split at h <;> cases h
    | route verb path =>
      dsimp only at h
      split at h <;> cases h
    | plain =>
      dsimp only at h
      split at h
      · cases h
      · split at h <;> cases h

/-- The members of several classes in order, each with its class. -/
def ClassDecl.membersOf (lineage : List ClassDecl) : List (ClassDecl × MemberDecl) :=
  lineage.flatMap fun c => c.members.map (c, ·)

/-- What the members of the lineage of a class contribute. -/
def ClassDecl.contributions (classes : KeyMap ClassDecl) (ctx : TypeContext) (cls : ModelClass)
    (c : ClassDecl) : Except ConfigError (List Contribution) := do
  let lineage ← c.lineage classes
  (membersOf lineage).mapM fun p => p.2.contribution ctx cls p.1

namespace ModelSchema

/-- The schema with what a declaration of data says. -/
def take (s : ModelSchema) (d : Declared) : ModelSchema := s.declare d.name d.type d.said d.target

/-- The schema with a contribution. -/
def contribute (s : ModelSchema) : Contribution → ModelSchema
  | .data d => s.take d
  | .hook name method => { s with hooks := KeyMap.insert s.hooks name method }
  | .route r => { s with routes := s.routes ++ [r] }
  | .static name => { s with statics := pushNew s.statics name }
  | .method name => { s with methods := pushNew s.methods name }
  | .nothing => s

theorem addMember_eq (ctx : TypeContext) (cls : ModelClass) (c : ClassDecl) (s : ModelSchema)
    (m : MemberDecl) : addMember ctx cls c s m = (m.contribution ctx cls c).map s.contribute := by
  cases m with
  | property p =>
    unfold addMember addProperty MemberDecl.contribution PropertyDecl.contribution
    dsimp only
    by_cases hdata : p.isData = true
    · rw [if_pos hdata, if_pos hdata]
      cases p.target? ctx c with
      | error e => rfl
      | ok target => cases propertyMetadata p.decorators <;> rfl
    · rw [if_neg hdata, if_neg hdata]
      rfl
  | method m =>
    unfold addMember addMethod MemberDecl.contribution
    dsimp only
    cases methodRole m.decorators with
    | error e => rfl
    | ok role =>
      cases role with
      | hook hook =>
        show (if _ then _ else _) = Except.ok (s.contribute (if _ then _ else _))
        split <;> rfl
      | route verb path =>
        show (if _ then _ else _) = Except.ok (s.contribute (if _ then _ else _))
        split <;> rfl
      | plain =>
        show (if _ then _ else if _ then _ else _) =
          Except.ok (s.contribute (if _ then _ else if _ then _ else _))
        split
        · rfl
        · split <;> rfl

/-- The members of a lineage are added one after the other. -/
theorem foldlM_addMembers (ctx : TypeContext) (cls : ModelClass) (lineage : List ClassDecl)
    (s : ModelSchema) : lineage.foldlM (addMembers ctx cls) s =
      (ClassDecl.membersOf lineage).foldlM (fun s p => addMember ctx cls p.1 s p.2) s := by
  induction lineage generalizing s with
  | nil => rfl
  | cons c rest ih =>
    have hc : (ClassDecl.membersOf (c :: rest)) =
        c.members.map (c, ·) ++ ClassDecl.membersOf rest := List.flatMap_cons
    rw [hc, List.foldlM_cons, List.foldlM_append, List.foldlM_map]
    exact bind_congr fun s => ih s

/-- **The schema of a class** is what the members of its lineage contribute, put together. -/
theorem ofClass_eq (classes : KeyMap ClassDecl) (ctx : TypeContext) (cls : ModelClass)
    (c : ClassDecl) : ofClass classes ctx cls c =
      (c.contributions classes ctx cls).map (·.foldl contribute initial) := by
  unfold ofClass ClassDecl.contributions
  cases c.lineage classes with
  | error e => rfl
  | ok lineage =>
    show lineage.foldlM (addMembers ctx cls) initial = _
    rw [foldlM_addMembers]
    exact foldlM_eq_map (fun s p => addMember_eq ctx cls p.1 s p.2) _ _

/-! ### The fields -/

/-- What the schema says about fields. -/
def fieldPart (s : ModelSchema) : ModelSchema :=
  { s with statics := [], methods := [], routes := [], hooks := [] }

/-- What declarations of data say, one after the other. -/
def ofDeclared (ds : List Declared) : ModelSchema := ds.foldl take initial

theorem ofDeclared_append_singleton (ds : List Declared) (d : Declared) :
    ofDeclared (ds ++ [d]) = (ofDeclared ds).take d := by
  simp [ofDeclared]

theorem fieldPart_contribute (s : ModelSchema) (c : Contribution) :
    (s.contribute c).fieldPart = (c.data?.toList).foldl take s.fieldPart := by
  cases c <;> rfl

/-- Only the declarations of data matter to the fields. -/
theorem fieldPart_foldl_contribute (cs : List Contribution) (s : ModelSchema) :
    (cs.foldl contribute s).fieldPart = (cs.filterMap Contribution.data?).foldl take s.fieldPart := by
  induction cs generalizing s with
  | nil => rfl
  | cons c rest ih =>
    rw [List.foldl_cons, ih, fieldPart_contribute]
    cases hc : c.data? with
    | none => rw [List.filterMap_cons_none hc]; rfl
    | some d => rw [List.filterMap_cons_some hc]; rfl

end ModelSchema

/-! ### The last declaration of a name -/

namespace Declared

/-- The type of one value. -/
def element (d : Declared) : String := (TypeName.splitPlural d.type).1

/-- The property holds several values. -/
def isPlural (d : Declared) : Bool := (TypeName.splitPlural d.type).2

/-- The reference that is declared. -/
def reference? (d : Declared) : Option ReferenceInfo :=
  d.target.map fun t => { target := t, reverse := d.said.reverse }

/-- The last declaration of a name. -/
def last? (ds : List Declared) (name : String) : Option Declared :=
  ds.reverse.find? fun d => d.name == name

/-- The target of the last declaration of a name as a reference. -/
def lastTarget? (ds : List Declared) (name : String) : Option String :=
  ds.reverse.findSome? fun d => if d.name = name then d.target else none

@[simp] theorem last?_nil (name : String) : last? [] name = none := rfl

theorem last?_append_singleton (ds : List Declared) (d : Declared) (name : String) :
    last? (ds ++ [d]) name = if d.name = name then some d else last? ds name := by
  simp only [last?, List.reverse_append, List.reverse_singleton, List.singleton_append]
  by_cases h : d.name = name
  · rw [if_pos h, List.find?_cons_of_pos (by simpa using h)]
  · rw [if_neg h, List.find?_cons_of_neg (by simpa using h)]

@[simp] theorem lastTarget?_nil (name : String) : lastTarget? [] name = none := rfl

theorem lastTarget?_append_singleton (ds : List Declared) (d : Declared) (name : String) :
    lastTarget? (ds ++ [d]) name =
      if d.name = name then d.target.or (lastTarget? ds name) else lastTarget? ds name := by
  simp only [lastTarget?, List.reverse_append, List.reverse_singleton, List.singleton_append,
    List.findSome?_cons]
  by_cases h : d.name = name
  · rw [if_pos h, if_pos h]
    cases d.target <;> rfl
  · rw [if_neg h, if_neg h]

/-- A name that is not declared is not declared as a reference. -/
theorem lastTarget?_eq_none {ds : List Declared} {name : String} (h : last? ds name = none) :
    lastTarget? ds name = none := by
  refine List.findSome?_eq_none_iff.mpr fun d hd => if_neg ?_
  simpa using List.find?_eq_none.mp h d hd

/-- The last declaration as a reference is the last one, or that one is none. -/
theorem lastTarget?_of_last? {ds : List Declared} {name : String} {d : Declared}
    (h : last? ds name = some d) :
    lastTarget? ds name = d.target ∨ d.target = none := by
  obtain ⟨hname, before, after, hds, hbefore⟩ := List.find?_eq_some_iff_append.mp h
  cases ht : d.target with
  | none => exact .inr rfl
  | some t =>
    left
    refine List.findSome?_eq_some_iff.mpr ⟨before, d, after, hds, ?_, fun d' hd' => if_neg ?_⟩
    · rw [if_pos (by simpa using hname), ht]
    · simpa using hbefore d' hd'

/-- The name is declared as a reference. -/
theorem isSome_lastTarget? {ds : List Declared} {name : String} :
    (lastTarget? ds name).isSome = true ↔ ∃ d ∈ ds, d.name = name ∧ d.target.isSome = true := by
  unfold lastTarget?
  rw [List.findSome?_isSome_iff]
  refine exists_congr fun d => ?_
  rw [List.mem_reverse]
  by_cases h : d.name = name <;> simp [h]

end Declared

/-! ### Entries -/

namespace SchemaEntry

/-- No array of arrays. -/
def IsFlat (e : SchemaEntry) : Prop := e.unwrap.isPlural = false

theorem isPlural_declaredElement (before : Option SchemaEntry) (said : Option FieldSpec)
    (target : Option String) (element : String) :
    (declaredElement before said target element).isPlural = false := by
  unfold declaredElement
  cases declaredSpec? before said <;> cases target <;> rfl

/-- An entry holds several values exactly if its last declaration says so. -/
theorem isPlural_declared (before : Option SchemaEntry) (said : Option FieldSpec)
    (target : Option String) (element : String) (plural : Bool) :
    (declared before said target element plural).isPlural = plural := by
  have h := isPlural_declaredElement before said target element
  unfold declared
  cases plural with
  | false => exact h
  | true =>
    cases declaredElement before said target element <;> rfl

theorem isFlat_declared (before : Option SchemaEntry) (said : Option FieldSpec)
    (target : Option String) (element : String) (plural : Bool) :
    (declared before said target element plural).IsFlat := by
  have h := isPlural_declaredElement before said target element
  unfold declared IsFlat
  generalize declaredElement before said target element = e at h ⊢
  cases e with
  | plural inner => cases h
  | bare type => cases plural <;> rfl
  | field spec => cases plural <;> rfl

/-- The metadata of a flat entry is that of the entry without the array. -/
theorem target?_eq_of_isFlat {e : SchemaEntry} (he : e.IsFlat) :
    e.target? = match e.unwrap with
      | .field spec => spec.target
      | _ => none := by
  cases e with
  | bare type => rfl
  | field spec => rfl
  | plural inner =>
    cases inner with
    | plural _ => cases he
    | bare type => rfl
    | field spec => rfl

/-- The metadata that a declaration finds has the target of the entry before. -/
theorem target_declaredSpec?_eq {before : Option SchemaEntry} {said : Option FieldSpec}
    (hflat : ∀ e, before = some e → e.IsFlat)
    (hsaid : ∀ spec, said = some spec → spec.target = none) :
    (declaredSpec? before said).bind FieldSpec.target = before.bind target? := by
  cases before with
  | none =>
    show said.bind FieldSpec.target = none
    cases said with
    | none => rfl
    | some spec => exact hsaid spec rfl
  | some e =>
    show _ = e.target?
    rw [target?_eq_of_isFlat (hflat e rfl)]
    unfold declaredSpec?
    rw [Option.map_some]
    cases e.unwrap with
    | field spec =>
      cases said with
      | none => rfl
      | some said =>
        show said.target.or spec.target = spec.target
        rw [hsaid said rfl, Option.none_or]
    | bare type =>
      cases said with
      | none => rfl
      | some said => exact hsaid said rfl
    | plural inner =>
      cases said with
      | none => rfl
      | some said => exact hsaid said rfl

/-- The target of an entry is the declared one, or else the one before. -/
theorem target?_declared_eq {before : Option SchemaEntry} {said : Option FieldSpec}
    (hflat : ∀ e, before = some e → e.IsFlat)
    (hsaid : ∀ spec, said = some spec → spec.target = none) (target : Option String)
    (element : String) (plural : Bool) :
    (declared before said target element plural).target? = target.or (before.bind target?) := by
  cases target with
  | some t => exact target?_declared_some before said t element plural
  | none =>
    have hentry : (declaredElement before said none element).target? = before.bind target? := by
      rw [← target_declaredSpec?_eq hflat hsaid]
      unfold declaredElement
      cases declaredSpec? before said <;> rfl
    rw [Option.none_or, ← hentry]
    unfold declared
    cases plural with
    | true => exact target?_toPlural _
    | false => rfl

end SchemaEntry

/-! ### What the schema says about a name -/

namespace ModelSchema

open Declared (last? lastTarget?)

section Declaration

variable (s : ModelSchema) (d : Declared)

theorem prototype_take : (s.take d).prototype = KeyMap.insert s.prototype d.name
    (SchemaEntry.declared (KeyMap.get? s.prototype d.name) d.said.spec? d.target d.element
      d.isPlural) := rfl

theorem properties_take : (s.take d).properties =
    if d.target.isSome then without s.properties d.name else pushNew s.properties d.name := rfl

theorem plurals_take : (s.take d).plurals =
    if d.isPlural then pushNew s.plurals d.name else without s.plurals d.name := rfl

theorem references_take : (s.take d).references = KeyMap.set s.references d.name d.reference? := rfl

end Declaration

section Names

variable {names : List String} {name other : String}

theorem mem_pushNew : name ∈ pushNew names other ↔ name = other ∨ name ∈ names := by
  unfold pushNew
  split
  · rename_i h
    have hmem : other ∈ names := List.contains_iff_mem.mp h
    refine ⟨.inr, ?_⟩
    rintro (rfl | h)
    · exact hmem
    · exact h
  · rw [List.mem_append, List.mem_singleton, or_comm]

theorem mem_without : name ∈ without names other ↔ name ∈ names ∧ name ≠ other := by
  simp [without]

theorem nodup_pushNew (h : names.Nodup) : (pushNew names name).Nodup := by
  unfold pushNew
  split
  · exact h
  · rename_i hnew
    refine List.nodup_append.mpr ⟨h, List.nodup_singleton name, fun a ha b hb hab => ?_⟩
    rw [List.mem_singleton.mp hb] at hab
    exact hnew (List.contains_iff_mem.mpr (hab ▸ ha))

theorem nodup_without (h : names.Nodup) : (without names name).Nodup := h.filter _

end Names

variable (ds : List Declared) (name : String)

/-- A name is a reference exactly if it was last declared as one. -/
theorem get?_references :
    KeyMap.get? (ofDeclared ds).references name = (last? ds name).bind Declared.reference? := by
  induction ds using List.reverseRecOn with
  | nil => rfl
  | append_singleton ds d ih =>
    rw [ofDeclared_append_singleton, Declared.last?_append_singleton, references_take,
      KeyMap.get?_set, ih]
    split <;> rfl

/-- A name is a property exactly if it was last declared with a native type. -/
theorem mem_properties_iff : name ∈ (ofDeclared ds).properties ↔
    match last? ds name with
    | some d => d.target = none
    | none => name ∈ initial.properties := by
  induction ds using List.reverseRecOn with
  | nil => rfl
  | append_singleton ds d ih =>
    rw [ofDeclared_append_singleton, Declared.last?_append_singleton, properties_take]
    by_cases hn : d.name = name
    · rw [if_pos hn]
      cases ht : d.target with
      | none => simp [mem_pushNew, hn, ht]
      | some t => simp [mem_without, hn, ht]
    · rw [if_neg hn, ← ih]
      split
      · simp [mem_without, Ne.symm hn]
      · simp [mem_pushNew, Ne.symm hn]

/-- A name is listed for several values exactly if it was last declared so. -/
theorem mem_plurals_iff : name ∈ (ofDeclared ds).plurals ↔
    ∃ d, last? ds name = some d ∧ d.isPlural = true := by
  induction ds using List.reverseRecOn with
  | nil => simp [ofDeclared, initial]
  | append_singleton ds d ih =>
    rw [ofDeclared_append_singleton, Declared.last?_append_singleton, plurals_take]
    by_cases hn : d.name = name
    · cases hp : d.isPlural <;> simp [mem_pushNew, mem_without, hn, hp]
    · rw [if_neg hn, ← ih]
      split <;> simp [mem_pushNew, mem_without, Ne.symm hn]

theorem nodup_properties : (ofDeclared ds).properties.Nodup := by
  induction ds using List.reverseRecOn with
  | nil => decide
  | append_singleton ds d ih =>
    rw [ofDeclared_append_singleton, properties_take]
    split
    · exact nodup_without ih
    · exact nodup_pushNew ih

theorem nodup_plurals : (ofDeclared ds).plurals.Nodup := by
  induction ds using List.reverseRecOn with
  | nil => exact List.nodup_nil
  | append_singleton ds d ih =>
    rw [ofDeclared_append_singleton, plurals_take]
    split
    · exact nodup_pushNew ih
    · exact nodup_without ih

theorem sorted_prototype : KeyMap.Sorted (ofDeclared ds).prototype := by
  induction ds using List.reverseRecOn with
  | nil => exact KeyMap.sorted_ofPairs _
  | append_singleton ds d ih =>
    rw [ofDeclared_append_singleton, prototype_take]
    exact ih.insert _ _

theorem sorted_references : KeyMap.Sorted (ofDeclared ds).references := by
  induction ds using List.reverseRecOn with
  | nil => exact KeyMap.sorted_nil
  | append_singleton ds d ih =>
    rw [ofDeclared_append_singleton, references_take]
    cases d.reference? with
    | none => exact ih.erase _
    | some info => exact ih.insert _ _

/-- The entry of a name after one more declaration. -/
theorem get?_prototype_append (d : Declared) :
    KeyMap.get? (ofDeclared (ds ++ [d])).prototype name =
      if d.name = name then some (SchemaEntry.declared
        (KeyMap.get? (ofDeclared ds).prototype name) d.said.spec? d.target d.element d.isPlural)
      else KeyMap.get? (ofDeclared ds).prototype name := by
  rw [ofDeclared_append_singleton, prototype_take, KeyMap.get?_insert]
  split
  · rename_i hn
    rw [hn]
  · rfl

/-- A name has an entry exactly if it was declared, or is one that every model has. -/
theorem contains_prototype : KeyMap.contains (ofDeclared ds).prototype name =
    ((last? ds name).isSome || KeyMap.contains initial.prototype name) := by
  induction ds using List.reverseRecOn with
  | nil => rfl
  | append_singleton ds d ih =>
    unfold KeyMap.contains at ih ⊢
    rw [get?_prototype_append, Declared.last?_append_singleton]
    by_cases hn : d.name = name
    · rw [if_pos hn, if_pos hn]
      rfl
    · rw [if_neg hn, if_neg hn, ih]

variable {ds name} {e : SchemaEntry}

/-- An entry is one for several values exactly if the name was last declared so. -/
theorem isPlural_of_get? (h : KeyMap.get? (ofDeclared ds).prototype name = some e) :
    e.isPlural = true ↔ ∃ d, last? ds name = some d ∧ d.isPlural = true := by
  induction ds using List.reverseRecOn with
  | nil =>
    have hall : ∀ p ∈ initial.prototype, p.2.isPlural = false := by decide
    have hplural : e.isPlural = false := hall _ (KeyMap.mem_of_get? h)
    simp [hplural]
  | append_singleton ds d ih =>
    rw [get?_prototype_append] at h
    rw [Declared.last?_append_singleton]
    split at h
    · rename_i hn
      cases h
      rw [if_pos hn, SchemaEntry.isPlural_declared]
      simp
    · rename_i hn
      rw [if_neg hn]
      exact ih h

theorem isFlat_of_get? (h : KeyMap.get? (ofDeclared ds).prototype name = some e) : e.IsFlat := by
  induction ds using List.reverseRecOn with
  | nil =>
    have hall : ∀ p ∈ initial.prototype, p.2.unwrap.isPlural = false := by decide
    exact hall _ (KeyMap.mem_of_get? h)
  | append_singleton ds d ih =>
    rw [get?_prototype_append] at h
    split at h
    · cases h
      exact SchemaEntry.isFlat_declared ..
    · exact ih h

/-- The target of an entry was said by the last declaration as a reference, even if that is not the
last declaration. -/
theorem target?_of_get? (hsaid : ∀ d ∈ ds, d.said.spec.target = none)
    (h : KeyMap.get? (ofDeclared ds).prototype name = some e) :
    e.target? = lastTarget? ds name := by
  induction ds using List.reverseRecOn generalizing e with
  | nil =>
    have hall : ∀ p ∈ initial.prototype, p.2.target? = none := by decide
    exact hall _ (KeyMap.mem_of_get? h)
  | append_singleton ds d ih =>
    have ih := fun {e} => @ih e fun d hd => hsaid d (List.mem_append_left _ hd)
    have hd : ∀ spec, d.said.spec? = some spec → spec.target = none := fun spec hs =>
      PropertyMetadata.target_of_spec? (hsaid d (by simp)) hs
    rw [get?_prototype_append] at h
    rw [Declared.lastTarget?_append_singleton]
    split at h
    · rename_i hn
      cases h
      rw [if_pos hn, SchemaEntry.target?_declared_eq (fun e he => isFlat_of_get? he) hd]
      congr 1
      cases hbefore : KeyMap.get? (ofDeclared ds).prototype name with
      | some before => exact ih hbefore
      | none =>
        -- a name without an entry was not declared before
        have hc := contains_prototype ds name
        unfold KeyMap.contains at hc
        rw [hbefore, Option.isSome_none, eq_comm, Bool.or_eq_false_iff] at hc
        exact (Declared.lastTarget?_eq_none (Option.isSome_eq_false_iff.mp hc.1 |>
          Option.isNone_iff_eq_none.mp)).symm
    · rename_i hn
      rw [if_neg hn]
      exact ih h

end ModelSchema

end ModelRest
