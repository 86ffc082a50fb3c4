import ModelRest.Proofs.Inheritance
import ModelRest.Web.Endpoint

/-!
# Methods declared again

A method may be declared several times on the way down to a model, and each declaration may be for
something else. What the methods of a schema come to is said of all declarations at once,
`ModelSchema.Takes`: a name is called on the class, or on instances, if any of its declarations says
so; every declaration of a route that the class provides has its own entry; and a hook is the last
method that was declared for it. So the last declaration of a name decides its role exactly if
nothing lingers that an earlier one said, `decided_iff_of_compile`. In particular a route that is
declared again in a subclass is there twice, and the model's routes cannot be bound.
-/

namespace ModelRest

/-! ### Declarations of methods -/

/-- The method that a member is. -/
def MemberDecl.method? : MemberDecl → Option MethodDecl
  | .property _ => none
  | .method m => some m

/-- The methods that several classes declare, in order. -/
def ClassDecl.methodsOf (lineage : List ClassDecl) : List MethodDecl :=
  (membersOf lineage).filterMap fun p => p.2.method?

namespace MethodDecl

/-- The method is called on the class. -/
def IsOfClass (m : MethodDecl) : Prop :=
  methodRole m.decorators = .ok .plain ∧ m.visibility ≠ .priv ∧ m.isStatic = true

/-- The method is called on instances. -/
def IsOfInstances (m : MethodDecl) : Prop :=
  methodRole m.decorators = .ok .plain ∧ m.visibility ≠ .priv ∧ m.isStatic = false

/-- The route that the method serves, if the class provides its handler. -/
def route? (cls : ModelClass) (m : MethodDecl) : Option RouteDecl :=
  match methodRole m.decorators with
  | .ok (.route verb path) =>
    if KeyMap.contains cls.routes m.name then
      some { verb := verb, path := path, handler := m.name }
    else none
  | _ => none

/-- The hook that the method is run as, if the class provides it. -/
def hook? (cls : ModelClass) (m : MethodDecl) : Option String :=
  match methodRole m.decorators with
  | .ok (.hook hook) => if KeyMap.contains cls.hooks m.name then some hook else none
  | _ => none

/-- The declarations of a name. -/
def named (ms : List MethodDecl) (name : String) : List MethodDecl := ms.filter (·.name == name)

/-- The last declaration of a method that is run as a hook. -/
def lastHook? (cls : ModelClass) (ms : List MethodDecl) (hook : String) : Option MethodDecl :=
  (ms.filter fun m => m.hook? cls == some hook).getLast?

variable {cls : ModelClass} {m : MethodDecl} {ms : List MethodDecl} {name : String}

theorem mem_named : m ∈ named ms name ↔ m ∈ ms ∧ m.name = name := by
  simp [named]

theorem handler_of_route? {r : RouteDecl} (h : m.route? cls = some r) :
    r.handler = m.name ∧ methodRole m.decorators = .ok (.route r.verb r.path) ∧
      KeyMap.contains cls.routes r.handler = true := by
  simp only [route?] at h
  split at h
  · rename_i verb path hrole
    split at h <;> cases h
    exact ⟨rfl, hrole, ‹_›⟩
  · cases h

end MethodDecl

/-! ### What they come to -/

namespace ModelSchema

/-- What the schema says about methods is what these declarations say. -/
structure Takes (s : ModelSchema) (cls : ModelClass) (ms : List MethodDecl) : Prop where
  /-- A name is called on the class if some declaration says so. -/
  statics : ∀ name, name ∈ s.statics ↔ ∃ m ∈ ms, m.name = name ∧ m.IsOfClass
  /-- A name is called on instances if some declaration says so. -/
  methods : ∀ name, name ∈ s.methods ↔ ∃ m ∈ ms, m.name = name ∧ m.IsOfInstances
  /-- Every declaration of a route has its entry. -/
  routes : s.routes = ms.filterMap (MethodDecl.route? cls)
  /-- A hook is the last method declared for it. -/
  hooks : ∀ hook, KeyMap.get? s.hooks hook = (MethodDecl.lastHook? cls ms hook).map MethodDecl.name

open MethodDecl

variable {s s' : ModelSchema} {cls : ModelClass} {ms : List MethodDecl}

theorem takes_initial (cls : ModelClass) : initial.Takes cls [] := by
  constructor <;> simp [initial, lastHook?]

theorem lastHook?_append_singleton (m : MethodDecl) (hook : String) :
    lastHook? cls (ms ++ [m]) hook =
      if m.hook? cls = some hook then some m else lastHook? cls ms hook := by
  by_cases h : m.hook? cls = some hook <;> simp [lastHook?, h]

/-- One more declaration, and a schema that says what it says besides. -/
theorem Takes.append {m : MethodDecl} (h : s.Takes cls ms)
    (hstatics : ∀ name, name ∈ s'.statics ↔ name ∈ s.statics ∨ m.name = name ∧ m.IsOfClass)
    (hmethods : ∀ name, name ∈ s'.methods ↔ name ∈ s.methods ∨ m.name = name ∧ m.IsOfInstances)
    (hroutes : s'.routes = s.routes ++ (m.route? cls).toList)
    (hhooks : ∀ hook, KeyMap.get? s'.hooks hook =
      if m.hook? cls = some hook then some m.name else KeyMap.get? s.hooks hook) :
    s'.Takes cls (ms ++ [m]) where
  statics name := by simp [hstatics, h.statics, or_and_right, exists_or]
  methods name := by simp [hmethods, h.methods, or_and_right, exists_or]
  routes := by
    rw [hroutes, h.routes, List.filterMap_append]
    cases hr : m.route? cls <;> simp [hr]
  hooks hook := by
    rw [hhooks, lastHook?_append_singleton, h.hooks]
    split <;> rfl

/-- A method is added as its declaration says. -/
theorem Takes.addMethod (h : s.Takes cls ms) {m : MethodDecl} (hs : s.addMethod cls m = .ok s') :
    s'.Takes cls (ms ++ [m]) := by
  obtain ⟨role, hrole, hs⟩ := andThen_eq_ok_iff.mp hs
  cases role with
  | hook hook =>
    have hof : m.hook? cls = if KeyMap.contains cls.hooks m.name then some hook else none := by
      simp [hook?, hrole]
    dsimp only at hs
    split at hs <;> rename_i hc <;> cases hs
    · have hinsert : ∀ other, KeyMap.get? (KeyMap.insert s.hooks hook m.name) other =
          if hook = other then some m.name else KeyMap.get? s.hooks other := fun other => by
        by_cases hh : hook = other
        · simp [hh]
        · simp [hh, KeyMap.get?_insert_of_ne]
      apply h.append <;> simp [IsOfClass, IsOfInstances, route?, hrole, hof, hc, hinsert]
    · apply h.append <;> simp [IsOfClass, IsOfInstances, route?, hrole, hof, hc]
  | route verb path =>
    dsimp only at hs
    split at hs <;> rename_i hc <;> cases hs <;>
      apply h.append <;> simp [IsOfClass, IsOfInstances, route?, hook?, hrole, hc]
  | plain =>
    have hroute : m.route? cls = none := by simp [route?, hrole]
    have hhook : m.hook? cls = none := by simp [hook?, hrole]
    dsimp only at hs
    split at hs
    · rename_i hpriv
      cases hs
      apply h.append <;> simp [IsOfClass, IsOfInstances, hpriv, hroute, hhook]
    · rename_i hpriv
      split at hs <;> rename_i hstatic <;> cases hs <;>
        apply h.append <;>
        simp [IsOfClass, IsOfInstances, hrole, hpriv, hstatic, hroute, hhook, mem_pushNew, or_comm,
          eq_comm]

/-- A property says nothing about methods. -/
theorem Takes.addProperty (h : s.Takes cls ms) {ctx : TypeContext} {c : ClassDecl}
    {p : PropertyDecl} (hs : s.addProperty ctx c p = .ok s') : s'.Takes cls ms := by
  unfold ModelSchema.addProperty at hs
  split at hs
  · obtain ⟨target, -, hs⟩ := andThen_eq_ok_iff.mp hs
    obtain ⟨said, -, hs⟩ := andThen_eq_ok_iff.mp hs
    cases hs
    exact ⟨h.statics, h.methods, h.routes, h.hooks⟩
  · cases hs
    exact h

/-- **One more member.** -/
theorem Takes.addMember (h : s.Takes cls ms) {ctx : TypeContext} {c : ClassDecl} {m : MemberDecl}
    (hs : s.addMember ctx cls c m = .ok s') : s'.Takes cls (ms ++ m.method?.toList) := by
  cases m with
  | property p => simpa [MemberDecl.method?] using h.addProperty hs
  | method m => exact h.addMethod hs

/-- What many members come to. -/
theorem Takes.foldlM_addMember {ctx : TypeContext} {members : List (ClassDecl × MemberDecl)}
    (h : s.Takes cls ms)
    (hs : members.foldlM (fun s p => ModelSchema.addMember ctx cls p.1 s p.2) s = .ok s') :
    s'.Takes cls (ms ++ members.filterMap fun p => p.2.method?) := by
  induction members generalizing s ms with
  | nil =>
    cases hs
    simpa using h
  | cons p members ih =>
    rw [List.foldlM_cons] at hs
    obtain ⟨s₁, hs₁, hs⟩ := andThen_eq_ok_iff.mp hs
    have hrest := ih (h.addMember hs₁) hs
    cases hm : p.2.method? <;> simpa [hm] using hrest

/-- **What the methods of a class come to.** -/
theorem takes_ofClass {classes : KeyMap ClassDecl} {ctx : TypeContext} {c : ClassDecl}
    (hs : ofClass classes ctx cls c = .ok s) :
    ∃ way, c.Ascends classes way none ∧
      s.Takes cls (ClassDecl.methodsOf (c :: way).reverse) := by
  obtain ⟨lineage, hlineage, hs⟩ := andThen_eq_ok_iff.mp hs
  obtain ⟨way, ha, rfl, -⟩ := ClassDecl.exists_ascends_of_lineageAmong hlineage
  rw [foldlM_addMembers] at hs
  exact ⟨way, ha, (takes_initial cls).foldlM_addMember hs⟩

/-- A route of the schema of a class is one that a method declares and the class provides. -/
theorem exists_route?_of_ofClass {classes : KeyMap ClassDecl} {ctx : TypeContext} {c : ClassDecl}
    (hs : ofClass classes ctx cls c = .ok s) {r : RouteDecl} (hr : r ∈ s.routes) :
    ∃ m : MethodDecl, m.route? cls = some r := by
  obtain ⟨way, -, htakes⟩ := takes_ofClass hs
  rw [htakes.routes, List.mem_filterMap] at hr
  obtain ⟨m, -, hm⟩ := hr
  exact ⟨m, hm⟩

/-! ### The last declaration of a name -/

/-- The declaration decides what its name is for. -/
structure DecidedBy (s : ModelSchema) (cls : ModelClass) (d : MethodDecl) : Prop where
  /-- The name is called on the class exactly if the declaration says so. -/
  statics : d.name ∈ s.statics ↔ d.IsOfClass
  /-- The name is called on instances exactly if the declaration says so. -/
  methods : d.name ∈ s.methods ↔ d.IsOfInstances
  /-- The name serves the route of the declaration, and no other. -/
  routes : (s.routes.filter fun r => r.handler == d.name) = (d.route? cls).toList
  /-- The name is run only as the hook of the declaration. -/
  hooks : ∀ hook, KeyMap.get? s.hooks hook = some d.name →
    methodRole d.decorators = .ok (.hook hook)

/-- Something lingers that an earlier declaration of the name says, and that the last one does not
say. -/
inductive Lingers (cls : ModelClass) (ms : List MethodDecl) (d : MethodDecl) : Prop where
  /-- The name was declared as a method of the class. -/
  | onClass (e : MethodDecl) (he : e ∈ named ms d.name) (hof : e.IsOfClass) (hd : ¬ d.IsOfClass)
  /-- The name was declared as a method of instances. -/
  | onInstances (e : MethodDecl) (he : e ∈ named ms d.name) (hof : e.IsOfInstances)
      (hd : ¬ d.IsOfInstances)
  /-- The name was declared as a route, the same or another. -/
  | route (e : MethodDecl) (he : e ∈ (named ms d.name).dropLast)
      (hr : (e.route? cls).isSome = true)
  /-- The name was declared as a hook, and no other method was afterwards. -/
  | hook (hook : String) (e : MethodDecl) (he : lastHook? cls ms hook = some e)
      (hn : e.name = d.name) (hd : methodRole d.decorators ≠ .ok (.hook hook))

/-- The routes that a name serves are those of its declarations. -/
theorem Takes.filter_routes (h : s.Takes cls ms) (name : String) :
    (s.routes.filter fun r => r.handler == name) = (named ms name).filterMap (route? cls) := by
  rw [h.routes, named]
  clear h
  induction ms with
  | nil => rfl
  | cons m ms ih =>
    cases hr : m.route? cls with
    | none =>
      rw [List.filterMap_cons_none hr, ih, List.filter_cons]
      split
      · rw [List.filterMap_cons_none hr]
      · rfl
    | some r =>
      rw [List.filterMap_cons_some hr, List.filter_cons, List.filter_cons, ih,
        (handler_of_route? hr).1]
      split
      · rw [List.filterMap_cons_some hr]
      · rfl

/-- **The last declaration of a name decides** what the name is for exactly if nothing lingers. -/
theorem Takes.decidedBy_iff (h : s.Takes cls ms) {d : MethodDecl}
    (hd : (named ms d.name).getLast? = some d) : s.DecidedBy cls d ↔ ¬ Lingers cls ms d := by
  have hmem : d ∈ ms := (mem_named.mp (List.mem_of_getLast? hd)).1
  have hroutes : (s.routes.filter fun r => r.handler == d.name) =
      (named ms d.name).dropLast.filterMap (route? cls) ++ (d.route? cls).toList := by
    rw [h.filter_routes, ← List.dropLast_append_getLast? d hd, List.filterMap_append,
      List.dropLast_concat]
    cases hr : d.route? cls <;> simp [hr]
  constructor
  · rintro hs (⟨e, he, hof, hd⟩ | ⟨e, he, hof, hd⟩ | ⟨e, he, hr⟩ | ⟨hook, e, he, hn, hd⟩)
    · obtain ⟨hms, hn⟩ := mem_named.mp he
      exact hd (hs.statics.mp ((h.statics _).mpr ⟨e, hms, hn, hof⟩))
    · obtain ⟨hms, hn⟩ := mem_named.mp he
      exact hd (hs.methods.mp ((h.methods _).mpr ⟨e, hms, hn, hof⟩))
    · have hnone : (named ms d.name).dropLast.filterMap (route? cls) = [] := by
        simpa [hroutes] using hs.routes
      simp [List.filterMap_eq_nil_iff.mp hnone e he] at hr
    · apply hd
      apply hs.hooks
      rw [h.hooks, he, Option.map_some, hn]
  · intro hno
    constructor
    case statics =>
      rw [h.statics]
      constructor
      · rintro ⟨e, he, hn, hof⟩
        by_contra hd
        exact hno (.onClass e (mem_named.mpr ⟨he, hn⟩) hof hd)
      · exact fun hof => ⟨d, hmem, rfl, hof⟩
    case methods =>
      rw [h.methods]
      constructor
      · rintro ⟨e, he, hn, hof⟩
        by_contra hd
        exact hno (.onInstances e (mem_named.mpr ⟨he, hn⟩) hof hd)
      · exact fun hof => ⟨d, hmem, rfl, hof⟩
    case routes =>
      have hnone : (named ms d.name).dropLast.filterMap (route? cls) = [] := by
        rw [List.filterMap_eq_nil_iff]
        intro e he
        by_contra hr
        exact hno (.route e he (Option.isSome_iff_ne_none.mpr hr))
      rw [hroutes, hnone, List.nil_append]
    case hooks =>
      intro hook hget
      rw [h.hooks, Option.map_eq_some_iff] at hget
      obtain ⟨e, he, hn⟩ := hget
      by_contra hd
      exact hno (.hook hook e he hn hd)

end ModelSchema

/-! ### Compiled models -/

/-- Compiling gives a marked model that is not linked a factory with the schema of its class. -/
theorem exists_ofClass_of_compile {connectors : Connectors} {defaultDatasource : String}
    {loaded : LoadedSources} {r r' : Registry} {numbers : List Nat}
    (h : compile connectors defaultDatasource loaded r = .ok numbers r') {k : MarkedModel}
    (hk : k ∈ loaded.marked) (hl : k.said.linked = none) :
    ∃ number ∈ numbers, ∃ f s ctx, r'.made[number]? = some f ∧ f.name = k.said.collection ∧
      f.cls = k.model.cls ∧ f.isLinked = false ∧ f.schema? = some s ∧
      ModelSchema.ofClass loaded.classes ctx k.model.cls k.model.decl = .ok s := by
  obtain ⟨drafts, hdrafts, -, fs, hfs, rfl, rfl⟩ := compile_eq_ok_iff.mp h
  obtain ⟨d, hd, hdraft⟩ := Draft.exists_isOf hdrafts hk
  obtain ⟨i, hi, rfl⟩ := List.getElem_of_mem hd
  have hif : i < fs.length := by rwa [← hfs.length_eq]
  have hfin := hfs.get hi hif
  rw [List.get_eq_getElem, List.get_eq_getElem] at hfin
  have hmade : (r.extend fs).made[r.made.length + i]? = some fs[i] :=
    (r.getElem?_made_extend fs i).trans (List.getElem?_eq_getElem hif)
  obtain ⟨hname, hcls, -⟩ := Enrolled.factoryOf_agrees hdraft.factory
  have hlinked : fs[i].isLinked = false := by
    rw [hfin.agrees]
    exact hdraft.isLinked_eq_false_iff.mpr hl
  obtain ⟨s, hs⟩ := hfin.exists_schema?
  have hof := hfin.ofClass hs hlinked
  have hclass : fs[i].cls = k.model.cls := by
    rw [hfin.agrees]
    exact hcls
  rw [hdraft.decl, hclass] at hof
  refine ⟨r.made.length + i, List.mem_range'.mpr ⟨i, hi, by omega⟩, fs[i], s, _, hmade, ?_, hclass,
    hlinked, hs, hof⟩
  rw [hfin.agrees]
  exact hname

open MethodDecl in
/-- **Methods declared again.** Compiling gives every marked model that is not linked a factory with
a schema, whose methods are what all declarations on the way up come to. The last declaration of a
name decides what the name is for exactly if nothing lingers that an earlier one said. -/
theorem decided_iff_of_compile {connectors : Connectors} {defaultDatasource : String}
    {loaded : LoadedSources} {r r' : Registry} {numbers : List Nat}
    (h : compile connectors defaultDatasource loaded r = .ok numbers r') {k : MarkedModel}
    (hk : k ∈ loaded.marked) (hl : k.said.linked = none) :
    ∃ number ∈ numbers, ∃ f s way, r'.made[number]? = some f ∧ f.name = k.said.collection ∧
      f.schema? = some s ∧ k.model.decl.Ascends loaded.classes way none ∧
      s.Takes k.model.cls (ClassDecl.methodsOf (k.model.decl :: way).reverse) ∧
      ∀ d, (named (ClassDecl.methodsOf (k.model.decl :: way).reverse) d.name).getLast? = some d →
        (s.DecidedBy k.model.cls d ↔
          ¬ ModelSchema.Lingers k.model.cls
            (ClassDecl.methodsOf (k.model.decl :: way).reverse) d) := by
  obtain ⟨number, hn, f, s, ctx, hmade, hname, -, -, hs, hof⟩ := exists_ofClass_of_compile h hk hl
  obtain ⟨way, ha, htakes⟩ := ModelSchema.takes_ofClass hof
  exact ⟨number, hn, f, s, way, hmade, hname, hs, ha, htakes, fun d hd => htakes.decidedBy_iff hd⟩

namespace Counting

/-- How many there are, as a route. -/
def count : MethodDecl where
  name := "count"
  isStatic := true
  decorators := [{ name := "route", args := [.string "get", .string "/count"] }]

/-- Items are counted. -/
def item : ClassDecl := { ClassDecl.model "Item" with members := [.method count] }

/-- Books are items, and are counted in their own way. -/
def book : ClassDecl :=
  { ClassDecl.model "Book" with superclass := some "Item", members := [.method count] }

/-- A class that provides the handler. -/
def counted (name : String) : ModelClass :=
  { ModelClass.plain name with routes := [("count", fun _ => .ok .null)] }

/-- The loaded models. -/
def loaded : LoadedSources where
  classes := [("Book", book), ("Item", item)]
  models := [item, book].map fun c => { decl := c, cls := counted c.name, source := "stock" }

/-- Where the models are stored. -/
def connectors : Connectors := [(memoryDatasource, .memory memoryDatasource 0)]

/-- The registry with the compiled models. -/
def registry : Registry := stateLeft (compile connectors memoryDatasource loaded {})

/-- Books, with what their mark says. -/
def books : MarkedModel where
  model := { decl := book, cls := counted "Book", source := "stock" }
  said := { collection := "Book" }

theorem compiled : compile connectors memoryDatasource loaded {} = .ok [0, 1] registry :=
  answer?_eq_some_iff.mp (by decide +kernel)

theorem books_marked : books ∈ loaded.marked := by
  have hsaid : classMetadata? book = .ok (some books.said) := by decide +kernel
  refine List.mem_filterMap.mpr ⟨books.model, List.mem_cons_of_mem _ (List.mem_cons_self ..), ?_⟩
  unfold LoadedModel.marked?
  rw [show books.model.decl = book from rfl, hsaid]

open MethodDecl in
/-- The methods of books are what items and books declare. -/
theorem books_decided : ∃ number ∈ [0, 1], ∃ f s way, registry.made[number]? = some f ∧
    f.name = "Book" ∧ f.schema? = some s ∧ book.Ascends loaded.classes way none ∧
    s.Takes (counted "Book") (ClassDecl.methodsOf (book :: way).reverse) ∧
    ∀ d, (named (ClassDecl.methodsOf (book :: way).reverse) d.name).getLast? = some d →
      (s.DecidedBy (counted "Book") d ↔ ¬ ModelSchema.Lingers (counted "Book")
        (ClassDecl.methodsOf (book :: way).reverse) d) :=
  decided_iff_of_compile compiled books_marked rfl

/-- The route that items serve stays besides that of books: there are two, which cannot be bound
together. -/
theorem books_counted_twice : compile connectors memoryDatasource loaded {} = .ok [0, 1] registry ∧
    books ∈ loaded.marked ∧ book.lineage loaded.classes = .ok [item, book] ∧
    ∃ f s, registry.made[1]? = some f ∧ f.name = "Book" ∧ f.isLinked = false ∧
      f.schema? = some s ∧
      (MethodDecl.named (ClassDecl.methodsOf [item, book]) "count").getLast? = some count ∧
      ¬ s.DecidedBy (counted "Book") count ∧ s.routes.length = 2 ∧
      failure? (Web.bindModel 1 f {}) = some (.routeConflict "GET" "/book/count") := by
  have hsome : (registry.made[1]?.bind Factory.schema?).isSome = true := by decide +kernel
  obtain ⟨s, hs⟩ := Option.isSome_iff_exists.mp hsome
  obtain ⟨f, hf, hfs⟩ := Option.bind_eq_some_iff.mp hs
  have hname : registry.made[1]?.map Factory.name = some "Book" := by decide +kernel
  have hlinked : registry.made[1]?.map Factory.isLinked = some false := by decide +kernel
  have hbound : registry.made[1]?.map (fun f => failure? (Web.bindModel 1 f {})) =
      some (some (.routeConflict "GET" "/book/count")) := by decide +kernel
  have hroutes : (registry.made[1]?.bind Factory.schema?).map ModelSchema.routes =
      some (List.replicate 2 { verb := "get", path := "/count", handler := "count" }) := by
    decide +kernel
  rw [hs, Option.map_some, Option.some.injEq] at hroutes
  rw [hf, Option.map_some, Option.some.injEq] at hname hlinked hbound
  have htwice : ¬ s.DecidedBy (counted "Book") count := by
    intro h
    have hone := congrArg List.length h.routes
    rw [hroutes] at hone
    revert hone
    decide +kernel
  have hlineage : book.lineage loaded.classes = .ok [item, book] := by decide +kernel
  exact ⟨compiled, books_marked, hlineage, f, s, hf, hname, hlinked, hfs, by decide +kernel, htwice,
    by rw [hroutes]; rfl, hbound⟩

end Counting

end ModelRest
