import ModelRest.Proofs.Methods
import ModelRest.Proofs.RouteConflicts
import ModelRest.Proofs.Spans

/-!
# The routes of several models

The routes of models are bound one after the other in one table. Collection names and paths are any
texts, so that the routes of one model are not those of another does not follow from their names; it
follows from what the table refuses. If nothing is refused, the table holds for each model its own
part (`Factory.part`) and nothing else, no two parts have a route in common, and so no two models
have one name in their paths: `binds_parts`. Compiled models never ask for a verb that there is not,
so binding them fails only with a conflict.
-/

namespace ModelRest

/-! ### Templates below a path -/

namespace Template

/-- What is below a path is converted by itself. -/
theorem convert_append (before after : List Char) :
    convert (before ++ '/' :: after) = convert before ++ '/' :: convert after := by
  have hne : ∀ cs, (Text.splitAll '/' cs).map convertSegment ≠ [] := by
    intro cs
    simp [Text.splitAll_ne_nil]
  rw [convert, Text.splitAll_append, List.map_append, Text.join_append (hne _) (hne _)]
  rfl

/-- The bound path of a template. -/
def boundPath (template : String) : String := String.ofList (convert template.toList)

theorem boundPath_append (before after : String) {rest : List Char}
    (h : after.toList = '/' :: rest) (hsame : convert rest = rest) :
    boundPath (before ++ after) = boundPath before ++ after := by
  apply String.ext
  simp [boundPath, h, convert_append, hsame]

end Template

/-! ### What a model asks for -/

/-- The verbs and paths of a stored model, below a path. -/
def Web.recordPart (base : String) : List (String × String) :=
  [("GET", base), ("POST", base), ("GET", base ++ "/\x7bid\x7d"), ("PUT", base ++ "/\x7bid\x7d"),
    ("PATCH", base ++ "/\x7bid\x7d"), ("DELETE", base ++ "/\x7bid\x7d"),
    ("GET", base ++ "/\x7bid\x7d/\x7bref\x7d"), ("PUT", base ++ "/\x7bid\x7d/\x7bref\x7d"),
    ("PATCH", base ++ "/\x7bid\x7d/\x7bref\x7d"),
    ("POST", base ++ "/\x7bid\x7d/$execute/\x7bname\x7d")]

namespace Factory

/-- The verbs and paths of the routes that a model is to have. -/
def part (f : Factory) : List (String × String) :=
  if f.isLinked then []
  else
    (if f.options.persistent then Web.recordPart (Template.boundPath ("/" ++ f.routeName)) else []) ++
      ("POST", Template.boundPath ("/" ++ f.routeName) ++ "/$service/\x7bname\x7d") ::
        f.schema.routes.map fun r =>
          (String.ofList (r.verb.toList.map Char.toUpper),
            Template.boundPath ("/" ++ f.routeName ++ r.path))

end Factory

namespace Web

/-- The routes of a factory of a number, as they are bound. -/
def boundRoutes (number : Nat) (f : Factory) : List (BoundRoute ModelRoute) :=
  (modelRoutes f).map fun r => .ofTemplate r.1 r.2.1 { factory := number, endpoint := r.2.2 }

/-- The routes of a stored model are those below its path. -/
theorem recordRoutes_boundPath (base : String) :
    ((recordRoutes base).map fun r => (r.1, Template.boundPath r.2.1)) =
      recordPart (Template.boundPath base) := by
  have hrecord : Template.boundPath (base ++ "/\x7bid\x7d") =
      Template.boundPath base ++ "/\x7bid\x7d" :=
    Template.boundPath_append _ _ rfl (by decide)
  have hreference : Template.boundPath (base ++ "/\x7bid\x7d" ++ "/\x7bref\x7d") =
      Template.boundPath base ++ "/\x7bid\x7d/\x7bref\x7d" := by
    rw [Template.boundPath_append _ _ rfl (by decide), hrecord, String.append_assoc]
    rfl
  have hexecute : Template.boundPath (base ++ "/\x7bid\x7d" ++ "/$execute/\x7bname\x7d") =
      Template.boundPath base ++ "/\x7bid\x7d/$execute/\x7bname\x7d" := by
    rw [Template.boundPath_append _ _ rfl (by decide), hrecord, String.append_assoc]
    rfl
  simp [recordRoutes, recordPart, hrecord, hreference, hexecute]

/-- The routes of a model are bound as its own part. -/
theorem pairs_boundRoutes (number : Nat) (f : Factory) :
    (boundRoutes number f).map (fun r => (r.verb, r.path)) = f.part := by
  have hpair : ((boundRoutes number f).map fun r => (r.verb, r.path)) =
      (modelRoutes f).map fun r => (r.1, Template.boundPath r.2.1) := by
    simp [boundRoutes, BoundRoute.ofTemplate, Template.boundPath]
  have hservice : Template.boundPath (basePath f ++ "/$service/\x7bname\x7d") =
      Template.boundPath (basePath f) ++ "/$service/\x7bname\x7d" :=
    Template.boundPath_append _ _ rfl (by decide)
  rw [hpair, modelRoutes, Factory.part, ← basePath, ← recordRoutes_boundPath, ← hservice]
  split
  · rfl
  · split <;> simp [classRoutes]

end Web

/-! ### Binding in turn -/

namespace RouteTable

variable {α : Type} {t t' : RouteTable α} {r : BoundRoute α} {rs : List (BoundRoute α)}

/-- A route that is bound is added, and conflicts with none. -/
theorem Tidy.of_bindVerb (h : t.Tidy) (hb : bindVerb r t = .ok () t') :
    t'.Tidy ∧ t'.routes = t.routes ++ [r] := by
  unfold bindVerb at hb
  split at hb
  · have hc : ∀ b ∈ t.routes, ¬ b.Conflicts r := by
      rw [← failure?_bind h.sound, hb]
      rfl
    rw [bind_eq_ok h.sound hc] at hb
    cases hb
    exact ⟨h.withRoute hc, rfl⟩
  · cases hb

/-- Routes that are bound one after the other are added in order. -/
theorem Tidy.of_forM (h : t.Tidy) (hb : rs.forM bindVerb t = .ok () t') :
    t'.Tidy ∧ t'.routes = t.routes ++ rs := by
  induction rs generalizing t with
  | nil =>
    cases hb
    exact ⟨h, by simp⟩
  | cons r rs ih =>
    rw [List.forM_eq_forM, List.forM_cons] at hb
    obtain ⟨_, t₁, hr, hrest⟩ := bind_eq_ok_iff.mp hb
    obtain ⟨htidy, hroutes⟩ := h.of_bindVerb hr
    obtain ⟨htidy', hroutes'⟩ := ih htidy hrest
    exact ⟨htidy', by simp [hroutes', hroutes]⟩

/-- The error is that of a route that conflicts with another. -/
def IsConflict (e : ServerError) : Prop := ∃ verb path, e = .routeConflict verb path

theorem failsOnly_bind (r : BoundRoute α) : FailsOnly IsConflict (bind r) := by
  intro t e t' hb
  unfold bind at hb
  split at hb
  · cases hb
    exact ⟨_, _, rfl⟩
  · split at hb <;> cases hb
    exact ⟨_, _, rfl⟩

theorem failsOnly_bindVerb (h : r.verb ∈ verbs) : FailsOnly IsConflict (bindVerb r) := by
  intro t e t' hb
  rw [bindVerb, if_pos (List.contains_iff_mem.mpr h)] at hb
  exact failsOnly_bind r t e t' hb

end RouteTable

namespace Web

open RouteTable

/-- The factories of these numbers, with their numbers. -/
def entries (r : Registry) (numbers : List Nat) : List (Nat × Factory) :=
  numbers.filterMap fun n => r.made[n]?.map (n, ·)

theorem made_of_mem_entries {r : Registry} {numbers : List Nat} :
    ∀ e ∈ entries r numbers, r.made[e.1]? = some e.2 := by
  intro e he
  obtain ⟨n, -, hn⟩ := List.mem_filterMap.mp he
  obtain ⟨f, hf, rfl⟩ := Option.map_eq_some_iff.mp hn
  exact hf

/-- Binds the routes of the model of a factory that is given with its number. -/
def bindEntry (e : Nat × Factory) : BindM Nat := bindModel e.1 e.2

section Entries

variable {t t' : RouteTable ModelRoute} {number count : Nat} {f : Factory}

theorem forM_bindRoute : (modelRoutes f).forM (bindRoute number) =
    (boundRoutes number f).forM bindVerb := by
  rw [boundRoutes, List.forM_eq_forM, List.forM_eq_forM, List.forM_map]
  rfl

/-- A model whose binding succeeds adds its own routes, and answers how many. -/
theorem of_bindModel (h : t.Tidy) (hb : bindModel number f t = .ok count t') :
    t'.Tidy ∧ t'.routes = t.routes ++ boundRoutes number f ∧
      count = (boundRoutes number f).length := by
  obtain ⟨before, t₀, hbefore, hb⟩ := bind_eq_ok_iff.mp hb
  cases hbefore
  obtain ⟨_, t₁, hroutes, hb⟩ := bind_eq_ok_iff.mp hb
  cases hb
  rw [forM_bindRoute] at hroutes
  obtain ⟨htidy, hadded⟩ := h.of_forM hroutes
  refine ⟨htidy, hadded, ?_⟩
  show t'.routes.length - t.routes.length = _
  simp [hadded]

/-- Models whose binding succeeds add their own routes in order, and answer how many. -/
theorem of_bindEntries (h : t.Tidy) {entries : List (Nat × Factory)} {counts : List Nat}
    (hb : entries.mapM bindEntry t = .ok counts t') :
    t'.Tidy ∧ t'.routes = t.routes ++ entries.flatMap (fun e => boundRoutes e.1 e.2) ∧
      counts = entries.map fun e => (boundRoutes e.1 e.2).length := by
  induction entries generalizing t counts with
  | nil =>
    cases hb
    exact ⟨h, by simp⟩
  | cons e entries ih =>
    rw [List.mapM_cons] at hb
    obtain ⟨count, t₁, he, hb⟩ := bind_eq_ok_iff.mp hb
    obtain ⟨counts, t₂, hrest, hb⟩ := bind_eq_ok_iff.mp hb
    cases hb
    obtain ⟨htidy, hroutes, rfl⟩ := of_bindModel h he
    obtain ⟨htidy', hroutes', rfl⟩ := ih htidy hrest
    exact ⟨htidy', by simp [hroutes', hroutes], by simp⟩

/-- Binding the models of several numbers binds their factories. -/
theorem exists_counts_of_bindModels {r : Registry} {numbers : List Nat}
    (hb : bindModels r numbers t = .ok () t') :
    ∃ counts, (entries r numbers).mapM bindEntry t = .ok counts t' := by
  induction numbers generalizing t with
  | nil =>
    cases hb
    exact ⟨[], rfl⟩
  | cons n numbers ih =>
    rw [bindModels, List.forM_eq_forM, List.forM_cons] at hb
    obtain ⟨_, t₁, hn, hrest⟩ := bind_eq_ok_iff.mp hb
    obtain ⟨counts, hcounts⟩ := ih hrest
    cases hmade : r.made[n]? with
    | none =>
      simp only [hmade] at hn
      cases hn
      exact ⟨counts, by simpa [entries, hmade] using hcounts⟩
    | some f =>
      simp only [hmade] at hn
      obtain ⟨count, hf, -⟩ := mapped_eq_ok_iff.mp hn
      refine ⟨count :: counts, ?_⟩
      have hentries : entries r (n :: numbers) = (n, f) :: entries r numbers := by
        simp [entries, hmade]
      rw [hentries, List.mapM_cons]
      exact bind_eq_ok_iff.mpr ⟨count, t₁, hf, bind_eq_ok_iff.mpr ⟨counts, t', hcounts, rfl⟩⟩

/-- Binding a model whose routes have verbs that there are fails only with a conflict. -/
theorem failsOnly_bindModel (hv : ∀ r ∈ modelRoutes f, r.1 ∈ verbs) :
    FailsOnly IsConflict (bindModel number f) := by
  have hroutes : FailsOnly IsConflict ((modelRoutes f).forM (bindRoute number)) :=
    .forM_of_mem fun r hr => failsOnly_bindVerb (hv r hr)
  have hget : FailsOnly IsConflict (get : BindM (RouteTable ModelRoute)) := fun _ _ _ h => nomatch h
  exact hget.bind fun _ => hroutes.bind fun _ => hget.bind fun _ => failsOnly_pure _

end Entries

end Web

/-! ### Verbs of compiled models -/

/-- The verb of a route that a method serves is one that routes have. -/
theorem verb_mem_of_methodRole {calls : List DecoratorCall} {verb path : String}
    (h : methodRole calls = .ok (.route verb path)) : verb ∈ routeVerbs := by
  induction calls with
  | nil => cases h
  | cons call calls ih =>
    rw [methodRole] at h
    obtain ⟨d, -, h⟩ := andThen_eq_ok_iff.mp h
    split at h
    · obtain ⟨hook, -, h⟩ := map_eq_ok_iff.mp h
      cases h
    · obtain ⟨text, -, h⟩ := andThen_eq_ok_iff.mp h
      dsimp only at h
      split at h
      · rename_i hverb
        obtain ⟨said, -, h⟩ := andThen_eq_ok_iff.mp h
        cases h
        exact List.contains_iff_mem.mp hverb
      · cases h
    · exact ih h

/-- The routes of the schema of a class have verbs that can be bound. -/
theorem ModelSchema.verb_mem_of_ofClass {classes : KeyMap ClassDecl} {ctx : TypeContext}
    {cls : ModelClass} {c : ClassDecl} {s : ModelSchema} (h : ofClass classes ctx cls c = .ok s)
    {r : RouteDecl} (hr : r ∈ s.routes) :
    String.ofList (r.verb.toList.map Char.toUpper) ∈ RouteTable.verbs := by
  obtain ⟨m, hm⟩ := exists_route?_of_ofClass h hr
  have hverb := verb_mem_of_methodRole (MethodDecl.handler_of_route? hm).2.1
  have hupper : ∀ verb ∈ routeVerbs,
      String.ofList (verb.toList.map Char.toUpper) ∈ RouteTable.verbs := by decide
  exact hupper _ hverb

/-- The factories of a registry that was built by compiling ask for verbs that can be bound. -/
theorem Registry.Built.verb_mem {r : Registry} (h : r.Built) {f : Factory} (hf : f ∈ r.made) :
    ∀ e ∈ Web.modelRoutes f, e.1 ∈ RouteTable.verbs := by
  intro e he
  unfold Web.modelRoutes at he
  split at he
  · cases he
  · rcases List.mem_append.mp he with he | he
    · have hrecord : ∀ base, ∀ e ∈ Web.recordRoutes base, e.1 ∈ RouteTable.verbs := by
        simp [Web.recordRoutes, RouteTable.verbs]
      split at he
      · exact hrecord _ e he
      · cases he
    · rcases List.mem_cons.mp he with rfl | he
      · show "POST" ∈ RouteTable.verbs
        decide
      · obtain ⟨d, hd, rfl⟩ := List.mem_map.mp he
        cases hs : f.schema? with
        | none => simp [Factory.schema, hs] at hd
        | some s =>
          obtain ⟨classes, ctx, cls, c, hof⟩ := h.ofClasses f hf s hs
          exact ModelSchema.verb_mem_of_ofClass hof (by simpa [Factory.schema, hs] using hd)

/-! ### The parts of models -/

namespace Web

open RouteTable

/-- Models without a route in common have different names in their paths. -/
theorem routeName_ne_of_disjoint {f g : Factory} (hf : f.isLinked = false)
    (hg : g.isLinked = false) (h : f.part.Disjoint g.part) : f.routeName ≠ g.routeName := by
  intro hname
  have hservice : ∀ f : Factory, f.isLinked = false → ("POST",
      Template.boundPath ("/" ++ f.routeName) ++ "/$service/\x7bname\x7d") ∈ f.part := fun f hf => by
    simp [Factory.part, hf]
  exact h (hservice f hf) (hname ▸ hservice g hg)

/-- A route of a factory is served by it, and is in its part; a linked factory has none. -/
theorem of_mem_boundRoutes {number : Nat} {f : Factory} {b : BoundRoute ModelRoute}
    (h : b ∈ boundRoutes number f) :
    b.serves.factory = number ∧ f.isLinked = false ∧ (b.verb, b.path) ∈ f.part := by
  have hpart : (b.verb, b.path) ∈ f.part := by
    rw [← pairs_boundRoutes number f]
    exact List.mem_map_of_mem h
  obtain ⟨e, he, rfl⟩ := List.mem_map.mp h
  cases hl : f.isLinked with
  | true => simp [modelRoutes, hl] at he
  | false => exact ⟨rfl, rfl, hpart⟩

/-- **Model routes are complete and disjoint.** If binding models in one table succeeds, what is
bound is the part of each model and nothing else; no two parts have a route in common, each model
answered how many routes its part has, each route is served by a model that is not linked and has it
in its part, and no two such models have one name in their paths. Two such models with one name
cannot be bound together, whichever comes first: there is a conflict. -/
theorem binds_parts {r : Registry} (hr : r.Built) {entries : List (Nat × Factory)}
    (he : ∀ e ∈ entries, r.made[e.1]? = some e.2) :
    (∀ counts t, entries.mapM bindEntry {} = .ok counts t →
      t.bound.Perm (entries.flatMap fun e => e.2.part) ∧
      (entries.flatMap fun e => e.2.part).Nodup ∧
      counts = entries.map (fun e => e.2.part.length) ∧
      (∀ b ∈ t.routes, ∃ e ∈ entries, b.serves.factory = e.1 ∧ e.2.isLinked = false ∧
        (b.verb, b.path) ∈ e.2.part) ∧
      entries.Pairwise fun e e' => e.2.isLinked = false → e'.2.isLinked = false →
        e.2.routeName ≠ e'.2.routeName) ∧
    ∀ e e', [e, e'].Sublist entries → e.2.isLinked = false → e'.2.isLinked = false →
      e.2.routeName = e'.2.routeName →
      ∃ verb path t, entries.mapM bindEntry {} = .error (.routeConflict verb path) t := by
  have hnames : ∀ counts t, entries.mapM bindEntry {} = .ok counts t →
      (entries.flatMap fun e => e.2.part).Nodup ∧
      (t.routes.map fun r => (r.verb, r.path)) = entries.flatMap (fun e => e.2.part) ∧
      entries.Pairwise fun e e' => e.2.isLinked = false → e'.2.isLinked = false →
        e.2.routeName ≠ e'.2.routeName := by
    intro counts t hb
    obtain ⟨htidy, hroutes, -⟩ := of_bindEntries tidy_empty hb
    have hpairs : (t.routes.map fun r => (r.verb, r.path)) =
        entries.flatMap fun e => e.2.part := by
      simp [hroutes, List.map_flatMap, pairs_boundRoutes]
    have hnodup : (entries.flatMap fun e => e.2.part).Nodup := hpairs ▸ htidy.nodup_pairs
    exact ⟨hnodup, hpairs, (List.nodup_flatMap.mp hnodup).2.imp fun h hf hg =>
      routeName_ne_of_disjoint hf hg h⟩
  constructor
  · intro counts t hb
    obtain ⟨-, hroutes, hcounts⟩ := of_bindEntries tidy_empty hb
    obtain ⟨hnodup, hpairs, hdifferent⟩ := hnames counts t hb
    refine ⟨hpairs ▸ bound_perm, hnodup, ?_, fun b hb => ?_, hdifferent⟩
    · rw [hcounts]
      refine List.map_congr_left fun e _ => ?_
      rw [← pairs_boundRoutes e.1 e.2, List.length_map]
    · rw [hroutes, List.nil_append, List.mem_flatMap] at hb
      obtain ⟨e, he, hb⟩ := hb
      exact ⟨e, he, of_mem_boundRoutes hb⟩
  · intro e e' hsub hl hl' hname
    have hfails : FailsOnly IsConflict (entries.mapM bindEntry) := .mapM_of_mem fun e hmem =>
      failsOnly_bindModel (hr.verb_mem (List.mem_of_getElem? (he e hmem)))
    cases hb : entries.mapM bindEntry ({} : RouteTable ModelRoute) with
    | ok counts t =>
      have hpair := (hnames counts t hb).2.2.sublist hsub
      exact absurd hname (by simpa [hl, hl'] using hpair)
    | error fault t =>
      obtain ⟨verb, path, rfl⟩ := hfails _ _ _ hb
      exact ⟨verb, path, t, rfl⟩

end Web

namespace Labelling

/-- Items, tags that stand for items, and pieces that are called items in another case. -/
def classes : List ClassDecl :=
  [.model "Item",
    { ClassDecl.named "Tag" with decorators :=
        [{ name := "model", args := [.ofMembers [("linkedFactory", .string "Item")]] }] },
    { ClassDecl.named "Piece" with decorators :=
        [{ name := "model", args := [.ofMembers [("collectionName", .string "item")]] }] }]

/-- The loaded models. -/
def loaded : LoadedSources where
  classes := KeyMap.ofPairs (classes.map fun c => (c.name, c))
  models := classes.map fun c => { decl := c, cls := .plain c.name, source := "labels" }

/-- Where the models are stored. -/
def connectors : Connectors := [(memoryDatasource, .memory memoryDatasource 0)]

/-- The registry with the compiled models. -/
def registry : Registry := stateLeft (compile connectors memoryDatasource loaded {})

/-- The factories of these numbers. -/
def entries (numbers : List Nat) : List (Nat × Factory) := Web.entries registry numbers

theorem registry_built : registry.Built :=
  .compiled (.empty (r := {}) rfl) connectors memoryDatasource loaded

/-- Items and tags are bound together, items with eleven routes and tags with none; items and pieces
are not. -/
theorem labels_bound :
    (∃ counts t, (entries [0, 1]).mapM Web.bindEntry {} = .ok counts t ∧
      t.bound.Perm ((entries [0, 1]).flatMap fun e => e.2.part) ∧
      ((entries [0, 1]).flatMap fun e => e.2.part).Nodup ∧
      counts = (entries [0, 1]).map fun e => e.2.part.length) ∧
    ∃ verb path t,
      (entries [0, 2]).mapM Web.bindEntry {} = .error (.routeConflict verb path) t := by
  have hcounts : answer? ((entries [0, 1]).mapM Web.bindEntry {}) = some [11, 0] := by
    decide +kernel
  have hlabels : (entries [0, 2]).map (fun e => (e.2.isLinked, e.2.routeName)) =
      [(false, "item"), (false, "item")] := by decide +kernel
  constructor
  · have hok := answer?_eq_some_iff.mp hcounts
    obtain ⟨hbound, hnodup, hparts, -⟩ :=
      (Web.binds_parts registry_built Web.made_of_mem_entries).1 _ _ hok
    exact ⟨_, _, hok, hbound, hnodup, hparts⟩
  · obtain ⟨e, e', hpair⟩ := List.length_eq_two.mp (by simpa using congrArg List.length hlabels)
    have hsub : [e, e'].Sublist (entries [0, 2]) := by rw [hpair]
    rw [hpair] at hlabels
    simp only [List.map_cons, List.map_nil, List.cons.injEq, Prod.mk.injEq, and_true] at hlabels
    obtain ⟨⟨hl, hname⟩, hl', hname'⟩ := hlabels
    exact (Web.binds_parts registry_built Web.made_of_mem_entries).2 e e' hsub hl hl'
      (hname.trans hname'.symm)

end Labelling

end ModelRest
