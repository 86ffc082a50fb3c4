import ModelRest.Compilation
import ModelRest.Proofs.Effects

/-!
# What compiling makes

Compiling goes twice through the loaded models: it registers a factory for each, and then gives the
factories their schemas and links. Here the registry that it leaves is described at once. A loaded
model has a draft, which is its factory before it has a schema; `Finished` says what factory a draft
becomes, and `compile_eq_ok_iff` that compiling succeeds exactly if every draft can be finished, and
adds the finished factories to the registry in the order of the models.

What a draft becomes is said with the registry that compiling leaves. This goes in no circle: only a
linked draft looks another factory up, and what it finds is not linked.
-/

namespace ModelRest

/-! ### Drafts -/

/-- A model that is going to be compiled. -/
structure Draft where
  /-- Its factory, without a schema. -/
  factory : Factory
  /-- Its declaration. -/
  decl : ClassDecl

/-- The collection whose factory a linked factory stands for: its own one is named by class, or else
by collection. -/
def TypeContext.linkName (ctx : TypeContext) (f : Factory) : String :=
  (KeyMap.get? ctx.collections (f.options.linked.getD "")).getD (f.options.linked.getD "")

namespace Draft

/-- The draft of a loaded model, if it is marked as a model. -/
def ofModel? (connectors : Connectors) (defaultDatasource : String) (m : LoadedModel) :
    Except ConfigError (Option Draft) :=
  match classMetadata? m.decl with
  | .error e => .error e
  | .ok none => .ok none
  | .ok (some said) => (Enrolled.factoryOf connectors defaultDatasource m said).map fun f =>
    some { factory := f, decl := m.decl }

/-- The drafts of loaded models, in order. -/
def ofModels (connectors : Connectors) (defaultDatasource : String) (models : List LoadedModel) :
    Except ConfigError (List Draft) :=
  (models.mapM (ofModel? connectors defaultDatasource)).map (·.filterMap id)

theorem ofModels_cons_eq_ok_iff {connectors : Connectors} {defaultDatasource : String}
    {m : LoadedModel} {rest : List LoadedModel} {ds : List Draft} :
    ofModels connectors defaultDatasource (m :: rest) = .ok ds ↔
      ∃ o ds', ofModel? connectors defaultDatasource m = .ok o ∧
        ofModels connectors defaultDatasource rest = .ok ds' ∧ ds = o.toList ++ ds' := by
  simp only [ofModels, List.mapM_cons, map_eq_ok_iff, andThen_eq_ok_iff, pure, Except.pure,
    Except.ok.injEq]
  constructor
  · rintro ⟨_, ⟨o, ho, os, hos, rfl⟩, rfl⟩
    refine ⟨o, _, ho, ⟨os, hos, rfl⟩, ?_⟩
    cases o <;> simp
  · rintro ⟨o, _, ho, ⟨os, hos, rfl⟩, rfl⟩
    refine ⟨_, ⟨o, ho, os, hos, rfl⟩, ?_⟩
    cases o <;> simp

/-- The model as it is compiled, when its factory has a number. -/
def enrolledAt (d : Draft) (number : Nat) : Enrolled :=
  { number := number, factory := d.factory, decl := d.decl }

/-- The drafts as they are compiled, when the first has a number and the others follow. -/
def numbered (number : Nat) : List Draft → List Enrolled
  | [] => []
  | d :: rest => d.enrolledAt number :: numbered (number + 1) rest

/-- The names of the collections. -/
def names (ds : List Draft) : List String := ds.map fun d => d.factory.name

end Draft

theorem Enrolled.factoryOf_eq_ok {connectors : Connectors} {defaultDatasource : String}
    {m : LoadedModel} {said : ClassMetadata} {f : Factory}
    (h : factoryOf connectors defaultDatasource m said = .ok f) :
    f.schema? = none ∧ f.link? = none ∧ f.runtime? = none ∧
      f.connector = KeyMap.get? connectors (said.datasource.getD defaultDatasource) := by
  unfold factoryOf at h
  simp only at h
  split at h
  · cases h
  · cases h
    exact ⟨rfl, rfl, rfl, rfl⟩

/-- The factory of a stored model has a connector. -/
theorem Enrolled.connector_of_factoryOf {connectors : Connectors} {defaultDatasource : String}
    {m : LoadedModel} {said : ClassMetadata} {f : Factory}
    (h : factoryOf connectors defaultDatasource m said = .ok f)
    (hp : f.options.persistent = true) : f.connector.isSome = true := by
  unfold factoryOf at h
  dsimp only at h
  split at h
  · cases h
  · rename_i hnot
    cases h
    cases hc : KeyMap.get? connectors (said.datasource.getD defaultDatasource) with
    | none => simp [hc, show said.persistent = true from hp] at hnot
    | some c => rfl

namespace Registry

/-! ### Registries that grow -/

/-- The numbers of the registered factories are those of factories that were made. -/
def WellNumbered (r : Registry) : Prop := ∀ p ∈ r.registered, p.2 < r.made.length

/-- The registry with more factories made and registered. -/
def extend (r : Registry) (fs : List Factory) : Registry :=
  { r with
    made := r.made ++ fs
    registered := r.registered ++ (fs.zipIdx r.made.length).map fun p => (p.1.name, p.2) }

/-- The names are not registered, and none occurs twice. -/
def Unused (r : Registry) (names : List String) : Prop :=
  names.Nodup ∧ ∀ name ∈ names, r.contains name = false

theorem contains_eq (r : Registry) (name : String) : r.contains name = r.names.contains name := by
  unfold contains number? names
  induction r.registered with
  | nil => rfl
  | cons p rest ih =>
    rw [List.lookup_cons, List.map_cons, List.contains_cons]
    cases h : name == p.1 <;> simp_all

@[simp] theorem extend_nil (r : Registry) : r.extend [] = r := by simp [extend]

theorem extend_extend (r : Registry) (fs gs : List Factory) :
    (r.extend fs).extend gs = r.extend (fs ++ gs) := by
  simp [extend, List.zipIdx_append]

theorem names_extend (r : Registry) (fs : List Factory) :
    (r.extend fs).names = r.names ++ fs.map Factory.name := by
  have hz : (fs.zipIdx r.made.length).map (fun p => p.1.name) = fs.map Factory.name := by
    conv_rhs => rw [← List.zipIdx_map_fst r.made.length fs, List.map_map]
    rfl
  simp [names, extend, Function.comp_def, hz]

/-- A new factory has a number after those of the factories before. -/
theorem getElem?_made_extend (r : Registry) (fs : List Factory) (k : Nat) :
    (r.extend fs).made[r.made.length + k]? = fs[k]? := by
  show (r.made ++ fs)[r.made.length + k]? = _
  rw [List.getElem?_append_right (Nat.le_add_right ..), Nat.add_sub_cancel_left]

theorem unused_cons (r : Registry) (f : Factory) (names : List String) :
    r.Unused (f.name :: names) ↔ r.contains f.name = false ∧ (r.extend [f]).Unused names := by
  have hc : ∀ name, (r.extend [f]).contains name = (r.contains name || name == f.name) := by
    intro name
    rw [contains_eq, contains_eq, names_extend]
    by_cases h : name = f.name <;> simp [h]
  simp only [Unused, List.nodup_cons, List.mem_cons, forall_eq_or_imp, hc, Bool.or_eq_false_iff,
    beq_eq_false_iff_ne]
  constructor
  · rintro ⟨⟨hf, hn⟩, h0, h⟩
    exact ⟨h0, hn, fun name hname => ⟨h name hname, fun e => hf (e ▸ hname)⟩⟩
  · rintro ⟨h0, hn, h⟩
    exact ⟨⟨fun hf => (h _ hf).2 rfl, hn⟩, h0, fun name hname => (h name hname).1⟩

theorem WellNumbered.lt {r : Registry} (hr : r.WellNumbered) {name : String} {number : Nat}
    (h : r.number? name = some number) : number < r.made.length := by
  obtain ⟨before, after, he, -⟩ := List.lookup_eq_some_iff.mp h
  exact hr (name, number) (by simp [he])

theorem isSome_find? {r : Registry} (hr : r.WellNumbered) (name : String) :
    (r.find? name).isSome = r.contains name := by
  unfold find? contains
  cases h : r.number? name with
  | none => rfl
  | some number => simp [List.getElem?_eq_getElem (hr.lt h)]

theorem mem_made_of_find? {r : Registry} {name : String} {f : Factory}
    (h : r.find? name = some f) : f ∈ r.made := by
  obtain ⟨number, -, hget⟩ := Option.bind_eq_some_iff.mp h
  exact List.mem_of_getElem? hget

theorem mem_made_of_target {r : Registry} {f target : Factory} {path : String}
    (h : r.target f path = .ok target) :
    target ∈ r.made := by
  unfold Registry.target resolve at h
  split at h
  · cases h
  · split at h
    · split at h
      · rename_i hfind
        cases h
        exact mem_made_of_find? hfind
      · cases h
    · cases h

/-- A factory is found by its name, if the names are different. -/
theorem find?_name {fs : List Factory} (hn : (fs.map Factory.name).Nodup) {f : Factory}
    (hf : f ∈ fs) : (fs.find? fun g => g.name == f.name) = some f := by
  induction fs with
  | nil => cases hf
  | cons g rest ih =>
    rw [List.map_cons, List.nodup_cons] at hn
    rcases List.mem_cons.mp hf with rfl | hf
    · simp
    · have hne : g.name ≠ f.name := fun e => hn.1 (e ▸ List.mem_map_of_mem hf)
      rw [List.find?_cons_of_neg (by simpa using hne)]
      exact ih hn.2 hf

/-- The factory that the number of a name leads to is the first of that name. -/
theorem lookup_zipIdx_bind (before fs : List Factory) (name : String) :
    (((fs.zipIdx before.length).map fun p => (p.1.name, p.2)).lookup name).bind
        ((before ++ fs)[·]?) = fs.find? fun f => f.name == name := by
  induction fs generalizing before with
  | nil => rfl
  | cons f rest ih =>
    have := ih (before ++ [f])
    rw [List.append_assoc, List.length_append] at this
    rw [List.zipIdx_cons, List.map_cons, List.lookup_cons, List.find?_cons]
    by_cases h : name = f.name
    · simp [h]
    · rw [beq_false_of_ne h, beq_false_of_ne (Ne.symm h)]
      simpa using this

/-- What a registry finds after it has grown: what it found before, or else a new factory. -/
theorem find?_extend {r : Registry} (hr : r.WellNumbered) (fs : List Factory) (name : String) :
    (r.extend fs).find? name = (r.find? name).or (fs.find? fun f => f.name == name) := by
  have hfind : (r.extend fs).find? name =
      ((r.number? name).or (((fs.zipIdx r.made.length).map fun p => (p.1.name, p.2)).lookup
        name)).bind ((r.made ++ fs)[·]?) := by
    simp [find?, number?, extend, List.lookup_append]
  rw [hfind, ← lookup_zipIdx_bind r.made]
  unfold find?
  cases h : r.number? name with
  | none => rfl
  | some number =>
    have hlt := hr.lt h
    simp [List.getElem?_append_left hlt, List.getElem?_eq_getElem hlt]

/-- What a registry finds after it has grown by factories of unused names. -/
theorem find?_extend_eq_some_iff {r : Registry} (hr : r.WellNumbered) {fs : List Factory}
    (hu : r.Unused (fs.map Factory.name)) (name : String) (f : Factory) :
    (r.extend fs).find? name = some f ↔ r.find? name = some f ∨ f ∈ fs ∧ f.name = name := by
  rw [find?_extend hr]
  constructor
  · intro h
    rcases Option.or_eq_some_iff.mp h with h | ⟨-, h⟩
    · exact .inl h
    · exact .inr ⟨List.mem_of_find?_eq_some h, by simpa using List.find?_some h⟩
  · rintro (h | ⟨hf, rfl⟩)
    · simp [h]
    · have hnone : r.find? f.name = none := by
        have := hu.2 f.name (List.mem_map_of_mem hf)
        rwa [← isSome_find? hr, Option.isSome_eq_false_iff, Option.isNone_iff_eq_none] at this
      rw [hnone, Option.none_or]
      exact find?_name hu.1 hf

end Registry

/-! ### Registering the drafts -/

namespace Enrolled

variable (connectors : Connectors) (defaultDatasource : String)

theorem enroll_eq (m : LoadedModel) (r : Registry) :
    enroll connectors defaultDatasource m r =
      match Draft.ofModel? connectors defaultDatasource m with
      | .error e => .error e r
      | .ok none => .ok none r
      | .ok (some d) =>
        if r.contains d.factory.name then .error (.duplicateModel d.factory.name) r
        else .ok (some (d.enrolledAt r.made.length)) (r.extend [d.factory]) := by
  unfold enroll Draft.ofModel?
  cases classMetadata? m.decl with
  | error e => rfl
  | ok said =>
    cases said with
    | none => rfl
    | some said =>
      cases hf : factoryOf connectors defaultDatasource m said with
      | error e => simp [Except.map, hf]
      | ok f =>
        have hr : (r.make f).register f.name r.made.length =
            if r.contains f.name then .error (.duplicateModel f.name)
            else .ok (r.extend [f]) := rfl
        by_cases h : r.contains f.name <;> simp [Except.map, hf, hr, h, Draft.enrolledAt]

/-- The first pass succeeds if all models have drafts and their names are unused; it numbers the
drafts and adds their factories. -/
theorem mapM_enroll_iff (models : List LoadedModel) (ms : List Enrolled) (r r' : Registry) :
    (∃ es, models.mapM (enroll connectors defaultDatasource) r = .ok es r' ∧
        es.filterMap id = ms) ↔
      ∃ ds, Draft.ofModels connectors defaultDatasource models = .ok ds ∧
        r.Unused (Draft.names ds) ∧ ms = Draft.numbered r.made.length ds ∧
        r' = r.extend (ds.map Draft.factory) := by
  induction models generalizing r ms with
  | nil =>
    constructor
    · rintro ⟨es, h, rfl⟩
      cases h
      exact ⟨[], rfl, ⟨List.nodup_nil, by simp [Draft.names]⟩, rfl, by simp⟩
    · rintro ⟨ds, h, -, rfl, rfl⟩
      cases h
      exact ⟨[], by simp [pure, EStateM.pure], rfl⟩
  | cons m rest ih =>
    simp only [List.mapM_cons, bind_eq_ok_iff, Draft.ofModels_cons_eq_ok_iff]
    rw [enroll_eq]
    constructor
    · rintro ⟨_, ⟨e, r₁, he, es, r₂, hes, h⟩, rfl⟩
      cases h
      cases hd : Draft.ofModel? connectors defaultDatasource m with
      | error e => simp [hd] at he
      | ok o =>
        cases o with
        | none =>
          simp only [hd, EStateM.Result.ok.injEq] at he
          obtain ⟨rfl, rfl⟩ := he
          obtain ⟨ds, hds, hu, hms, hr⟩ := (ih _ _).mp ⟨es, hes, rfl⟩
          exact ⟨ds, ⟨none, ds, rfl, hds, rfl⟩, hu, by simpa using hms, hr⟩
        | some d =>
          by_cases hc : r.contains d.factory.name
          · simp [hd, hc] at he
          · simp only [hd, hc, Bool.false_eq_true, if_false, EStateM.Result.ok.injEq] at he
            obtain ⟨rfl, rfl⟩ := he
            obtain ⟨ds, hds, hu, hms, hr⟩ := (ih _ _).mp ⟨es, hes, rfl⟩
            refine ⟨d :: ds, ⟨some d, ds, rfl, hds, rfl⟩, ?_, ?_, ?_⟩
            · exact (r.unused_cons d.factory _).mpr ⟨by simpa using hc, hu⟩
            · simpa [Draft.numbered, Registry.extend] using hms
            · rw [hr, Registry.extend_extend]
              rfl
    · rintro ⟨_, ⟨o, ds, ho, hds, rfl⟩, hu, rfl, rfl⟩
      cases o with
      | none =>
        obtain ⟨es, hes, hms⟩ := (ih _ _).mpr ⟨ds, hds, hu, rfl, rfl⟩
        exact ⟨none :: es, ⟨none, r, by simp [ho], es, _, hes, rfl⟩, by simpa using hms⟩
      | some d =>
        obtain ⟨hc, hu⟩ := (r.unused_cons d.factory _).mp hu
        obtain ⟨es, hes, hms⟩ := (ih _ (r.extend [d.factory])).mpr
          ⟨ds, hds, hu, rfl, (r.extend_extend [d.factory] _).symm⟩
        refine ⟨some (d.enrolledAt r.made.length) :: es,
          ⟨_, r.extend [d.factory], by simp [ho, hc], es, _, hes, rfl⟩, ?_⟩
        simpa [Draft.numbered, Registry.extend] using hms

end Enrolled

/-! ### Giving the factories their schemas and links -/

theorem forM_filter {ε σ α : Type} (p : α → Bool) (f : α → EStateM ε σ Unit) (xs : List α) :
    (xs.filter p).forM f = xs.forM fun x => if p x then f x else pure () := by
  induction xs with
  | nil => rfl
  | cons x xs ih =>
    simp only [List.forM_eq_forM] at ih ⊢
    by_cases h : p x
    · rw [List.filter_cons_of_pos h, List.forM_cons, List.forM_cons, ih, if_pos h]
    · rw [List.filter_cons_of_neg h, List.forM_cons, ih, if_neg h, pure_bind]

namespace Enrolled

/-- A pass over the drafts. What it does with one draft may depend on the registry, as long as that
is one of those that the pass can meet. -/
theorem forM_numbered_iff (act : Enrolled → CompileM Unit) (Meets : Registry → Prop)
    (Fits : Draft → Factory → Prop) (step : Draft → Factory → Except ConfigError Factory)
    (hact : ∀ d f number r, Meets r → Fits d f → r.made[number]? = some f →
      act (d.enrolledAt number) r = match step d f with
        | .error e => .error e r
        | .ok g => .ok () (r.update number g))
    (hmeets : ∀ d f g number r, Meets r → Fits d f → r.made[number]? = some f →
      step d f = .ok g → Meets (r.update number g))
    (ps : List (Draft × Factory)) (hps : ∀ p ∈ ps, Fits p.1 p.2) (before : List Factory)
    (r r' : Registry) (hr : Meets r) (hmade : r.made = before ++ ps.map Prod.snd) :
    (Draft.numbered before.length (ps.map Prod.fst)).forM act r = .ok () r' ↔
      ∃ fs, List.Forall₂ (fun p f => step p.1 p.2 = .ok f) ps fs ∧
        r' = { r with made := before ++ fs } := by
  induction ps generalizing before r with
  | nil =>
    simp only [List.map_nil, List.append_nil] at hmade
    constructor
    · intro h
      cases h
      exact ⟨[], .nil, by simp [← hmade]⟩
    · rintro ⟨fs, hfs, rfl⟩
      cases hfs
      simp [Draft.numbered, ← hmade, pure, EStateM.pure]
  | cons p rest ih =>
    obtain ⟨d, f⟩ := p
    have hget : r.made[before.length]? = some f := by simp [hmade]
    have hfit : Fits d f := hps (d, f) (List.mem_cons_self ..)
    have hrun := hact d f before.length r hr hfit hget
    have hrest : ∀ g, (r.update before.length g).made =
        (before ++ [g]) ++ rest.map Prod.snd := by
      intro g
      simp [Registry.update, hmade]
    have hlen : ∀ g : Factory, (before ++ [g]).length = before.length + 1 := by simp
    have ih' := fun g (hg : Meets (r.update before.length g)) =>
      ih (fun p hp => hps p (List.mem_cons_of_mem _ hp)) (before ++ [g])
        (r.update before.length g) hg (hrest g)
    have hcons : (Draft.numbered before.length (((d, f) :: rest).map Prod.fst)).forM act r =
        (act (d.enrolledAt before.length) >>= fun _ =>
          (Draft.numbered (before.length + 1) (rest.map Prod.fst)).forM act) r := rfl
    rw [hcons, bind_eq_ok_iff]
    constructor
    · rintro ⟨⟨⟩, r₁, h₁, h⟩
      rw [hrun] at h₁
      cases hg : step d f with
      | error e => simp [hg] at h₁
      | ok g =>
        simp only [hg, EStateM.Result.ok.injEq, true_and] at h₁
        subst h₁
        rw [← hlen g] at h
        obtain ⟨fs, hfs, rfl⟩ := (ih' g (hmeets d f g _ r hr hfit hget hg)).mp h
        exact ⟨g :: fs, .cons hg hfs, by simp [Registry.update]⟩
    · rintro ⟨_, _ | ⟨hg, hfs⟩, rfl⟩
      rename_i g fs
      refine ⟨(), r.update before.length g, by simp only [hrun, hg], ?_⟩
      rw [← hlen g]
      exact (ih' g (hmeets d f g _ r hr hfit hget hg)).mpr ⟨fs, hfs, by simp [Registry.update]⟩

/-- A pass over the drafts fails as what it does with the drafts fails. -/
theorem forM_numbered_error (act : Enrolled → CompileM Unit)
    (step : Draft → Factory → Except ConfigError Factory)
    (hact : ∀ d f number r, r.made[number]? = some f →
      act (d.enrolledAt number) r = match step d f with
        | .error e => .error e r
        | .ok g => .ok () (r.update number g))
    (ps : List (Draft × Factory)) (before : List Factory) (r : Registry)
    (hmade : r.made = before ++ ps.map Prod.snd) {e : ConfigError}
    (he : ps.mapM (fun p => step p.1 p.2) = .error e) :
    ∃ r', (Draft.numbered before.length (ps.map Prod.fst)).forM act r = .error e r' := by
  induction ps generalizing before r with
  | nil => cases he
  | cons p rest ih =>
    obtain ⟨d, f⟩ := p
    have hrun := hact d f before.length r (by simp [hmade])
    have hcons : (Draft.numbered before.length (((d, f) :: rest).map Prod.fst)).forM act r =
        (act (d.enrolledAt before.length) >>= fun _ =>
          (Draft.numbered (before.length + 1) (rest.map Prod.fst)).forM act) r := rfl
    rw [hcons, bind_apply, hrun]
    rw [List.mapM_cons] at he
    cases hg : step d f with
    | error e' =>
      rw [hg] at he
      cases he
      exact ⟨r, rfl⟩
    | ok g =>
      rw [hg] at he
      have hlen : (before ++ [g]).length = before.length + 1 := by simp
      have hrest : (r.update before.length g).made = (before ++ [g]) ++ rest.map Prod.snd := by
        simp [Registry.update, hmade]
      dsimp only
      rw [← hlen]
      refine ih (before ++ [g]) _ hrest ?_
      cases hxs : rest.mapM fun p => step p.1 p.2 with
      | error e' =>
        rw [hxs] at he
        cases he
        rfl
      | ok gs =>
        rw [hxs] at he
        cases he

/-- The factory of a draft with its schema. A linked draft has to wait. -/
def withSchema (classes : KeyMap ClassDecl) (ctx : TypeContext) (d : Draft) (f : Factory) :
    Except ConfigError Factory :=
  if d.factory.isLinked then .ok f
  else do
    let schema ← ModelSchema.ofClass classes ctx d.factory.cls d.decl
    f.installSchema schema

/-- The factory of a draft with its link and schema, if it is linked. -/
def withLink (ctx : TypeContext) (r : Registry) (d : Draft) (f : Factory) :
    Except ConfigError Factory :=
  if d.factory.isLinked then do
    let target ← linkTarget ctx r (d.enrolledAt 0)
    (← f.link target.name).installSchema target.schema
  else .ok f

theorem update_self {r : Registry} {number : Nat} {f : Factory} (h : r.made[number]? = some f) :
    r.update number f = r := by
  obtain ⟨hlt, rfl⟩ := List.getElem?_eq_some_iff.mp h
  simp [Registry.update]

theorem change_of_made {r : Registry} {number : Nat} {f : Factory}
    {g : Factory → Except ConfigError Factory} (h : r.made[number]? = some f) :
    change number g r = match g f with
      | .error e => .error e r
      | .ok f => .ok () (r.update number f) := by
  cases hg : g f with
  | error e => simp only [change, h, hg]
  | ok f' => simp only [change, h, hg]

/-- What the pass that gives the factories their schemas does with a draft. -/
theorem compileSchema_enrolledAt {classes : KeyMap ClassDecl} {ctx : TypeContext} {d : Draft}
    {f : Factory} {number : Nat} {r : Registry} (hf : r.made[number]? = some f) :
    (if !(d.enrolledAt number).factory.isLinked then
        compileSchema classes ctx (d.enrolledAt number) else pure ()) r =
      match withSchema classes ctx d f with
        | .error e => .error e r
        | .ok g => .ok () (r.update number g) := by
  unfold withSchema
  cases hl : d.factory.isLinked with
  | true => simp [Draft.enrolledAt, hl, update_self hf, pure, EStateM.pure]
  | false =>
    have hn : (if !(d.enrolledAt number).factory.isLinked then
        compileSchema classes ctx (d.enrolledAt number) else pure ()) =
        compileSchema classes ctx (d.enrolledAt number) := if_pos (by simp [Draft.enrolledAt, hl])
    rw [hn, if_neg Bool.false_ne_true]
    exact change_of_made hf

/-- The pass that gives the factories their schemas. -/
theorem forM_compileSchema_iff (classes : KeyMap ClassDecl) (ctx : TypeContext) (ds : List Draft)
    (before : List Factory) (r r' : Registry) (hmade : r.made = before ++ ds.map Draft.factory) :
    ((Draft.numbered before.length ds).filter (!·.factory.isLinked)).forM
        (compileSchema classes ctx) r = .ok () r' ↔
      ∃ fs, List.Forall₂ (fun d f => withSchema classes ctx d d.factory = .ok f) ds fs ∧
        r' = { r with made := before ++ fs } := by
  rw [forM_filter]
  have h := forM_numbered_iff
    (fun m => if !m.factory.isLinked then compileSchema classes ctx m else pure ())
    (fun _ => True) (fun _ _ => True) (withSchema classes ctx)
    (fun d f number r _ _ hf => compileSchema_enrolledAt hf) (fun _ _ _ _ _ _ _ _ _ => trivial)
    (ds.map fun d => (d, d.factory)) (fun _ _ => trivial) before r r' trivial
    (by simpa [Function.comp_def] using hmade)
  simpa [Function.comp_def] using h

/-- It fails as the first draft fails that gets no schema. -/
theorem forM_compileSchema_error (classes : KeyMap ClassDecl) (ctx : TypeContext) {ds : List Draft}
    {before : List Factory} {r : Registry} (hmade : r.made = before ++ ds.map Draft.factory)
    {e : ConfigError} (he : ds.mapM (fun d => withSchema classes ctx d d.factory) = .error e) :
    ∃ r', ((Draft.numbered before.length ds).filter (!·.factory.isLinked)).forM
      (compileSchema classes ctx) r = .error e r' := by
  rw [forM_filter]
  have h := forM_numbered_error
    (fun m => if !m.factory.isLinked then compileSchema classes ctx m else pure ())
    (withSchema classes ctx) (fun d f number r hf => compileSchema_enrolledAt hf)
    (ds.map fun d => (d, d.factory)) before r (by simpa [Function.comp_def] using hmade)
    (by rw [List.mapM_map]; exact he)
  simpa [Function.comp_def] using h

/-- Only a factory that is not linked is found as what another stands for. -/
theorem linkTarget_eq_ok_iff {ctx : TypeContext} {r : Registry} {m : Enrolled} {target : Factory} :
    linkTarget ctx r m = .ok target ↔
      r.find? (ctx.linkName m.factory) = some target ∧ target.isLinked = false ∧
        target.isCompiled = true := by
  unfold linkTarget TypeContext.linkName
  dsimp only
  cases r.find? ((KeyMap.get? ctx.collections (m.factory.options.linked.getD "")).getD
    (m.factory.options.linked.getD "")) with
  | none => simp
  | some f =>
    dsimp only
    constructor
    · intro h
      split at h
      · cases h
      · rename_i hn
        cases h
        simpa using hn
    · rintro ⟨⟨⟩, hl, hc⟩
      simp [hl, hc]

/-- A change of a linked factory does not change what others can be linked to. -/
theorem linkTarget_update {ctx : TypeContext} {r : Registry} {number : Nat} {f g : Factory}
    (h : r.made[number]? = some f) (hf : f.isLinked = true) (hg : g.isLinked = true)
    (m : Enrolled) : linkTarget ctx (r.update number g) m = linkTarget ctx r m := by
  have hfind : ∀ name, (r.update number g).find? name = r.find? name ∨
      (r.update number g).find? name = some g ∧ r.find? name = some f := by
    intro name
    unfold Registry.find?
    have hn : (r.update number g).number? name = r.number? name := rfl
    rw [hn]
    cases hk : r.number? name with
    | none => exact .inl rfl
    | some k =>
      by_cases hkn : k = number
      · subst hkn
        obtain ⟨hlt, -⟩ := List.getElem?_eq_some_iff.mp h
        exact .inr ⟨by simp [Registry.update, hlt], h⟩
      · exact .inl (by simp [Registry.update, List.getElem?_set_ne (Ne.symm hkn)])
  unfold linkTarget
  rcases hfind ((KeyMap.get? ctx.collections (m.factory.options.linked.getD "")).getD
    (m.factory.options.linked.getD "")) with h | ⟨h₁, h₂⟩
  · simp only [h]
  · simp [h₁, h₂, hf, hg]

theorem isLinked_of_withSchema {classes : KeyMap ClassDecl} {ctx : TypeContext} {d : Draft}
    {f g : Factory} (h : withSchema classes ctx d f = .ok g) :
    g.isLinked = f.isLinked ∧ g.name = f.name := by
  unfold withSchema at h
  split at h
  · cases h
    exact ⟨rfl, rfl⟩
  · obtain ⟨s, -, h⟩ := andThen_eq_ok_iff.mp h
    unfold Factory.installSchema at h
    split at h <;> cases h
    exact ⟨rfl, rfl⟩

theorem isLinked_of_withLink {ctx : TypeContext} {r : Registry} {d : Draft} {f g : Factory}
    (h : withLink ctx r d f = .ok g) : g.isLinked = f.isLinked ∧ g.name = f.name := by
  unfold withLink at h
  split at h
  · obtain ⟨target, -, h⟩ := andThen_eq_ok_iff.mp h
    obtain ⟨f', hf', h⟩ := andThen_eq_ok_iff.mp h
    unfold Factory.link at hf'
    unfold Factory.installSchema at h
    split at hf' <;> cases hf'
    split at h <;> cases h
    exact ⟨rfl, rfl⟩
  · cases h
    exact ⟨rfl, rfl⟩

/-- The pass that links factories to others and gives them their schemas. What a draft is linked to
can be looked up before the pass. -/
theorem forM_compileLink_iff (ctx : TypeContext) (ps : List (Draft × Factory))
    (hps : ∀ p ∈ ps, p.2.isLinked = p.1.factory.isLinked) (before : List Factory)
    (r r' : Registry) (hmade : r.made = before ++ ps.map Prod.snd) :
    ((Draft.numbered before.length (ps.map Prod.fst)).filter (·.factory.isLinked)).forM
        (compileLink ctx) r = .ok () r' ↔
      ∃ fs, List.Forall₂ (fun p f => withLink ctx r p.1 p.2 = .ok f) ps fs ∧
        r' = { r with made := before ++ fs } := by
  rw [forM_filter]
  refine forM_numbered_iff _ (fun r' => ∀ m, linkTarget ctx r' m = linkTarget ctx r m)
    (fun d f => f.isLinked = d.factory.isLinked) (withLink ctx r)
    (fun d f number r' hr' _ hf => ?_) (fun d f g number r' hr' hfit hf hg m => ?_)
    ps hps before r r' (fun _ => rfl) hmade
  · unfold withLink
    cases hl : d.factory.isLinked with
    | false => simp [Draft.enrolledAt, hl, update_self hf, pure, EStateM.pure]
    | true =>
      have hn : (if (d.enrolledAt number).factory.isLinked then
          compileLink ctx (d.enrolledAt number) else pure ()) =
          compileLink ctx (d.enrolledAt number) := if_pos (by simp [Draft.enrolledAt, hl])
      have ht : linkTarget ctx r' (d.enrolledAt number) = linkTarget ctx r (d.enrolledAt 0) :=
        hr' (d.enrolledAt number)
      rw [hn, if_pos rfl]
      unfold compileLink
      rw [ht]
      cases linkTarget ctx r (d.enrolledAt 0) with
      | error e => rfl
      | ok target => exact change_of_made hf
  · cases hl : d.factory.isLinked with
    | false =>
      rw [withLink, if_neg (by simp [hl])] at hg
      cases hg
      rw [update_self hf, hr']
    | true =>
      rw [linkTarget_update hf (hfit.trans hl)
        ((isLinked_of_withLink hg).1.trans (hfit.trans hl)), hr']

end Enrolled

/-! ### The whole -/

/-- What a draft becomes, in the registry that compiling leaves. -/
inductive Finished (classes : KeyMap ClassDecl) (ctx : TypeContext) (r : Registry) :
    Draft → Factory → Prop where
  /-- A draft of its own gets the schema of its class. -/
  | own {d : Draft} {s : ModelSchema} (h : d.factory.isLinked = false)
      (hs : ModelSchema.ofClass classes ctx d.factory.cls d.decl = .ok s) :
      Finished classes ctx r d { d.factory with schema? := some s }
  /-- A linked draft gets the schema of the factory it stands for, which is none that is linked. -/
  | linked {d : Draft} {target : Factory} (h : d.factory.isLinked = true)
      (ht : r.find? (ctx.linkName d.factory) = some target) (hu : target.isLinked = false)
      (hc : target.isCompiled = true) :
      Finished classes ctx r d
        { d.factory with link? := some target.name, schema? := some target.schema }

/-- Everything but schema and link is decided by the draft. -/
theorem Finished.agrees {classes : KeyMap ClassDecl} {ctx : TypeContext} {r : Registry} {d : Draft}
    {f : Factory} (h : Finished classes ctx r d f) :
    f = { d.factory with schema? := f.schema?, link? := f.link? } := by
  cases h <;> rfl

/-- A draft has neither schema nor link. -/
def Draft.IsBare (d : Draft) : Prop := d.factory.schema? = none ∧ d.factory.link? = none

/-- Only factories that are linked are told which collection they stand for. -/
theorem Finished.link?_eq_none {classes : KeyMap ClassDecl} {ctx : TypeContext} {r : Registry}
    {d : Draft} {f : Factory} (h : Finished classes ctx r d f) (hd : d.IsBare)
    (hl : f.isLinked = false) : f.link? = none := by
  cases h with
  | own => exact hd.2
  | linked hlinked => exact absurd (hlinked.symm.trans hl) nofun

/-- A loaded model has a draft if it is marked as a model and its factory can be made. -/
theorem Draft.ofModel?_eq_ok_iff {connectors : Connectors} {defaultDatasource : String}
    {m : LoadedModel} {d : Draft} : ofModel? connectors defaultDatasource m = .ok (some d) ↔
      ∃ said, classMetadata? m.decl = .ok (some said) ∧
        Enrolled.factoryOf connectors defaultDatasource m said = .ok d.factory ∧
        d.decl = m.decl := by
  unfold ofModel?
  cases classMetadata? m.decl with
  | error e => simp
  | ok said? =>
    cases said? with
    | none => simp
    | some said =>
      obtain ⟨factory, decl⟩ := d
      simp only [map_eq_ok_iff, Except.ok.injEq, Option.some.injEq, exists_eq_left', mk.injEq]
      constructor
      · rintro ⟨_, hf, rfl, rfl⟩
        exact ⟨hf, rfl⟩
      · rintro ⟨hf, rfl⟩
        exact ⟨factory, hf, rfl, rfl⟩

/-- A draft is that of a loaded model. -/
theorem Draft.mem_ofModels {connectors : Connectors} {defaultDatasource : String}
    {models : List LoadedModel} {ds : List Draft}
    (h : ofModels connectors defaultDatasource models = .ok ds) {d : Draft} (hd : d ∈ ds) :
    ∃ m ∈ models, ofModel? connectors defaultDatasource m = .ok (some d) := by
  unfold ofModels at h
  obtain ⟨os, hos, rfl⟩ := map_eq_ok_iff.mp h
  obtain ⟨o, ho, hid⟩ := List.mem_filterMap.mp hd
  have hid : o = some d := hid
  subst hid
  exact exists_left_of_forall₂ ((mapM_eq_ok_iff _ _ _).mp hos) ho

theorem Draft.isBare_of_ofModels {connectors : Connectors} {defaultDatasource : String}
    {models : List LoadedModel} {ds : List Draft}
    (h : ofModels connectors defaultDatasource models = .ok ds) : ∀ d ∈ ds, d.IsBare := by
  intro d hd
  obtain ⟨m, -, hm⟩ := mem_ofModels h hd
  obtain ⟨said, -, hf, -⟩ := ofModel?_eq_ok_iff.mp hm
  obtain ⟨hs, hl, -⟩ := Enrolled.factoryOf_eq_ok hf
  exact ⟨hs, hl⟩

namespace Enrolled

/-- The factory of a draft between the two passes: it is finished, unless it is linked. -/
def early (d : Draft) (f : Factory) : Factory := if d.factory.isLinked then d.factory else f

/-- A draft goes through both passes if it can be finished. -/
theorem passes_iff {classes : KeyMap ClassDecl} {ctx : TypeContext} {r₁ r : Registry} {d : Draft}
    (hd : d.IsBare) (hr : ∀ name target, target.isLinked = false →
      (r₁.find? name = some target ↔ r.find? name = some target)) (f g : Factory) :
    withSchema classes ctx d d.factory = .ok f ∧ withLink ctx r₁ d f = .ok g ↔
      f = early d g ∧ Finished classes ctx r d g := by
  unfold withSchema withLink early
  cases hl : d.factory.isLinked with
  | false =>
    simp only [Bool.false_eq_true, if_false, andThen_eq_ok_iff, Factory.installSchema, hd.1,
      Except.ok.injEq]
    constructor
    · rintro ⟨⟨s, hs, rfl⟩, rfl⟩
      exact ⟨rfl, .own hl hs⟩
    · rintro ⟨rfl, h⟩
      cases h with
      | own h hs => exact ⟨⟨_, hs, rfl⟩, rfl⟩
      | linked h => simp [hl] at h
  | true =>
    simp only [if_true, andThen_eq_ok_iff, Factory.installSchema, Factory.link, Except.ok.injEq,
      linkTarget_eq_ok_iff]
    constructor
    · rintro ⟨rfl, target, ⟨ht, hu, hc⟩, f', hf', hg⟩
      simp only [hd.2, Except.ok.injEq] at hf'
      subst hf'
      simp only [hd.1, Except.ok.injEq] at hg
      subst hg
      exact ⟨rfl, .linked hl ((hr _ _ hu).mp ht) hu hc⟩
    · rintro ⟨rfl, h⟩
      cases h with
      | own h => simp [hl] at h
      | @linked target h ht hu hc =>
        refine ⟨rfl, target, ⟨(hr _ _ hu).mpr ht, hu, hc⟩,
          { d.factory with link? := some target.name }, by simp only [hd.2], ?_⟩
        simp only [hd.1]

/-- Both passes together, draft by draft. -/
theorem forall₂_passes_iff {classes : KeyMap ClassDecl} {ctx : TypeContext} {r₁ r : Registry}
    {ds : List Draft} (hds : ∀ d ∈ ds, d.IsBare) (hr : ∀ name target, target.isLinked = false →
      (r₁.find? name = some target ↔ r.find? name = some target)) (fs gs : List Factory) :
    List.Forall₂ (fun d f => withSchema classes ctx d d.factory = .ok f) ds fs ∧
        List.Forall₂ (fun p g => withLink ctx r₁ p.1 p.2 = .ok g) (ds.zip fs) gs ↔
      fs = List.zipWith early ds gs ∧ List.Forall₂ (Finished classes ctx r) ds gs := by
  induction ds generalizing fs gs with
  | nil => cases fs <;> cases gs <;> simp
  | cons d rest ih =>
    have hd := @passes_iff classes ctx _ _ d (hds d (List.mem_cons_self ..)) hr
    have ih := ih fun d hd => hds d (List.mem_cons_of_mem _ hd)
    cases fs with
    | nil => cases gs <;> simp
    | cons f fs =>
      cases gs with
      | nil => simp
      | cons g gs =>
        simp only [List.forall₂_cons, List.zip_cons_cons, List.zipWith_cons_cons, List.cons.injEq]
        rw [and_and_and_comm, hd f g, ih fs gs, and_and_and_comm]

/-- What is finished is the same between the passes, unless it is linked. -/
theorem early_eq_or_isLinked {classes : KeyMap ClassDecl} {ctx : TypeContext} {r : Registry}
    {ds : List Draft} {gs : List Factory} (h : List.Forall₂ (Finished classes ctx r) ds gs) :
    List.Forall₂ (fun f g => f = g ∨ f.isLinked = true ∧ g.isLinked = true)
      (List.zipWith early ds gs) gs := by
  induction h with
  | nil => exact .nil
  | @cons d g ds gs hg _ ih =>
    refine .cons ?_ ih
    unfold early
    cases hl : d.factory.isLinked with
    | false => exact .inl rfl
    | true =>
      refine .inr ⟨hl, ?_⟩
      rw [hg.agrees]
      exact hl

end Enrolled

/-- What names of types stand for when drafts are compiled into a registry. -/
def Draft.context (r : Registry) (ds : List Draft) : TypeContext where
  collections := KeyMap.ofPairs (ds.map fun d => (d.decl.name, d.factory.name))
  registered := r.names ++ names ds

theorem Draft.map_numbered {α : Type} (g : Factory → ClassDecl → α) (n : Nat) (ds : List Draft) :
    (numbered n ds).map (fun m => g m.factory m.decl) = ds.map fun d => g d.factory d.decl := by
  induction ds generalizing n with
  | nil => rfl
  | cons d rest ih => simp [numbered, enrolledAt, ih]

theorem Draft.numbers (n : Nat) (ds : List Draft) :
    (numbered n ds).map Enrolled.number = List.range' n ds.length := by
  induction ds generalizing n with
  | nil => rfl
  | cons d rest ih => simp [numbered, enrolledAt, ih, List.range'_succ]

theorem Draft.context_eq (r : Registry) (ds : List Draft) :
    Enrolled.context (numbered r.made.length ds) (r.extend (ds.map factory)) = context r ds := by
  simp [Enrolled.context, context, Registry.names_extend, names, Function.comp_def,
    map_numbered (fun f c => (c.name, f.name))]

/-- Finished factories have the names of their drafts. -/
theorem Finished.names {classes : KeyMap ClassDecl} {ctx : TypeContext} {r : Registry}
    {ds : List Draft} {fs : List Factory} (h : List.Forall₂ (Finished classes ctx r) ds fs) :
    fs.map Factory.name = Draft.names ds := by
  induction h with
  | nil => rfl
  | cons hd _ ih =>
    rw [List.map_cons, ih, hd.agrees]
    rfl

theorem Registry.extend_early {r : Registry} {ds : List Draft} {fs : List Factory}
    (h : fs.map Factory.name = Draft.names ds) :
    { r.extend (ds.map Draft.factory) with made := r.made ++ fs } = r.extend fs := by
  have hz : ∀ (gs : List Factory), (gs.zipIdx r.made.length).map (fun p => (p.1.name, p.2)) =
      (gs.map Factory.name).zipIdx r.made.length := fun gs => by
    rw [List.zipIdx_map]
    rfl
  simp only [extend, hz, h]
  simp [Draft.names, Function.comp_def]

/-- The numbers lead to what is not linked, whatever linked factories are changed to. -/
theorem Registry.find?_congr_of_not_linked {r : Registry} {before fs gs : List Factory}
    (h : List.Forall₂ (fun f g => f = g ∨ f.isLinked = true ∧ g.isLinked = true) fs gs)
    (name : String) (target : Factory) (ht : target.isLinked = false) :
    Registry.find? { r with made := before ++ fs } name = some target ↔
      Registry.find? { r with made := before ++ gs } name = some target := by
  have hget : ∀ k : Nat, fs[k]? = some target ↔ gs[k]? = some target := by
    induction h with
    | nil => simp
    | @cons f g fs gs hfg _ ih =>
      intro k
      cases k with
      | succ k => simpa using ih k
      | zero =>
        rcases hfg with rfl | ⟨hf, hg⟩
        · rfl
        · constructor
          · rintro ⟨⟩
            rw [hf] at ht
            cases ht
          · rintro ⟨⟩
            rw [hg] at ht
            cases ht
  have hmade : ∀ number : Nat, (before ++ fs)[number]? = some target ↔
      (before ++ gs)[number]? = some target := by
    intro number
    by_cases hlt : number < before.length
    · rw [List.getElem?_append_left hlt, List.getElem?_append_left hlt]
    · rw [List.getElem?_append_right (Nat.le_of_not_lt hlt),
        List.getElem?_append_right (Nat.le_of_not_lt hlt), hget]
  unfold Registry.find?
  simp only [Option.bind_eq_some_iff]
  exact exists_congr fun number => and_congr_right fun _ => hmade number

namespace Enrolled

variable {connectors : Connectors} {defaultDatasource : String} {loaded : LoadedSources}
  {r r' : Registry}

theorem compile_steps_iff {numbers : List Nat} :
    compile connectors defaultDatasource loaded r = .ok numbers r' ↔
      ∃ ms r₁, (∃ es, loaded.models.mapM (enroll connectors defaultDatasource) r = .ok es r₁ ∧
          es.filterMap id = ms) ∧
        ∃ r₂, (ms.filter (!·.factory.isLinked)).forM
            (compileSchema loaded.classes (context ms r₁)) r₁ = .ok () r₂ ∧
          (ms.filter (·.factory.isLinked)).forM (compileLink (context ms r₁)) r₂ = .ok () r' ∧
          numbers = ms.map number := by
  unfold compile
  simp only [bind_eq_ok_iff]
  constructor
  · rintro ⟨es, r₁, hes, _, _, hget, ⟨⟩, r₂, h₂, ⟨⟩, r₃, h₃, hpure⟩
    cases hget
    cases hpure
    exact ⟨_, r₁, ⟨es, hes, rfl⟩, r₂, h₂, h₃, rfl⟩
  · rintro ⟨_, r₁, ⟨es, hes, rfl⟩, r₂, h₂, h₃, rfl⟩
    exact ⟨es, r₁, hes, r₁, r₁, rfl, (), r₂, h₂, (), r', h₃, rfl⟩

/-- What the first of the passes makes of a draft differs from what the second makes only if both
are linked. -/
theorem eq_or_isLinked {classes : KeyMap ClassDecl} {ctx : TypeContext} {ds : List Draft}
    {fs gs : List Factory}
    (hfs : List.Forall₂ (fun d f => withSchema classes ctx d d.factory = .ok f) ds fs)
    (hgs : List.Forall₂ (fun p g => withLink ctx r p.1 p.2 = .ok g) (ds.zip fs) gs) :
    List.Forall₂ (fun f g => f = g ∨ f.isLinked = true ∧ g.isLinked = true) fs gs := by
  induction hfs generalizing gs with
  | nil =>
    cases hgs
    exact .nil
  | @cons d f ds fs hf _ ih =>
    cases hgs with
    | cons hg hgs =>
      refine .cons ?_ (ih hgs)
      cases hl : d.factory.isLinked with
      | false =>
        unfold withLink at hg
        rw [hl] at hg
        exact .inl (Except.ok.inj hg)
      | true =>
        have hfl := (isLinked_of_withSchema hf).1.trans hl
        exact .inr ⟨hfl, (isLinked_of_withLink hg).1.trans hfl⟩

theorem names_of_passes {classes : KeyMap ClassDecl} {ctx : TypeContext} {ds : List Draft}
    {fs gs : List Factory}
    (hfs : List.Forall₂ (fun d f => withSchema classes ctx d d.factory = .ok f) ds fs)
    (hgs : List.Forall₂ (fun p g => withLink ctx r p.1 p.2 = .ok g) (ds.zip fs) gs) :
    gs.map Factory.name = Draft.names ds := by
  induction hfs generalizing gs with
  | nil =>
    cases hgs
    rfl
  | cons hf _ ih =>
    cases hgs with
    | cons hg hgs =>
      have hn := (isLinked_of_withLink hg).2.trans (isLinked_of_withSchema hf).2
      rw [List.map_cons, ih hgs, hn]
      rfl

/-- The passes over the registered drafts. -/
theorem passes_numbered_iff {classes : KeyMap ClassDecl} {ctx : TypeContext} {ds : List Draft}
    (hds : ∀ d ∈ ds, d.IsBare) :
    (∃ r₂, ((Draft.numbered r.made.length ds).filter (!·.factory.isLinked)).forM
          (compileSchema classes ctx) (r.extend (ds.map Draft.factory)) = .ok () r₂ ∧
        ((Draft.numbered r.made.length ds).filter (·.factory.isLinked)).forM
          (compileLink ctx) r₂ = .ok () r') ↔
      ∃ fs, List.Forall₂ (Finished classes ctx r') ds fs ∧ r' = r.extend fs := by
  -- the second pass, after the first has made these factories
  have hlink : ∀ {fs : List Factory},
      List.Forall₂ (fun d f => withSchema classes ctx d d.factory = .ok f) ds fs →
      (((Draft.numbered r.made.length ds).filter (·.factory.isLinked)).forM (compileLink ctx)
          { r.extend (ds.map Draft.factory) with made := r.made ++ fs } = .ok () r' ↔
        ∃ gs, List.Forall₂ (fun p g => withLink ctx
            { r.extend (ds.map Draft.factory) with made := r.made ++ fs } p.1 p.2 = .ok g)
            (ds.zip fs) gs ∧
          r' = { r.extend (ds.map Draft.factory) with made := r.made ++ gs }) := by
    intro fs hfs
    have hlen := hfs.length_eq
    have h := forM_compileLink_iff ctx (ds.zip fs) (fun p hp => ?_) r.made
      { r.extend (ds.map Draft.factory) with made := r.made ++ fs } r'
      (by rw [List.map_snd_zip (Nat.le_of_eq hlen.symm)])
    · rwa [List.map_fst_zip (Nat.le_of_eq hlen)] at h
    · exact (isLinked_of_withSchema ((List.forall₂_iff_zip.mp hfs).2 hp)).1
  constructor
  · rintro ⟨r₂, h₂, h₃⟩
    obtain ⟨fs, hfs, rfl⟩ := (forM_compileSchema_iff classes ctx ds r.made _ r₂ rfl).mp h₂
    obtain ⟨gs, hgs, rfl⟩ := (hlink hfs).mp h₃
    have hfind := @Registry.find?_congr_of_not_linked (r.extend (ds.map Draft.factory)) r.made
      _ _ (eq_or_isLinked hfs hgs)
    exact ⟨gs, ((forall₂_passes_iff hds hfind fs gs).mp ⟨hfs, hgs⟩).2,
      Registry.extend_early (names_of_passes hfs hgs)⟩
  · rintro ⟨gs, hgs, hr⟩
    rw [← Registry.extend_early (Finished.names hgs)] at hr
    subst hr
    have hfind := @Registry.find?_congr_of_not_linked (r.extend (ds.map Draft.factory)) r.made
      _ _ (early_eq_or_isLinked hgs)
    obtain ⟨hfs, hgs⟩ := (forall₂_passes_iff hds hfind _ gs).mpr ⟨rfl, hgs⟩
    exact ⟨_, (forM_compileSchema_iff classes ctx ds r.made _ _ rfl).mpr ⟨_, hfs, rfl⟩,
      (hlink hfs).mpr ⟨gs, hgs, rfl⟩⟩

end Enrolled

/-- **What compiling makes.** -/
theorem compile_eq_ok_iff {connectors : Connectors} {defaultDatasource : String}
    {loaded : LoadedSources} {r r' : Registry} {numbers : List Nat} :
    compile connectors defaultDatasource loaded r = .ok numbers r' ↔
      ∃ ds, Draft.ofModels connectors defaultDatasource loaded.models = .ok ds ∧
        r.Unused (Draft.names ds) ∧
        ∃ fs, List.Forall₂ (Finished loaded.classes (Draft.context r ds) r') ds fs ∧
          r' = r.extend fs ∧ numbers = List.range' r.made.length ds.length := by
  simp only [Enrolled.compile_steps_iff, Enrolled.mapM_enroll_iff]
  constructor
  · rintro ⟨_, _, ⟨ds, hds, hu, rfl, rfl⟩, r₂, h₂, h₃, rfl⟩
    rw [Draft.context_eq] at h₂ h₃
    obtain ⟨fs, hfs, hr⟩ :=
      (Enrolled.passes_numbered_iff (Draft.isBare_of_ofModels hds)).mp ⟨r₂, h₂, h₃⟩
    exact ⟨ds, hds, hu, fs, hfs, hr, Draft.numbers _ ds⟩
  · rintro ⟨ds, hds, hu, fs, hfs, hr, rfl⟩
    obtain ⟨r₂, h₂, h₃⟩ :=
      (Enrolled.passes_numbered_iff (Draft.isBare_of_ofModels hds)).mpr ⟨fs, hfs, hr⟩
    refine ⟨_, _, ⟨ds, hds, hu, rfl, rfl⟩, r₂, ?_, ?_, (Draft.numbers _ ds).symm⟩
    · rwa [Draft.context_eq]
    · rwa [Draft.context_eq]

/-- Where the drafts can be registered, compiling fails as the first draft fails that gets no
schema. -/
theorem compile_eq_error {connectors : Connectors} {defaultDatasource : String}
    {loaded : LoadedSources} {r : Registry} {ds : List Draft}
    (hds : Draft.ofModels connectors defaultDatasource loaded.models = .ok ds)
    (hu : r.Unused (Draft.names ds)) {e : ConfigError}
    (he : ds.mapM (fun d => Enrolled.withSchema loaded.classes (Draft.context r ds) d d.factory) =
      .error e) :
    ∃ r', compile connectors defaultDatasource loaded r = .error e r' := by
  obtain ⟨es, hes, hms⟩ := (Enrolled.mapM_enroll_iff connectors defaultDatasource loaded.models
    _ r _).mpr ⟨ds, hds, hu, rfl, rfl⟩
  obtain ⟨r', hr'⟩ := Enrolled.forM_compileSchema_error (r := r.extend (ds.map Draft.factory))
    loaded.classes (Draft.context r ds) rfl he
  refine ⟨r', ?_⟩
  unfold compile
  simp only [bind_eq_error_iff]
  refine .inr ⟨es, _, hes, .inr ⟨_, _, rfl, .inl ?_⟩⟩
  rw [hms, Draft.context_eq]
  exact hr'

end ModelRest
