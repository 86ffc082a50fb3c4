import ModelRest.Proofs.Compilation
import ModelRest.Proofs.KeyMap
import ModelRest.Proofs.Loading

/-!
# The order of declarations

Models may refer to each other, inherit from each other and stand for each other wherever they are
declared. Loading and compiling sources in another order, of the files or of what is inside them,
succeeds exactly if it does in the first order, and every collection then has the same factory:
`compileSources_reordered`.

The reason is that nothing that is looked up depends on how far the compiler got: the declared
classes, the collections of classes and the registered names are complete before the first schema is
made, and a linked model finds only models that are not linked.
-/

namespace ModelRest

/-! ### Sources in another order -/

/-- The items in another order, also inside namespaces. -/
inductive SourceItem.Reordered : List SourceItem → List SourceItem → Prop where
  /-- There are none. -/
  | nil : Reordered [] []
  /-- The first stays where it is. -/
  | cons (item : SourceItem) {items items' : List SourceItem} (h : Reordered items items') :
      Reordered (item :: items) (item :: items')
  /-- What is inside the first is in another order. -/
  | space (name : String) {inner inner' items items' : List SourceItem}
      (hi : Reordered inner inner') (h : Reordered items items') :
      Reordered (.space name inner :: items) (.space name inner' :: items')
  /-- The first two are exchanged. -/
  | swap (a b : SourceItem) (items : List SourceItem) : Reordered (b :: a :: items) (a :: b :: items)
  /-- Another order of another order. -/
  | trans {items items' items'' : List SourceItem} (h : Reordered items items')
      (h' : Reordered items' items'') : Reordered items items''

/-- The files in another order, and what is inside them. -/
inductive SourceFile.Reordered : List SourceFile → List SourceFile → Prop where
  /-- There are none. -/
  | nil : Reordered [] []
  /-- What is inside the first is in another order. -/
  | cons (path : String) {items items' : List SourceItem} {files files' : List SourceFile}
      (hi : SourceItem.Reordered items items') (h : Reordered files files') :
      Reordered ({ path := path, items := items } :: files)
        ({ path := path, items := items' } :: files')
  /-- The first two are exchanged. -/
  | swap (a b : SourceFile) (files : List SourceFile) : Reordered (b :: a :: files) (a :: b :: files)
  /-- Another order of another order. -/
  | trans {files files' files'' : List SourceFile} (h : Reordered files files')
      (h' : Reordered files' files'') : Reordered files files''

theorem SourceItem.Reordered.symm {items items' : List SourceItem} (h : Reordered items items') :
    Reordered items' items := by
  induction h with
  | nil => exact .nil
  | cons item _ ih => exact .cons item ih
  | space name _ _ ihi ih => exact .space name ihi ih
  | swap a b items => exact .swap b a items
  | trans _ _ ih ih' => exact .trans ih' ih

theorem SourceFile.Reordered.symm {files files' : List SourceFile} (h : Reordered files files') :
    Reordered files' files := by
  induction h with
  | nil => exact .nil
  | cons path hi _ ih => exact .cons path hi.symm ih
  | swap a b files => exact .swap b a files
  | trans _ _ ih ih' => exact .trans ih' ih

/-- Items in another order declare the same classes in another order. -/
theorem SourceItem.Reordered.classesOf_perm {items items' : List SourceItem}
    (h : Reordered items items') : (classesOf items).Perm (classesOf items') := by
  induction h with
  | nil => exact .nil
  | cons item _ ih => exact ih.append_left item.classes
  | space name _ _ ihi ih => exact ihi.append ih
  | swap a b items =>
    simp only [classesOf, ← List.append_assoc]
    exact List.perm_append_comm.append_right _
  | trans _ _ ih ih' => exact ih.trans ih'

/-- Files in another order declare the same classes in another order. -/
theorem SourceFile.Reordered.declarations_perm {files files' : List SourceFile}
    (h : Reordered files files') :
    (LoadedSources.declarations files).Perm (LoadedSources.declarations files') := by
  unfold LoadedSources.declarations
  induction h with
  | nil => exact .nil
  | cons path hi _ ih =>
    rw [List.flatMap_cons, List.flatMap_cons]
    exact (hi.classesOf_perm.map _).append ih
  | swap a b files => exact (List.Perm.swap a b files).flatMap_right _
  | trans _ _ ih ih' => exact ih.trans ih'

/-! ### The same models -/

/-- A loaded model has the declaration that it was loaded from. -/
theorem LoadedSources.decl_of_model? {table : ClassTable} {p : String × ClassDecl}
    {m : LoadedModel} (h : model? table p = .ok (some m)) : m.decl = p.2 := by
  unfold model? at h
  split at h
  · obtain ⟨said, -, h⟩ := map_eq_ok_iff.mp h
    obtain ⟨_, -, h⟩ := Option.bind_eq_some_iff.mp h
    obtain ⟨cls, -, rfl⟩ := Option.map_eq_some_iff.mp h
    rfl
  · cases h

/-- A draft has the declaration of its model. -/
theorem Draft.decl_of_ofModel? {connectors : Connectors} {defaultDatasource : String}
    {m : LoadedModel} {d : Draft} (h : ofModel? connectors defaultDatasource m = .ok (some d)) :
    d.decl = m.decl := by
  obtain ⟨said, -, -, hdecl⟩ := ofModel?_eq_ok_iff.mp h
  exact hdecl

/-- Drafts of loaded sources are of different classes, if the declared classes are. -/
theorem Draft.decl_names_nodup {sources : List SourceFile} {table : ClassTable}
    {connectors : Connectors} {defaultDatasource : String} {ms : List (Option LoadedModel)}
    {os : List (Option Draft)} (hn : (LoadedSources.classNames sources).Nodup)
    (hms : (LoadedSources.declarations sources).mapM (LoadedSources.model? table) = .ok ms)
    (hos : (ms.filterMap id).mapM (ofModel? connectors defaultDatasource) = .ok os) :
    ((os.filterMap id).map fun d => d.decl.name).Nodup := by
  have hm := filterMap_map_sublist (f := fun p : String × ClassDecl => p.2.name)
    (g := fun m : LoadedModel => m.decl.name) (((mapM_eq_ok_iff _ _ _).mp hms).imp
      fun p o h m ho => by rw [LoadedSources.decl_of_model? (h.trans (congrArg _ ho))])
  have hd := filterMap_map_sublist (f := fun m : LoadedModel => m.decl.name)
    (g := fun d : Draft => d.decl.name) (((mapM_eq_ok_iff _ _ _).mp hos).imp
      fun m o h d ho => by rw [Draft.decl_of_ofModel? (h.trans (congrArg _ ho))])
  exact hn.sublist (hd.trans hm)

/-! ### The same schemas -/

/-- A schema depends on the other models only by what names of types stand for. -/
theorem ModelSchema.ofClass_congr {ctx ctx' : TypeContext}
    (h : ∀ type, ctx.collection? type = ctx'.collection? type) (classes : KeyMap ClassDecl)
    (cls : ModelClass) (c : ClassDecl) : ofClass classes ctx cls c = ofClass classes ctx' cls c := by
  have ht : PropertyDecl.target? ctx = PropertyDecl.target? ctx' := by
    funext c p
    simp only [PropertyDecl.target?, h]
  have hm : addMember ctx = addMember ctx' := by
    funext cls c s m
    cases m with
    | property p => simp only [addMember, addProperty, ht]
    | method m => rfl
  unfold ofClass addMembers
  rw [hm]

/-- Names of types stand for the same when drafts are compiled in another order. -/
theorem Draft.collection?_context_perm {r : Registry} {ds ds' : List Draft} (h : ds.Perm ds')
    (hn : (ds.map fun d => d.decl.name).Nodup) :
    (context r ds).collections = (context r ds').collections ∧
      ∀ type, (context r ds).collection? type = (context r ds').collection? type := by
  have hc : (context r ds).collections = (context r ds').collections := by
    refine KeyMap.ofPairs_perm (h.map _) ?_
    rwa [List.map_map]
  refine ⟨hc, fun type => ?_⟩
  have hr : (context r ds).registered.contains type = (context r ds').registered.contains type := by
    have hp : (context r ds).registered.Perm (context r ds').registered :=
      (h.map fun d : Draft => d.factory.name).append_left r.names
    rw [Bool.eq_iff_iff, List.contains_iff_mem, List.contains_iff_mem]
    exact hp.mem_iff
  unfold TypeContext.collection?
  rw [hc, hr]

/-- Finishing a draft asks for nothing but schemas, names and other factories. -/
theorem Finished.congr {classes : KeyMap ClassDecl} {ctx ctx' : TypeContext} {r r' : Registry}
    (hc : ctx.collections = ctx'.collections)
    (ht : ∀ type, ctx.collection? type = ctx'.collection? type)
    (hr : ∀ name, r.find? name = r'.find? name) {d : Draft} {f : Factory}
    (h : Finished classes ctx r d f) : Finished classes ctx' r' d f := by
  cases h with
  | own h hs => exact .own h (by rwa [← ModelSchema.ofClass_congr ht])
  | linked h hf hu hs =>
    refine .linked h ?_ hu hs
    have hn : ctx'.linkName d.factory = ctx.linkName d.factory := by
      unfold TypeContext.linkName
      rw [hc]
    rw [← hr, hn]
    exact hf

/-! ### Compiling sources -/

/-- Loads sources and compiles the models among them. -/
def compileSources (connectors : Connectors) (defaultDatasource : String) (table : ClassTable)
    (sources : List SourceFile) : CompileM (List Nat) := fun r =>
  match LoadedSources.load sources table with
  | .ok loaded => compile connectors defaultDatasource loaded r
  | .error e => .error e r

/-- Registries that have grown by the same factories in another order find the same. -/
theorem Registry.find?_extend_perm {r : Registry} (hr : r.WellNumbered) {fs fs' : List Factory}
    (h : fs.Perm fs') (hu : r.Unused (fs.map Factory.name)) (name : String) :
    (r.extend fs).find? name = (r.extend fs').find? name := by
  have hp := h.map Factory.name
  have hu' : r.Unused (fs'.map Factory.name) :=
    ⟨hp.nodup hu.1, fun name hname => hu.2 name (hp.mem_iff.mpr hname)⟩
  refine Option.ext fun f => ?_
  rw [find?_extend_eq_some_iff hr hu, find?_extend_eq_some_iff hr hu', h.mem_iff]

variable {connectors : Connectors} {defaultDatasource : String} {table : ClassTable}
  {sources sources' : List SourceFile}

/-- What can be compiled in one order can be compiled in another, with the same factories. -/
theorem exists_compileSources_reordered {r₀ r : Registry} {numbers : List Nat}
    (h₀ : r₀.WellNumbered) (h : SourceFile.Reordered sources sources')
    (hn : (LoadedSources.classNames sources).Nodup)
    (hok : compileSources connectors defaultDatasource table sources r₀ = .ok numbers r) :
    ∃ numbers' r', compileSources connectors defaultDatasource table sources' r₀ =
        .ok numbers' r' ∧ ∀ name, r.find? name = r'.find? name := by
  have hp := h.declarations_perm
  -- loading
  unfold compileSources at hok
  cases hload : LoadedSources.load sources table with
  | error e => simp [hload] at hok
  | ok loaded =>
    simp only [hload] at hok
    obtain ⟨ms, hms, rfl⟩ := (LoadedSources.load_eq_ok_iff _ _ _).mp hload
    obtain ⟨ms', hms', hmp⟩ := mapM_perm hp hms
    have hclasses : KeyMap.ofPairs (LoadedSources.named (LoadedSources.declarations sources)) =
        KeyMap.ofPairs (LoadedSources.named (LoadedSources.declarations sources')) := by
      refine KeyMap.ofPairs_perm (hp.map _) ?_
      rwa [LoadedSources.named, List.map_map]
    have hload' := (LoadedSources.load_eq_ok_iff sources' table _).mpr ⟨ms', hms', rfl⟩
    -- compiling
    obtain ⟨ds, hds, hu, fs, hfs, rfl, -⟩ := compile_eq_ok_iff.mp hok
    obtain ⟨os, hos, rfl⟩ := map_eq_ok_iff.mp hds
    obtain ⟨os', hos', hop⟩ := mapM_perm (hmp.filterMap id) hos
    have hdp := hop.filterMap id
    obtain ⟨hc, ht⟩ := Draft.collection?_context_perm (r := r₀) hdp
      (Draft.decl_names_nodup hn hms hos)
    obtain ⟨fs', hfs', hfp⟩ := List.perm_comp_forall₂ hdp.symm hfs
    have hfind := Registry.find?_extend_perm h₀ hfp.symm (by rwa [Finished.names hfs])
    have hnames := hdp.map fun d => d.factory.name
    refine ⟨List.range' r₀.made.length (os'.filterMap id).length, r₀.extend fs', ?_, hfind⟩
    unfold compileSources
    rw [hload', ← hclasses]
    refine compile_eq_ok_iff.mpr ⟨os'.filterMap id, ?_, ⟨hnames.nodup hu.1, fun name hname =>
      hu.2 name (hnames.mem_iff.mpr hname)⟩, fs', ?_, rfl, rfl⟩
    · exact map_eq_ok_iff.mpr ⟨os', hos', rfl⟩
    · exact hfs'.imp fun d f hf => hf.congr hc ht hfind

/-- **The order of declarations does not matter.** Sources in another order compile exactly if they
compile as they are, and every collection then has the same factory, with its schema, its options
and the collection that it is linked to. -/
theorem compileSources_reordered (validators : KeyMap Validator)
    (h : SourceFile.Reordered sources sources')
    (hn : (LoadedSources.classNames sources).Nodup) :
    ((∃ numbers r, compileSources connectors defaultDatasource table sources
          { validators := validators } = .ok numbers r) ↔
        ∃ numbers' r', compileSources connectors defaultDatasource table sources'
          { validators := validators } = .ok numbers' r') ∧
      ∀ numbers r numbers' r',
        compileSources connectors defaultDatasource table sources { validators := validators } =
          .ok numbers r →
        compileSources connectors defaultDatasource table sources' { validators := validators } =
          .ok numbers' r' →
        ∀ name, r.find? name = r'.find? name := by
  have h₀ : Registry.WellNumbered { validators := validators } := by
    intro p hp
    cases hp
  have hn' : (LoadedSources.classNames sources').Nodup := (h.declarations_perm.map _).nodup hn
  constructor
  · constructor
    · rintro ⟨numbers, r, hok⟩
      obtain ⟨numbers', r', hok', -⟩ := exists_compileSources_reordered h₀ h hn hok
      exact ⟨numbers', r', hok'⟩
    · rintro ⟨numbers', r', hok'⟩
      obtain ⟨numbers, r, hok, -⟩ := exists_compileSources_reordered h₀ h.symm hn' hok'
      exact ⟨numbers, r, hok⟩
  · intro numbers r numbers' r' hok hok'
    obtain ⟨_, _, hok'', hfind⟩ := exists_compileSources_reordered h₀ h hn hok
    rw [hok'] at hok''
    cases hok''
    exact hfind

/-! ### A tangle -/

/-- A class with one property. -/
def classWith (name property type : String) : ClassDecl :=
  (ClassDecl.model name).addMember (.property { name := property, type := type })

/-- A book has authors, and is a record. -/
def bookClass : ClassDecl :=
  { classWith "Book" "authors" "Author[]" with superclass := some "Record" }

/-- A volume stands for a book. -/
def volumeClass : ClassDecl := (ClassDecl.named "Volume").decorate
  { name := "model", args := [.ofMembers [("linkedFactory", .string "Book")]] }

/-- Every class comes before those that it needs. -/
def bookSources : List SourceFile :=
  [{ path := "library", items :=
      [.decl volumeClass,
        .space "written" [.decl bookClass, .decl (classWith "Author" "books" "Book[]")]] },
    { path := "base", items := [.decl (classWith "Record" "title" "string")] }]

/-- Every class comes after those that it needs, as far as that can be. -/
def bookSourcesBackwards : List SourceFile :=
  [{ path := "base", items := [.decl (classWith "Record" "title" "string")] },
    { path := "library", items :=
      [.space "written" [.decl (classWith "Author" "books" "Book[]"), .decl bookClass],
        .decl volumeClass] }]

theorem bookSources_reordered : SourceFile.Reordered bookSources bookSourcesBackwards := by
  refine .trans (.swap _ _ _) (.cons "base" (.cons _ .nil) (.cons "library" ?_ .nil))
  exact .trans (.swap _ _ _) (.space "written" (.swap _ _ _) (.cons _ .nil))

/-- Classes without behaviour. -/
def bookTable : ClassTable :=
  ["Author", "Book", "Record", "Volume"].map fun name => (name, .plain name)

/-- Compiles books, which are kept in memory. -/
def compileBooks (sources : List SourceFile) : CompileM (List Nat) :=
  compileSources [(memoryDatasource, .memory memoryDatasource 0)] memoryDatasource bookTable sources

/-- The tangle compiles in both orders, and the volume stands for the book in both. -/
theorem books_reordered :
    ∃ numbers r numbers' r', compileBooks bookSources {} = .ok numbers r ∧
      compileBooks bookSourcesBackwards {} = .ok numbers' r' ∧
      (∀ name, r.find? name = r'.find? name) ∧
      (r.find? "Volume").bind Factory.link? = some "Book" := by
  obtain ⟨hiff, hsame⟩ := @compileSources_reordered [(memoryDatasource, .memory memoryDatasource 0)]
    memoryDatasource bookTable _ _ [] bookSources_reordered (by decide)
  have hlink : ((stateLeft (compileBooks bookSources {})).find? "Volume").bind Factory.link? =
      some "Book" := by decide +kernel
  obtain ⟨numbers, r, h⟩ := succeeded_iff.mp
    (by decide +kernel : succeeded (compileBooks bookSources {}) = true)
  obtain ⟨numbers', r', h'⟩ := hiff.mp ⟨numbers, r, h⟩
  rw [h] at hlink
  exact ⟨numbers, r, numbers', r', h, h', hsame _ _ _ _ h h', hlink⟩

end ModelRest
