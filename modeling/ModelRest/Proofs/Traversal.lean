import ModelRest.Proofs.KeyMap
import ModelRest.Proofs.Loading
import Mathlib.Data.List.Sort

/-!
# Loading goes from place to place

A class is declared at a place: the number of its source, the number of an item in it and, as long
as that item is a namespace, the number of an item inside. Loading visits the places in their order,
outer numbers first, and no place twice or not at all (`listedByPlace_declarations`). What it makes
of the visit is said by places too, in `LoadedSources.load_traverses`: which classes it keeps and
which of them are models, that the last class of a name counts, and at which class it fails.
-/

namespace ModelRest

/-! ### Listing by place -/

section Places

variable {α β : Type}

/-- The things listed are those that lie at places, each once and in the order of the places. -/
structure ListedByPlace (lies : List Nat → α → Prop) (xs : List α) : Prop where
  /-- One thing lies at a place. -/
  unique : ∀ place a b, lies place a → lies place b → a = b
  /-- The places are visited in order, and none is left out. -/
  visits : ∃ places : List (List Nat), places.Pairwise (· < ·) ∧ List.Forall₂ lies places xs ∧
    ∀ place a, lies place a → place ∈ places

/-- What lies at a place in one of several things: the first number of the place is that of the
thing, and the others are the place in it. -/
inductive Below (lies : β → List Nat → α → Prop) (xs : List β) : List Nat → α → Prop where
  /-- It lies in the thing of that number. -/
  | intro {n : Nat} {x : β} {place : List Nat} {a : α} (hn : xs[n]? = some x)
      (h : lies x place a) : Below lies xs (n :: place) a

theorem below_append_singleton_iff {lies : β → List Nat → α → Prop} {xs : List β} {x : β}
    {place : List Nat} {a : α} : Below lies (xs ++ [x]) place a ↔
      Below lies xs place a ∨ ∃ rest, place = xs.length :: rest ∧ lies x rest a := by
  constructor
  · rintro ⟨hn, h⟩
    rename_i n y rest
    rcases Nat.lt_trichotomy n xs.length with hlt | rfl | hgt
    · rw [List.getElem?_append_left hlt] at hn
      exact .inl ⟨hn, h⟩
    · rw [List.getElem?_concat_length] at hn
      cases hn
      exact .inr ⟨rest, rfl, h⟩
    · have hlen : (xs ++ [x]).length ≤ n := by simpa using Nat.succ_le_of_lt hgt
      rw [List.getElem?_eq_none hlen] at hn
      cases hn
  · rintro (⟨hn, h⟩ | ⟨rest, rfl, h⟩)
    · refine ⟨?_, h⟩
      rw [List.getElem?_append_left (List.getElem?_eq_some_iff.mp hn).1]
      exact hn
    · exact ⟨List.getElem?_concat_length, h⟩

namespace ListedByPlace

variable {lies : List Nat → α → Prop} {lies' : List Nat → β → Prop} {xs ys : List α}

/-- What lies at places can be listed in one way only. -/
theorem eq (h : ListedByPlace lies xs) (h' : ListedByPlace lies ys) : xs = ys := by
  obtain ⟨places, hasc, hxs, hall⟩ := h.visits
  obtain ⟨places', hasc', hys, hall'⟩ := h'.visits
  have hplaces : places = places' := by
    refine hasc.eq_of_mem_iff hasc' fun place => ⟨fun hp => ?_, fun hp => ?_⟩
    · obtain ⟨a, -, ha⟩ := exists_right_of_forall₂ hxs hp
      exact hall' place a ha
    · obtain ⟨a, -, ha⟩ := exists_right_of_forall₂ hys hp
      exact hall place a ha
  subst hplaces
  exact List.right_unique_forall₂' (fun place a b => h.unique place a b) hxs hys

/-- Of the things listed, those that are picked are listed. -/
theorem filterMap {f : α → Option β} (h : ListedByPlace lies xs)
    (hf : ∀ place b, lies' place b ↔ ∃ a, lies place a ∧ f a = some b) :
    ListedByPlace lies' (xs.filterMap f) := by
  obtain ⟨hunique, places, hasc, hxs, hall⟩ := h
  have hpicked : ∃ picked, picked.Sublist places ∧ List.Forall₂ lies' picked (xs.filterMap f) ∧
      ∀ place ∈ places, ∀ b, lies' place b → place ∈ picked := by
    clear hasc hall
    induction hxs with
    | nil => exact ⟨[], .slnil, .nil, nofun⟩
    | @cons place a places xs ha _ ih =>
      obtain ⟨picked, hsub, hall₂, hmem⟩ := ih
      -- what lies at the first place is picked as the thing listed there
      have hfirst : ∀ b, lies' place b → f a = some b := by
        intro b hb
        obtain ⟨a', ha', hfa⟩ := (hf place b).mp hb
        rwa [hunique place a a' ha ha']
      cases hfa : f a with
      | none =>
        rw [List.filterMap_cons_none hfa]
        refine ⟨picked, hsub.cons place, hall₂, fun p hp b hb => ?_⟩
        rcases List.mem_cons.mp hp with rfl | hp
        · exact absurd (hfa.symm.trans (hfirst b hb)) nofun
        · exact hmem p hp b hb
      | some b =>
        rw [List.filterMap_cons_some hfa]
        refine ⟨place :: picked, hsub.cons_cons place, .cons ((hf place b).mpr ⟨a, ha, hfa⟩) hall₂,
          fun p hp b hb => ?_⟩
        rcases List.mem_cons.mp hp with rfl | hp
        · exact List.mem_cons_self ..
        · exact List.mem_cons_of_mem _ (hmem p hp b hb)
  obtain ⟨picked, hsub, hall₂, hmem⟩ := hpicked
  refine ⟨fun place b b' hb hb' => ?_, picked, hasc.sublist hsub, hall₂, fun place b hb => ?_⟩
  · obtain ⟨a, ha, hfa⟩ := (hf place b).mp hb
    obtain ⟨a', ha', hfa'⟩ := (hf place b').mp hb'
    rw [hunique place a a' ha ha', hfa'] at hfa
    exact (Option.some.inj hfa).symm
  · obtain ⟨a, ha, -⟩ := (hf place b).mp hb
    exact hmem place (hall place a ha) b hb

/-- What is listed of each of several things is listed of all of them, one after the other. -/
theorem below {lies : β → List Nat → α → Prop} {things : List β} {list : β → List α}
    (h : ∀ x ∈ things, ListedByPlace (lies x) (list x)) :
    ListedByPlace (Below lies things) (things.flatMap list) := by
  constructor
  · rintro _ a b ⟨hn, ha⟩ ⟨hn', hb⟩
    cases hn.symm.trans hn'
    exact (h _ (List.mem_of_getElem? hn)).unique _ a b ha hb
  · induction things using List.reverseRecOn with
    | nil => exact ⟨[], .nil, .nil, by rintro _ a ⟨hn, -⟩; cases hn⟩
    | append_singleton things x ih =>
      obtain ⟨places, hasc, hlist, hall⟩ :=
        ih fun y hy => h y (List.mem_append_left _ hy)
      obtain ⟨inner, hinner, hx, hallx⟩ := (h x (by simp)).visits
      refine ⟨places ++ inner.map (things.length :: ·), ?_, ?_, ?_⟩
      · rw [List.pairwise_append]
        refine ⟨hasc, List.pairwise_map.mpr (hinner.imp fun hlt =>
          List.cons_lt_cons_iff.mpr (.inr ⟨rfl, hlt⟩)), fun place hp other ho => ?_⟩
        -- the places before are in things before
        obtain ⟨a, -, ha⟩ := exists_right_of_forall₂ hlist hp
        obtain ⟨rest, -, rfl⟩ := List.mem_map.mp ho
        obtain ⟨hn, -⟩ := ha
        exact List.cons_lt_cons_iff.mpr (.inl (List.getElem?_eq_some_iff.mp hn).1)
      · rw [List.flatMap_append, List.flatMap_singleton]
        refine List.rel_append (hlist.imp fun _ _ ha => below_append_singleton_iff.mpr (.inl ha)) ?_
        exact List.forall₂_map_left_iff.mpr (hx.imp fun rest a ha =>
          below_append_singleton_iff.mpr (.inr ⟨rest, rfl, ha⟩))
      · intro place a ha
        rw [List.mem_append, List.mem_map]
        rcases below_append_singleton_iff.mp ha with hbefore | ⟨rest, rfl, hlast⟩
        · exact .inl (hall place a hbefore)
        · exact .inr ⟨rest, hallx rest a hlast, rfl⟩

/-- Where the list is cut, it is cut by place. -/
theorem exists_place {before after : List α} {x : α}
    (h : ListedByPlace lies (before ++ x :: after)) : ∃ place, lies place x ∧
      (∀ other a, lies other a → other < place → a ∈ before) ∧
      ∀ other a, lies other a → place < other → a ∈ after := by
  obtain ⟨hunique, places, hasc, hlist, hall⟩ := h
  obtain ⟨places₁, place, places₂, rfl, hbefore, hx, hafter⟩ := forall₂_split hlist.flip
  obtain ⟨-, hasc₂, hcross⟩ := List.pairwise_append.mp hasc
  obtain ⟨hlt₂, -⟩ := List.pairwise_cons.mp hasc₂
  refine ⟨place, hx, fun other a ha hlt => ?_, fun other a ha hlt => ?_⟩
  · -- the place is not among the later ones, which come after that of the thing
    have hmem : other ∈ places₁ := by
      rcases List.mem_append.mp (hall other a ha) with hmem | hmem
      · exact hmem
      · rcases List.mem_cons.mp hmem with rfl | hmem
        · exact absurd hlt (List.lt_irrefl _)
        · exact absurd (List.lt_trans hlt (hlt₂ other hmem)) (List.lt_irrefl _)
    obtain ⟨b, hb, hlies⟩ := exists_left_of_forall₂ hbefore hmem
    rwa [hunique other a b ha hlies]
  · have hmem : other ∈ places₂ := by
      rcases List.mem_append.mp (hall other a ha) with hmem | hmem
      · exact absurd (List.lt_trans hlt (hcross other hmem place (List.mem_cons_self ..)))
          (List.lt_irrefl _)
      · rcases List.mem_cons.mp hmem with rfl | hmem
        · exact absurd hlt (List.lt_irrefl _)
        · exact hmem
    obtain ⟨b, hb, hlies⟩ := exists_left_of_forall₂ hafter hmem
    rwa [hunique other a b ha hlies]

/-- A thing that lies at a place parts the list by place. -/
theorem exists_split {place : List Nat} {x : α} (h : ListedByPlace lies xs) (hx : lies place x) :
    ∃ before after, xs = before ++ x :: after ∧
      (∀ a ∈ before, ∃ other, lies other a ∧ other < place) ∧
      ∀ a ∈ after, ∃ other, lies other a ∧ place < other := by
  obtain ⟨hunique, places, hasc, hlist, hall⟩ := h
  obtain ⟨places₁, places₂, rfl⟩ := List.append_of_mem (hall place x hx)
  obtain ⟨before, y, after, rfl, hbefore, hy, hafter⟩ := forall₂_split hlist
  obtain rfl := hunique place x y hx hy
  obtain ⟨-, hasc₂, hcross⟩ := List.pairwise_append.mp hasc
  refine ⟨before, after, rfl, fun a ha => ?_, fun a ha => ?_⟩
  · obtain ⟨other, hother, hlies⟩ := exists_left_of_forall₂ hbefore ha
    exact ⟨other, hlies, hcross other hother place (List.mem_cons_self ..)⟩
  · obtain ⟨other, hother, hlies⟩ := exists_left_of_forall₂ hafter ha
    exact ⟨other, hlies, (List.pairwise_cons.mp hasc₂).1 other hother⟩

end ListedByPlace

end Places

/-! ### Declarations by place -/

/-- A class is declared at a place in an item: the item itself is the class, or it is a namespace,
and the class is declared in one of its items. -/
inductive SourceItem.Declares : SourceItem → List Nat → ClassDecl → Prop where
  /-- The item is the class. -/
  | here (c : ClassDecl) : Declares (.decl c) [] c
  /-- The class is declared in an item of the namespace. -/
  | inside {name : String} {items : List SourceItem} {n : Nat} {item : SourceItem}
      {place : List Nat} {c : ClassDecl} (hn : items[n]? = some item)
      (h : Declares item place c) : Declares (.space name items) (n :: place) c

/-- A class is declared at a place in a source that was read from some path. -/
def SourceFile.Declares (file : SourceFile) (place : List Nat) (p : String × ClassDecl) : Prop :=
  p.1 = file.path ∧ Below SourceItem.Declares file.items place p.2

/-- A class is declared at a place among sources, in a source that was read from some path. -/
def DeclaredAt (sources : List SourceFile) : List Nat → String × ClassDecl → Prop :=
  Below SourceFile.Declares sources

namespace SourceItem

theorem declares_space_iff {name : String} {items : List SourceItem} {place : List Nat}
    {c : ClassDecl} : (space name items).Declares place c ↔ Below Declares items place c := by
  constructor
  · rintro (_ | ⟨hn, h⟩)
    exact ⟨hn, h⟩
  · rintro ⟨hn, h⟩
    exact .inside hn h

theorem classesOf_eq (items : List SourceItem) : classesOf items = items.flatMap classes := by
  induction items with
  | nil => rfl
  | cons item rest ih => rw [classesOf, ih, List.flatMap_cons]

/-- The classes of an item are listed by place. -/
theorem listedByPlace_classes (item : SourceItem) : ListedByPlace item.Declares item.classes := by
  cases item with
  | decl c =>
    refine ⟨?_, [[]], List.pairwise_singleton _ _, .cons (.here c) .nil, ?_⟩
    · rintro _ _ _ ⟨⟩ ⟨⟩
      rfl
    · rintro _ _ ⟨⟩
      exact List.mem_singleton_self _
  | space name items =>
    have hinner : ListedByPlace (Below Declares items) (classes (.space name items)) := by
      rw [classes, classesOf_eq]
      exact .below fun item _ => listedByPlace_classes item
    have hsame : (space name items).Declares = Below Declares items :=
      funext fun _ => funext fun _ => propext declares_space_iff
    rwa [hsame]

end SourceItem

/-- **The declarations of sources are listed by place.** -/
theorem listedByPlace_declarations (sources : List SourceFile) :
    ListedByPlace (DeclaredAt sources) (LoadedSources.declarations sources) := by
  refine .below fun file _ => ?_
  have hclasses : ListedByPlace (Below SourceItem.Declares file.items) file.classes := by
    rw [SourceFile.classes, SourceItem.classesOf_eq]
    exact .below fun item _ => item.listedByPlace_classes
  rw [← List.filterMap_eq_map]
  refine hclasses.filterMap fun place p => ?_
  obtain ⟨path, c⟩ := p
  constructor
  · rintro ⟨hpath, h⟩
    rw [← hpath]
    exact ⟨c, h, rfl⟩
  · rintro ⟨c', h, he⟩
    cases he
    exact ⟨rfl, h⟩

/-! ### Marks -/

namespace ClassDecl

/-- The class is marked as a model. -/
def IsMarked (c : ClassDecl) : Prop :=
  c.hasDecorator "model" = true ∨ c.hasDecorator "collection" = true

/-- The class can be used outside its source, and what its decorators say is an error. -/
def IsRefused (c : ClassDecl) : Prop := c.exported = true ∧ ∃ e, classMetadata? c = .error e

end ClassDecl

namespace ClassMetadata

/-- A decorator leaves a mark if it is one or if there was a mark before. -/
theorem isSome_applyCall {c : ClassDecl} {m m' : Option ClassMetadata} {call : DecoratorCall}
    (h : applyCall c m call = .ok m') :
    m'.isSome = true ↔ m.isSome = true ∨ call.name = "model" ∨ call.name = "collection" := by
  unfold applyCall at h
  obtain ⟨d, hd, h⟩ := andThen_eq_ok_iff.mp h
  rw [← Decorator.name_of_inspect hd]
  split at h
  · -- the argument of the mark leaves it a mark
    rename_i heq
    have hsome : m'.isSome = true := by
      dsimp only at h
      split at h
      · cases h
        rfl
      · cases h
        rfl
      · obtain ⟨said, -, rfl⟩ := map_eq_ok_iff.mp h
        rfl
      · cases h
    simp [hsome, heq]
  · rename_i heq
    have hsome : m'.isSome = true := by
      obtain ⟨name?, -, h⟩ := andThen_eq_ok_iff.mp h
      cases name? <;> cases h <;> rfl
    simp [hsome, heq]
  · rename_i hmodel hcollection
    cases h
    exact (or_iff_left fun he => he.elim hmodel hcollection).symm

/-- What is read of a class is the mark of a model exactly if the class is marked. -/
theorem isMarked_iff {c : ClassDecl} {said : Option ClassMetadata}
    (h : classMetadata? c = .ok said) : c.IsMarked ↔ said.isSome = true := by
  have hcalls : ∀ (calls : List DecoratorCall) (m m' : Option ClassMetadata),
      calls.foldlM (applyCall c) m = .ok m' → (m'.isSome = true ↔ m.isSome = true ∨
        ∃ call ∈ calls, call.name = "model" ∨ call.name = "collection") := by
    intro calls
    induction calls with
    | nil =>
      intro m m' h
      cases h
      simp
    | cons call calls ih =>
      intro m m' h
      rw [List.foldlM_cons] at h
      obtain ⟨m₁, h₁, h⟩ := andThen_eq_ok_iff.mp h
      rw [ih m₁ m' h, isSome_applyCall h₁, or_assoc]
      simp
  rw [hcalls _ _ _ h]
  unfold ClassDecl.IsMarked ClassDecl.hasDecorator
  simp only [List.any_eq_true, beq_iff_eq, Option.isSome_none, Bool.false_eq_true, false_or]
  rw [← exists_or]
  exact exists_congr fun call => and_or_left.symm

end ClassMetadata

/-! ### Loading by place -/

namespace LoadedSources

/-- A model is loaded from the place where its class is declared: the class is exported and marked,
and there is behaviour of its name. -/
structure LoadsAt (sources : List SourceFile) (table : ClassTable) (place : List Nat)
    (m : LoadedModel) : Prop where
  /-- The declaration is that at the place, and the source that in which it stands. -/
  declared : DeclaredAt sources place (m.source, m.decl)
  /-- The class can be used outside its source. -/
  exported : m.decl.exported = true
  /-- The class is marked as a model. -/
  marked : m.decl.IsMarked
  /-- The behaviour is that of its name. -/
  provided : KeyMap.get? table m.decl.name = some m.cls

/-- The class is declared under the name, and none of the name after it. -/
def IsLast (sources : List SourceFile) (name : String) (c : ClassDecl) : Prop :=
  ∃ place path, DeclaredAt sources place (path, c) ∧ c.name = name ∧
    ∀ other p, DeclaredAt sources other p → p.2.name = name → ¬place < other

/-- The class that is refused first is refused with this error. -/
def FirstRefused (sources : List SourceFile) (e : ConfigError) : Prop :=
  ∃ place p, DeclaredAt sources place p ∧ p.2.exported = true ∧ classMetadata? p.2 = .error e ∧
    ∀ other q, DeclaredAt sources other q → other < place → ¬q.2.IsRefused

/-- What is loaded from sources none of whose classes is refused. -/
structure Traverses (sources : List SourceFile) (table : ClassTable) (l : LoadedSources) :
    Prop where
  /-- No class is refused. -/
  accepted : ∀ place p, DeclaredAt sources place p → ¬p.2.IsRefused
  /-- The models are listed by the places that they are loaded from. -/
  models : ListedByPlace (LoadsAt sources table) l.models
  /-- The classes are kept in the order of their names. -/
  sorted : KeyMap.Sorted l.classes
  /-- A name has the class that is declared last under it. -/
  classes : ∀ name c, KeyMap.get? l.classes name = some c ↔ IsLast sources name c

variable {sources : List SourceFile} {table : ClassTable} {p : String × ClassDecl}

theorem model?_eq_error_iff {e : ConfigError} :
    model? table p = .error e ↔ p.2.exported = true ∧ classMetadata? p.2 = .error e := by
  unfold model?
  cases p.2.exported <;> cases classMetadata? p.2 <;> simp [Except.map]

theorem exists_model?_iff : (∃ o, model? table p = .ok o) ↔ ¬p.2.IsRefused := by
  unfold ClassDecl.IsRefused
  have herror : (∃ e, model? table p = .error e) ↔
      p.2.exported = true ∧ ∃ e, classMetadata? p.2 = .error e :=
    (exists_congr fun _ => model?_eq_error_iff).trans exists_and_left
  rw [← herror]
  cases model? table p <;> simp

/-- A declaration that is not refused gives a model if it is exported and marked, and if there is
behaviour of its name. -/
theorem model?_eq_some_iff (h : ¬p.2.IsRefused) {m : LoadedModel} :
    model? table p = .ok (some m) ↔ p = (m.source, m.decl) ∧ m.decl.exported = true ∧
      m.decl.IsMarked ∧ KeyMap.get? table m.decl.name = some m.cls := by
  constructor
  · intro hm
    unfold model? at hm
    split at hm
    · rename_i hx
      obtain ⟨said, hsaid, hm⟩ := map_eq_ok_iff.mp hm
      obtain ⟨mark, rfl, hm⟩ := Option.bind_eq_some_iff.mp hm
      obtain ⟨cls, hcls, rfl⟩ := Option.map_eq_some_iff.mp hm
      exact ⟨rfl, hx, (ClassMetadata.isMarked_iff hsaid).mpr rfl, hcls⟩
    · cases hm
  · rintro ⟨rfl, hx, hmarked, hcls⟩
    unfold model?
    rw [if_pos hx]
    cases hsaid : classMetadata? m.decl with
    | error e => exact absurd ⟨hx, e, hsaid⟩ h
    | ok said =>
      obtain ⟨mark, rfl⟩ :=
        Option.isSome_iff_exists.mp ((ClassMetadata.isMarked_iff hsaid).mp hmarked)
      simp [Except.map, hcls]

/-- The models loaded are those that the declarations give, each by itself. -/
theorem models_eq {ds : List (String × ClassDecl)} {ms : List (Option LoadedModel)}
    (h : ds.mapM (model? table) = .ok ms) :
    ms.filterMap id = ds.filterMap fun p => (model? table p).toOption.join := by
  have hms := (mapM_eq_ok_iff _ _ _).mp h
  clear h
  induction hms with
  | nil => rfl
  | @cons p m ds ms hm _ ih =>
    have hjoin : (model? table p).toOption.join = m := by
      rw [hm]
      rfl
    rw [List.filterMap_cons, List.filterMap_cons, ih, hjoin]
    rfl

theorem foldlM_add_eq_error_iff {ds : List (String × ClassDecl)} {l : LoadedSources}
    {e : ConfigError} :
    ds.foldlM (add table) l = .error e ↔ ds.mapM (model? table) = .error e := by
  induction ds generalizing l with
  | nil => exact iff_of_false nofun nofun
  | cons p rest ih =>
    rw [List.foldlM_cons, List.mapM_cons, add_eq]
    cases model? table p with
    | error e' =>
      constructor <;> rintro ⟨⟩
      · rfl
      · rfl
    | ok m =>
      refine ih.trans ?_
      cases rest.mapM (model? table) with
      | error e' =>
        constructor <;> rintro ⟨⟩
        · rfl
        · rfl
      | ok ms => exact iff_of_false nofun nofun

/-- The class kept under a name is the last one declared under it. -/
theorem get?_classes_eq_some_iff {name : String} {c : ClassDecl} :
    KeyMap.get? (KeyMap.ofPairs (named (declarations sources))) name = some c ↔
      IsLast sources name c := by
  have hlist := listedByPlace_declarations sources
  rw [KeyMap.get?_ofPairs_eq_some_iff_append]
  constructor
  · rintro ⟨before, after, hds, hafter⟩
    obtain ⟨ds₁, rest, hsplit, -, hrest⟩ := List.map_eq_append_iff.mp hds
    obtain ⟨p, ds₂, rfl, hp, rfl⟩ := List.map_eq_cons_iff.mp hrest
    rw [hsplit] at hlist
    obtain ⟨place, hplace, -, hlater⟩ := hlist.exists_place
    cases hp
    refine ⟨place, p.1, hplace, rfl, fun other q hq hname hlt => ?_⟩
    exact hafter _ (List.mem_map_of_mem (hlater other q hq hlt)) hname
  · rintro ⟨place, path, hplace, rfl, hlast⟩
    obtain ⟨before, after, hsplit, -, hafter⟩ := hlist.exists_split hplace
    refine ⟨named before, named after, ?_, fun q hq hname => ?_⟩
    · unfold named
      rw [hsplit, List.map_append, List.map_cons]
    · obtain ⟨p, hp, rfl⟩ := List.mem_map.mp hq
      obtain ⟨other, hother, hlt⟩ := hafter p hp
      exact hlast other p hother hname hlt

/-- What was loaded is what the visit of the places gives. -/
theorem traverses_of_load {l : LoadedSources} (h : load sources table = .ok l) :
    Traverses sources table l := by
  obtain ⟨ms, hms, rfl⟩ := (load_eq_ok_iff sources table l).mp h
  have hlist := listedByPlace_declarations sources
  have haccepted : ∀ place p, DeclaredAt sources place p → ¬p.2.IsRefused := by
    intro place p hp
    obtain ⟨before, after, hsplit, -⟩ := hlist.exists_split hp
    have hmem : p ∈ declarations sources := by
      rw [hsplit]
      exact List.mem_append_right _ (List.mem_cons_self ..)
    exact exists_model?_iff.mp ((exists_mapM_eq_ok_iff _ _).mp ⟨ms, hms⟩ p hmem)
  refine ⟨haccepted, ?_, KeyMap.sorted_ofPairs _, fun _ _ => get?_classes_eq_some_iff⟩
  show ListedByPlace _ (ms.filterMap id)
  rw [models_eq hms]
  refine hlist.filterMap fun place m => ⟨fun hm => ?_, ?_⟩
  · refine ⟨_, hm.declared, ?_⟩
    have hmodel : model? table (m.source, m.decl) = .ok (some m) :=
      (model?_eq_some_iff (haccepted _ _ hm.declared)).mpr
        ⟨rfl, hm.exported, hm.marked, hm.provided⟩
    rw [hmodel]
    rfl
  · rintro ⟨p, hp, hjoin⟩
    have hmodel : model? table p = .ok (some m) := by
      cases hm : model? table p with
      | error e =>
        rw [hm] at hjoin
        cases hjoin
      | ok o =>
        rw [hm] at hjoin
        exact congrArg Except.ok hjoin
    obtain ⟨rfl, hx, hmarked, hcls⟩ := (model?_eq_some_iff (haccepted _ _ hp)).mp hmodel
    exact ⟨hp, hx, hmarked, hcls⟩

/-- The visit of the places gives one thing only. -/
theorem Traverses.eq {l l' : LoadedSources} (h : Traverses sources table l)
    (h' : Traverses sources table l') : l = l' := by
  have hclasses : l.classes = l'.classes := by
    refine h.sorted.eq_of_get? h'.sorted fun name => Option.ext fun c => ?_
    rw [h.classes, h'.classes]
  have hmodels : l.models = l'.models := h.models.eq h'.models
  cases l
  cases l'
  cases hclasses
  cases hmodels
  rfl

/-- Loading fails as reading the first refused class does. -/
theorem load_eq_error_iff {e : ConfigError} :
    load sources table = .error e ↔ FirstRefused sources e := by
  have hlist := listedByPlace_declarations sources
  refine foldlM_add_eq_error_iff.trans ⟨fun h => ?_, ?_⟩
  · obtain ⟨before, p, after, hsplit, hbefore, hp⟩ := exists_error_of_mapM h
    rw [hsplit] at hlist
    obtain ⟨place, hplace, hearlier, -⟩ := hlist.exists_place
    obtain ⟨hx, he⟩ := model?_eq_error_iff.mp hp
    refine ⟨place, p, hplace, hx, he, fun other q hq hlt => ?_⟩
    exact exists_model?_iff.mp (hbefore q (hearlier other q hq hlt))
  · rintro ⟨place, p, hplace, hx, he, hfirst⟩
    obtain ⟨before, after, hsplit, hbefore, -⟩ := hlist.exists_split hplace
    rw [hsplit]
    refine mapM_eq_error (fun q hq => ?_) (model?_eq_error_iff.mpr ⟨hx, he⟩)
    obtain ⟨other, hother, hlt⟩ := hbefore q hq
    exact exists_model?_iff.mpr (hfirst other q hother hlt)

theorem exists_load_eq_error_iff : (∃ e, load sources table = .error e) ↔
    ∃ place p, DeclaredAt sources place p ∧ p.2.IsRefused := by
  constructor
  · rintro ⟨e, h⟩
    obtain ⟨place, p, hplace, hx, he, -⟩ := load_eq_error_iff.mp h
    exact ⟨place, p, hplace, hx, e, he⟩
  · rintro ⟨place, p, hplace, hp⟩
    cases h : load sources table with
    | error e => exact ⟨e, rfl⟩
    | ok l => exact absurd hp ((traverses_of_load h).accepted place p hplace)

/-- The names of classes are listed by the places of their declarations. -/
theorem listedByPlace_classNames (sources : List SourceFile) : ListedByPlace
    (fun place name => ∃ path c, DeclaredAt sources place (path, c) ∧ c.name = name)
    (classNames sources) := by
  unfold classNames
  rw [← List.filterMap_eq_map]
  refine (listedByPlace_declarations sources).filterMap fun place name => ⟨?_, ?_⟩
  · rintro ⟨path, c, hc, rfl⟩
    exact ⟨_, hc, rfl⟩
  · rintro ⟨⟨path, c⟩, hc, he⟩
    exact ⟨path, c, hc, Option.some.inj he⟩

/-- **Loading goes through the declarations by place.** It succeeds if no exported class is refused,
and then has loaded the models from where they are declared and kept the last class of every name.
Otherwise it fails as reading the first refused class does. The names of classes are those of all
declarations. -/
theorem load_traverses (sources : List SourceFile) (table : ClassTable) :
    (∀ l, load sources table = .ok l ↔ Traverses sources table l) ∧
    (∀ e, load sources table = .error e ↔ FirstRefused sources e) ∧
    ((∃ e, load sources table = .error e) ↔
      ∃ place p, DeclaredAt sources place p ∧ p.2.IsRefused) ∧
    ListedByPlace (fun place name => ∃ path c, DeclaredAt sources place (path, c) ∧ c.name = name)
      (classNames sources) := by
  refine ⟨fun l => ⟨traverses_of_load, fun h => ?_⟩, fun e => load_eq_error_iff,
    exists_load_eq_error_iff, listedByPlace_classNames sources⟩
  cases hload : load sources table with
  | ok l' => rw [(traverses_of_load hload).eq h]
  | error e =>
    obtain ⟨place, p, hplace, hp⟩ := exists_load_eq_error_iff.mp ⟨e, hload⟩
    exact absurd hp (h.accepted place p hplace)

/-- Namespaces are entered where they stand. -/
example : classNames [{ items := [.decl (.named "Base"),
      .space "billing" [.space "yearly" [.decl (.model "Statement")], .decl (.model "Invoice")],
      .decl (.model "Note")] }] = ["Base", "Statement", "Invoice", "Note"] := by decide

end LoadedSources

end ModelRest
