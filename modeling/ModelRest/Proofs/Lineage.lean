import ModelRest.Schema.Lineage
import ModelRest.Proofs.Effects
import ModelRest.Proofs.KeyMap

/-!
# The way up

From a class the way up leads to its superclass, from there to the next, and so on, as long as these
are declared models. `ClassDecl.Ascends` lists the models met on it. The lineage of a class is what is
met on the whole way, if no class name comes twice (`lineage_eq_ok_iff`); if one does, that is the
error (`lineage_of_returns`). Either happens after finitely many steps, so the lineage always has an
answer.
-/

namespace ModelRest.ClassDecl

/-- The next class on the way up from a class: its superclass, if that is a declared model. -/
inductive Parent (classes : KeyMap ClassDecl) (c : ClassDecl) : Option ClassDecl → Prop where
  /-- There is no superclass. -/
  | none (h : c.superclass = none) : Parent classes c none
  /-- The superclass is not declared. -/
  | undeclared {name : String} (h : c.superclass = some name)
      (hd : KeyMap.get? classes name = none) : Parent classes c none
  /-- The superclass is no model. -/
  | unmarked {name : String} {p : ClassDecl} (h : c.superclass = some name)
      (hd : KeyMap.get? classes name = some p) (hm : classMetadata? p = .ok none) :
      Parent classes c none
  /-- The superclass is a model. -/
  | model {name : String} {p : ClassDecl} {said : ClassMetadata} (h : c.superclass = some name)
      (hd : KeyMap.get? classes name = some p) (hm : classMetadata? p = .ok (some said)) :
      Parent classes c (some p)

/-- The models met on the way up from a class, and the model that comes next. -/
inductive Ascends (classes : KeyMap ClassDecl) :
    ClassDecl → List ClassDecl → Option ClassDecl → Prop where
  /-- None is met yet. -/
  | here {c : ClassDecl} {next : Option ClassDecl} (h : c.Parent classes next) :
      Ascends classes c [] next
  /-- The next one is met. -/
  | up {c p : ClassDecl} {way : List ClassDecl} {next : Option ClassDecl}
      (h : c.Parent classes (some p)) (ha : Ascends classes p way next) :
      Ascends classes c (p :: way) next

/-- Classes are kept under their names. -/
def Keyed (classes : KeyMap ClassDecl) : Prop :=
  ∀ name c, KeyMap.get? classes name = some c → c.name = name

variable {classes remaining : KeyMap ClassDecl} {c : ClassDecl}

/-! ### One step -/

theorem parent?_eq_none_iff : c.parent? classes = .ok none ↔ c.Parent classes none := by
  constructor
  · intro h
    unfold parent? at h
    split at h
    · exact .none ‹_›
    · split at h
      · exact .undeclared ‹_› ‹_›
      · rename_i p hd
        obtain ⟨said, hm, hnone⟩ := map_eq_ok_iff.mp h
        exact .unmarked ‹_› hd (by rw [hm, Option.map_eq_none_iff.mp hnone])
  · intro h
    unfold parent?
    cases h with
    | none h => rw [h]
    | undeclared h hd => simp only [h, hd]
    | unmarked h hd hm =>
      simp only [h, hd, hm]
      rfl

/-- What `parent?` finds is the next class on the way up. -/
theorem parent_of_parent? {name : String} {p : ClassDecl}
    (h : c.parent? classes = .ok (some (name, p))) :
    c.Parent classes (some p) ∧ KeyMap.get? classes name = some p := by
  unfold parent? at h
  split at h
  · cases h
  · split at h
    · cases h
    · rename_i hd
      obtain ⟨said?, hm, hsome⟩ := map_eq_ok_iff.mp h
      obtain ⟨said, rfl, he⟩ := Option.map_eq_some_iff.mp hsome
      cases he
      exact ⟨.model ‹_› hd hm, hd⟩

theorem parent?_eq_some_iff (hk : Keyed classes) {name : String} {p : ClassDecl} :
    c.parent? classes = .ok (some (name, p)) ↔ c.Parent classes (some p) ∧ p.name = name := by
  constructor
  · intro h
    obtain ⟨hparent, hd⟩ := parent_of_parent? h
    exact ⟨hparent, hk _ _ hd⟩
  · rintro ⟨h, rfl⟩
    unfold parent?
    cases h with
    | model h hd hm =>
      simp only [h, hd, hm, hk _ _ hd]
      rfl

/-- The superclass that comes next is declared. -/
theorem Parent.contains (hk : Keyed classes) {p : ClassDecl} (h : c.Parent classes (some p)) :
    KeyMap.contains classes p.name = true := by
  cases h with
  | model _ hd _ =>
    rw [hk _ _ hd, KeyMap.contains, hd]
    rfl

theorem lineageAmong_eq (classes remaining : KeyMap ClassDecl) (c : ClassDecl) :
    c.lineageAmong classes remaining = match c.parent? classes with
      | .error e => .error e
      | .ok none => .ok [c]
      | .ok (some (name, p)) =>
        if KeyMap.contains remaining name then
          (p.lineageAmong classes (KeyMap.erase remaining name)).map (· ++ [c])
        else .error (.inheritanceCycle p.name) := by
  rw [lineageAmong]
  cases c.parent? classes with
  | error e => rfl
  | ok o =>
    cases o with
    | none => rfl
    | some q =>
      obtain ⟨name, p⟩ := q
      dsimp only
      show (if _h : _ then _ else _) = _
      by_cases h : KeyMap.contains remaining name = true
      · rw [dif_pos h, if_pos h]
        cases p.lineageAmong classes (KeyMap.erase remaining name) <;> rfl
      · rw [dif_neg h, if_neg h]
        rfl

/-! ### The whole way -/

/-- The names of the classes are different and among the remaining ones. -/
def Free (remaining : KeyMap ClassDecl) (ds : List ClassDecl) : Prop :=
  (ds.map name).Nodup ∧ ∀ d ∈ ds, KeyMap.contains remaining d.name = true

theorem free_nil : Free remaining [] := ⟨List.nodup_nil, fun _ hd => by cases hd⟩

theorem contains_erase (m : KeyMap ClassDecl) (key other : String) :
    KeyMap.contains (KeyMap.erase m key) other = (key != other && KeyMap.contains m other) := by
  unfold KeyMap.contains
  rw [KeyMap.get?_erase]
  by_cases h : key = other <;> simp [h]

theorem free_cons {p : ClassDecl} {ds : List ClassDecl} : Free remaining (p :: ds) ↔
    KeyMap.contains remaining p.name = true ∧ Free (KeyMap.erase remaining p.name) ds := by
  unfold Free
  simp only [List.map_cons, List.nodup_cons, List.mem_cons, forall_eq_or_imp, contains_erase,
    Bool.and_eq_true, bne_iff_ne, List.mem_map, not_exists, not_and]
  constructor
  · rintro ⟨⟨hne, hn⟩, hp, hds⟩
    exact ⟨hp, hn, fun d hd => ⟨fun e => hne d hd e.symm, hds d hd⟩⟩
  · rintro ⟨hp, hn, hds⟩
    exact ⟨⟨fun d hd e => (hds d hd).1 e.symm, hn⟩, hp, fun d hd => (hds d hd).2⟩

/-- Declared classes are among those that remain without a class if the names are different. -/
theorem free_erase_iff {ds : List ClassDecl}
    (hds : ∀ d ∈ ds, KeyMap.contains classes d.name = true) :
    Free (KeyMap.erase classes c.name) ds ↔ ((c :: ds).map name).Nodup := by
  unfold Free
  simp only [List.map_cons, List.nodup_cons, contains_erase, Bool.and_eq_true, bne_iff_ne,
    List.mem_map, not_exists, not_and]
  constructor
  · rintro ⟨hn, h⟩
    exact ⟨fun d hd e => (h d hd).1 e.symm, hn⟩
  · rintro ⟨h, hn⟩
    exact ⟨hn, fun d hd => ⟨fun e => h d hd e.symm, hds d hd⟩⟩

/-- What is met on the way up is declared, and so is what comes next. -/
theorem Ascends.contains (hk : Keyed classes) {way : List ClassDecl} {next : Option ClassDecl}
    (h : Ascends classes c way next) :
    ∀ d ∈ way ++ next.toList, KeyMap.contains classes d.name = true := by
  induction h with
  | @here c next h =>
    intro d hd
    obtain rfl := Option.mem_toList.mp hd
    exact h.contains hk
  | up h _ ih =>
    intro d hd
    rcases List.mem_cons.mp hd with rfl | hd
    · exact h.contains hk
    · exact ih d hd

/-- A lineage is what is met on the whole way up; classes that are kept under their names are met
only once. -/
theorem exists_ascends_of_lineageAmong {lineage : List ClassDecl}
    (h : c.lineageAmong classes remaining = .ok lineage) :
    ∃ way, Ascends classes c way none ∧ lineage = (c :: way).reverse ∧
      (Keyed classes → Free remaining way) := by
  -- what remains gets less
  induction hlen : remaining.length using Nat.strongRecOn generalizing remaining c lineage with
  | ind length ih =>
    rw [lineageAmong_eq] at h
    split at h
    · cases h
    · rename_i hp
      cases h
      exact ⟨[], .here (parent?_eq_none_iff.mp hp), rfl, fun _ => free_nil⟩
    · rename_i name p hp
      obtain ⟨hparent, hd⟩ := parent_of_parent? hp
      split at h
      · rename_i hc
        obtain ⟨before, hbefore, rfl⟩ := map_eq_ok_iff.mp h
        have hlt := KeyMap.length_erase_lt hc
        obtain ⟨way, ha, rfl, hfree⟩ := ih _ (hlen ▸ hlt) hbefore rfl
        refine ⟨p :: way, .up hparent ha, by simp, fun hk => ?_⟩
        obtain rfl := hk _ _ hd
        exact free_cons.mpr ⟨hc, hfree hk⟩
      · cases h

/-- The way up from a class has an end if the lineage has. -/
theorem lineageAmong_eq_ok_iff (hk : Keyed classes) {lineage : List ClassDecl} :
    c.lineageAmong classes remaining = .ok lineage ↔
      ∃ way, Ascends classes c way none ∧ Free remaining way ∧ lineage = (c :: way).reverse := by
  constructor
  · intro h
    obtain ⟨way, ha, hlineage, hfree⟩ := exists_ascends_of_lineageAmong h
    exact ⟨way, ha, hfree hk, hlineage⟩
  · rintro ⟨way, ha, hfree, rfl⟩
    induction way generalizing c remaining with
    | nil =>
      cases ha with
      | here h =>
        rw [lineageAmong_eq, parent?_eq_none_iff.mpr h]
        rfl
    | cons p way ih =>
      cases ha with
      | up h ha =>
        obtain ⟨hc, hfree⟩ := free_cons.mp hfree
        rw [lineageAmong_eq, (parent?_eq_some_iff hk).mpr ⟨h, rfl⟩]
        dsimp only
        rw [if_pos hc, ih ha hfree]
        simp [Except.map]

/-- Where the way up comes to a class that does not remain, it is at fault. -/
theorem lineageAmong_of_not_free (hk : Keyed classes) {way : List ClassDecl} {p : ClassDecl}
    (ha : Ascends classes c way (some p)) (hfree : Free remaining way)
    (hnot : ¬Free remaining (way ++ [p])) :
    c.lineageAmong classes remaining = .error (.inheritanceCycle p.name) := by
  induction way generalizing c remaining with
  | nil =>
    cases ha with
    | here h =>
      rw [lineageAmong_eq, (parent?_eq_some_iff hk).mpr ⟨h, rfl⟩]
      exact if_neg fun hc => hnot (free_cons.mpr ⟨hc, free_nil⟩)
  | cons q way ih =>
    cases ha with
    | up h ha =>
      obtain ⟨hc, hfree⟩ := free_cons.mp hfree
      rw [lineageAmong_eq, (parent?_eq_some_iff hk).mpr ⟨h, rfl⟩]
      dsimp only
      rw [if_pos hc, ih ha hfree fun hf => hnot (free_cons.mpr ⟨hc, hf⟩)]
      rfl

/-- **The lineage of a class** is what is met on the way up, if no class name comes twice on it. -/
theorem lineage_eq_ok_iff (hk : Keyed classes) {lineage : List ClassDecl} :
    c.lineage classes = .ok lineage ↔ ∃ way, Ascends classes c way none ∧
      ((c :: way).map name).Nodup ∧ lineage = (c :: way).reverse := by
  unfold ClassDecl.lineage
  rw [lineageAmong_eq_ok_iff hk]
  refine exists_congr fun way => and_congr_right fun ha => and_congr_left' ?_
  exact free_erase_iff fun d hd => ha.contains hk d (List.mem_append_left _ hd)

/-- **A way up that comes back to a class name** is an error. -/
theorem lineage_of_returns (hk : Keyed classes) {way : List ClassDecl} {p : ClassDecl}
    (ha : Ascends classes c way (some p)) (hn : ((c :: way).map name).Nodup)
    (hp : p.name ∈ (c :: way).map name) :
    c.lineage classes = .error (.inheritanceCycle p.name) := by
  have hcontains : ∀ d ∈ way ++ [p], KeyMap.contains classes d.name = true := ha.contains hk
  refine lineageAmong_of_not_free hk ha ?_ ?_
  · exact (free_erase_iff fun d hd => hcontains d (List.mem_append_left _ hd)).mpr hn
  · rw [free_erase_iff hcontains, ← List.cons_append, List.map_append]
    intro hdup
    exact List.disjoint_of_nodup_append hdup hp (by simp)

end ModelRest.ClassDecl
