import ModelRest.Proofs.Assignment
import ModelRest.Proofs.Deployment
import Mathlib.Data.List.Induction

/-!
# Protected values

A schema protects a value by declaring its field read-only, insert-only or immutable. Assigning a
body to a record heeds this, but it is not the only way to write to a record: a reference can be
written by itself, and a record can be put in the place of another by creating it again.
`Registry.Alters` names the four ways in which a request gives a protected value another one;
`value?_after_ne_iff` says for one request that there is no other way, and
`Server.keeps_protected_iff` for every sequence of requests.
-/

namespace ModelRest

/-! ### Protection -/

/-- The schema declares that clients must not change a value of the field that is there. -/
def ModelSchema.protects (s : ModelSchema) (name : String) : Bool :=
  (KeyMap.get? s.prototype name).any fun entry => (Field.ofEntry name entry none).isProtected

/-- What the schema protects, the fields of the model do. -/
theorem Registry.Deployed.isProtected {r : Registry} {s : Store} (hd : r.Deployed s) {f : Factory}
    (hf : f ∈ r.made) {field : Field} (hfield : field ∈ f.fields)
    (hp : f.schema.protects field.name = true) : field.isProtected = true := by
  obtain ⟨entry, visibility, hentry, he⟩ := hd.fields f hf field hfield
  unfold ModelSchema.protects at hp
  rw [hentry] at hp
  rw [he]
  exact hp

/-! ### Places -/

/-- Where a value is stored. -/
structure Place where
  /-- The number of the database. -/
  number : Nat
  /-- The collection. -/
  collection : String
  /-- The identifier of the record. -/
  id : String
  /-- The field. -/
  field : String

namespace Store

/-- The record at a place. -/
def record? (s : Store) (p : Place) : Option StoredRecord :=
  KeyMap.get? (s.records p.number p.collection) p.id

/-- The value at a place. -/
def value? (s : Store) (p : Place) : Option Json :=
  (s.record? p).bind fun record => KeyMap.get? record.values p.field

/-- There is a record at a place. -/
def Holds (s : Store) (p : Place) : Prop := (s.record? p).isSome = true

instance (s : Store) (p : Place) : Decidable (s.Holds p) := inferInstanceAs (Decidable (_ = true))

end Store

namespace Registry

variable {r : Registry} {call : Call} {s : Store} {p : Place} {i : Instance} {old : StoredRecord}

/-- The request writes an instance in the place of a record. -/
structure Writes (r : Registry) (call : Call) (s : Store) (p : Place) (i : Instance) : Prop where
  /-- The model is stored in the collection. -/
  bound : call.factory.actions? = some (.memory p.number p.collection)
  /-- The request writes. -/
  writes : call.operation.writes = true
  /-- The instance is what it writes. -/
  planned : ∃ params, r.plan call s = .ok (i, params) s
  /-- The validators accept the instance. -/
  accepted : call.factory.accepts s i = true
  /-- The instance has the identifier of the record. -/
  named : i.id? = some p.id

/-- The value that is written to a field for an instance. -/
def written? (call : Call) (i : Instance) (field : String) : Option Json :=
  KeyMap.get? (call.factory.simplifyValues i.values) field

/-! ### What is at a place after a request -/

/-- The record is then what is written in its place. -/
theorem Writes.record?_after (hw : r.Writes call s p i) (hf : call.factory.HookFree)
    (hn : p.number < s.databases.length) (hold : s.record? p = some old) :
    (r.after s call).record? p = some { old with
      values := updatedValues old.values (call.factory.simplifyValues i.values) p.id true
        s.nextStamp } := by
  obtain ⟨params, hplan⟩ := hw.planned
  have hsave := Factory.saveInstance_eq (s := s) hf hw.bound i params
  rw [if_pos hw.accepted, hw.named, Factory.write_of_stored hold] at hsave
  have hafter : r.after s call = s.afterUpdate p.number p.collection p.id { old with
      values := updatedValues old.values (call.factory.simplifyValues i.values) p.id true
        s.nextStamp } := by
    unfold after
    rw [perform_writes r hw.writes, bind_apply, hplan]
    dsimp only
    rw [bind_apply, liftFactory_apply, hsave]
    exact r.keeps_answer call _ params _
  rw [hafter]
  exact (Store.put_afterUpdate hn _).get?_self

/-- The value is then the one that is written, but for what the store writes itself. -/
theorem Writes.value?_after (hw : r.Writes call s p i) (hf : call.factory.HookFree)
    (hn : p.number < s.databases.length) (hs : s.Sound) (hold : s.record? p = some old) :
    (r.after s call).value? p =
      if p.field = updatedAtField then some s.nextStamp
      else if p.field = createdAtField ∨ p.field = idField then s.value? p
      else written? call i p.field := by
  have hvalue : s.value? p = KeyMap.get? old.values p.field := by
    unfold Store.value?
    rw [hold]
    rfl
  rw [hvalue, Store.value?, hw.record?_after hf hn hold]
  exact (hs _ _ _ _ hold).get?_updated _ _ _

/-- A record that stays and is not written is what it was. -/
theorem record?_after_of_not_writes (hf : call.factory.HookFree)
    (hm : call.factory.InMemory s.databases.length) (hold : s.record? p = some old)
    (hstays : (r.after s call).Holds p) (hnot : ∀ i, ¬r.Writes call s p i) :
    (r.after s call).record? p = some old := by
  have heffect := r.effect_perform hm
  unfold after at *
  generalize stateLeft (r.perform call s) = s' at *
  cases heffect with
  | nothing => exact hold
  | @deleted number collection id hb _ =>
    unfold Store.Holds Store.record? at *
    rw [Store.records_afterDelete (hm.lt hb)] at *
    split at hstays
    · rename_i hc
      obtain ⟨rfl, rfl⟩ := hc
      rw [if_pos ⟨rfl, rfl⟩]
      rw [KeyMap.get?_erase] at *
      split at hstays
      · cases hstays
      · rename_i hne
        rw [if_neg hne]
        exact hold
    · rename_i hc
      rw [if_neg hc]
      exact hold
  | @saved number collection i params stored _ hb hop hp hready hw =>
    cases hw with
    | created _ hfree hput =>
      unfold Store.record? at *
      rw [← hold]
      refine hput.get?_of_ne ?_
      rintro ⟨rfl, rfl, hid⟩
      rw [hid, KeyMap.contains, hold] at hfree
      cases hfree
    | updated hid _ hput =>
      unfold Store.record? at *
      rw [← hold]
      refine hput.get?_of_ne ?_
      rintro ⟨rfl, rfl, rfl⟩
      rw [Factory.id?_prepare hf] at hid
      exact hnot i ⟨hb, hop, ⟨params, hp⟩, Factory.accepts_of_prepare hf hready, hid⟩

/-! ### What is written to a protected field -/

theorem ignoreReadOnly_of_parameters {req : Request} {params : Parameters}
    (h : req.parameters = .ok params) : params.ignoreReadOnly = false := by
  obtain ⟨params', hq, rfl⟩ := map_eq_ok_iff.mp h
  have hignore := Parameters.ignoreReadOnly_ofQuery hq
  exact hignore

/-- Where only a reference is written, the record is the one that is there but for its value. -/
theorem exists_of_planReference {f : Factory} {req : Request} {number : Nat} {collection : String}
    (hb : f.actions? = some (.memory number collection)) (hs : s.Sound) {reference : String}
    {append : Bool} {params : Parameters} {s' : Store} (hid : reference ≠ idField)
    (h : r.planReference f req reference append s = .ok (i, params) s') :
    ∃ id record, i.id? = some id ∧ KeyMap.get? (s.records number collection) id = some record ∧
      ∀ name, reference ≠ name → KeyMap.get? i.values name = KeyMap.get? record.values name := by
  obtain ⟨-, _, id, record, value, -, -, -, hget, -, rfl⟩ := (planReference_eq_ok_iff hb).mp h
  refine ⟨id, record, ?_, hget, fun name hne => KeyMap.get?_insert_of_ne _ _ hne⟩
  show (KeyMap.get? (KeyMap.insert record.values reference value) idField).bind Json.string? = _
  rw [KeyMap.get?_insert_of_ne _ _ hid]
  exact (hs _ _ _ _ hget).idOf?_eq

/-- Where a record is written, its protected values are those that are there. -/
theorem exists_of_planRecord {f : Factory} {req : Request} {number : Nat} {collection : String}
    (hb : f.actions? = some (.memory number collection)) (hs : s.Sound) {deleteMissing : Bool}
    {params : Parameters} {s' : Store} (h : planRecord f req deleteMissing s = .ok (i, params) s') :
    ∃ id record, i.id? = some id ∧ KeyMap.get? (s.records number collection) id = some record ∧
      ∀ name, IsOrdinary name →
        (∀ field ∈ f.fields, field.name = name → field.isProtected = true) →
          KeyMap.get? i.values name = KeyMap.get? record.values name := by
  obtain ⟨-, body, id, record, -, hparams, -, hget, rfl⟩ := (planRecord_eq_ok_iff hb).mp h
  have hvalues := (hs _ _ _ _ hget).idOf?_eq
  have hignore := ignoreReadOnly_of_parameters hparams
  refine ⟨id, record, Factory.idOf?_assignAll hvalues, hget, fun name hname hp => ?_⟩
  show KeyMap.get? (f.assignAll { params with deleteMissing := deleteMissing } body
    record.values) name = _
  exact Factory.get?_assignAll_of_protected hvalues hp hignore hname.1 hname.2.1 hname.2.2

/-- A record that is written neither again nor at the reference in question keeps its value. -/
theorem Writes.get?_values (hw : r.Writes call s p i) (hs : s.Sound)
    (hfields : ∀ field ∈ call.factory.fields, field.name = p.field → field.isProtected = true)
    (hfield : IsOrdinary p.field) (hop : call.operation ≠ .create)
    (hother : ∀ reference, call.request.reference = some reference →
      reference ≠ p.field ∧ reference ≠ idField) :
    KeyMap.get? i.values p.field = s.value? p := by
  obtain ⟨params, hplan⟩ := hw.planned
  -- the instance is made from the record of its identifier
  have hrecord : ∀ {id : String} {record : StoredRecord}, i.id? = some id →
      KeyMap.get? (s.records p.number p.collection) id = some record →
        s.value? p = KeyMap.get? record.values p.field := by
    intro id record hid hget
    cases hid.symm.trans hw.named
    unfold Store.value? Store.record?
    rw [hget]
    rfl
  cases plans_of_plan hplan with
  | create hc => exact (hop hc).elim
  | @reference reference _ _ href h =>
    obtain ⟨hne, hneid⟩ := hother reference href
    obtain ⟨id, record, hid, hget, hvalues⟩ := exists_of_planReference hw.bound hs hneid h
    rw [hrecord hid hget]
    exact hvalues p.field hne
  | record _ _ h =>
    obtain ⟨id, record, hid, hget, hvalues⟩ := exists_of_planRecord hw.bound hs h
    rw [hrecord hid hget]
    exact hvalues p.field hfield hfields

/-! ### Alterations -/

/-- The request gives the value of a field of a record another one. -/
inductive Alters (r : Registry) (call : Call) (s : Store) (p : Place) : Prop where
  /-- It creates the record again, with another value. -/
  | posted {i : Instance} (hw : r.Writes call s p i) (hfield : IsOrdinary p.field)
      (hop : call.operation = .create) (hv : written? call i p.field ≠ s.value? p)
  /-- It writes the reference by itself, or the identifier as if it were one. -/
  | referred {i : Instance} {reference : String} (hw : r.Writes call s p i)
      (hfield : IsOrdinary p.field) (hop : call.operation ≠ .create)
      (href : call.request.reference = some reference)
      (hreference : reference = p.field ∨ reference = idField)
      (hv : written? call i p.field ≠ s.value? p)
  /-- It writes something else of the record, and the value is a reference that is still to be
  simplified. -/
  | simplified {i : Instance} {v : Json} (hw : r.Writes call s p i) (hfield : IsOrdinary p.field)
      (hop : call.operation ≠ .create)
      (hother : ∀ reference, call.request.reference = some reference →
        reference ≠ p.field ∧ reference ≠ idField)
      (hreference : KeyMap.contains call.factory.schema.references p.field = true)
      (hold : s.value? p = some v) (hv : Reference.simplify v ≠ v)
  /-- It writes the record, and the field is the time of the last change; the clock shows another
  time than at that change. -/
  | stamped {i : Instance} (hw : r.Writes call s p i) (hfield : p.field = updatedAtField)
      (hv : some s.nextStamp ≠ s.value? p)

/-- Simplifying changes a value exactly if it is a reference that is not simple. -/
theorem written?_ne_iff {v? : Option Json} (hi : KeyMap.get? i.values p.field = v?) :
    written? call i p.field ≠ v? ↔ KeyMap.contains call.factory.schema.references p.field = true ∧
      ∃ v, v? = some v ∧ Reference.simplify v ≠ v := by
  unfold written?
  rw [Factory.get?_simplifyValues, hi]
  cases v? with
  | none => simp
  | some v =>
    cases KeyMap.contains call.factory.schema.references p.field <;> simp

/-- What is known of a request to models in memory and of a place that they protect. -/
structure Guarded (call : Call) (s : Store) (p : Place) : Prop where
  /-- All records are in order. -/
  sound : s.Sound
  /-- No hook runs when an instance is written. -/
  hooks : call.factory.HookFree
  /-- If the model is stored, then in memory. -/
  memory : call.factory.InMemory s.databases.length
  /-- If the model is stored in the collection, it protects the field. -/
  fields : call.factory.actions? = some (.memory p.number p.collection) →
    ∀ field ∈ call.factory.fields, field.name = p.field → field.isProtected = true

/-- Two models in one collection protect the same. -/
theorem Deployed.guarded (hd : r.Deployed s) (hs : s.Sound) (hmade : call.factory ∈ r.made)
    (hooks : call.factory.HookFree) {f : Factory} (hf : f ∈ r.made)
    (hb : f.actions? = some (.memory p.number p.collection))
    (hp : f.schema.protects p.field = true) : Guarded call s p := by
  refine ⟨hs, hooks, hd.memory _ hmade, fun hbound field hfield hname => ?_⟩
  have hschema := hd.shared call.factory hmade f hf _ hbound hb
  rw [← hschema, ← hname] at hp
  exact hd.isProtected hmade hfield hp

theorem Guarded.value?_after (hg : Guarded call s p) (hw : r.Writes call s p i)
    (hfield : IsOrdinary p.field) (hold : s.record? p = some old) :
    (r.after s call).value? p = written? call i p.field := by
  rw [hw.value?_after hg.hooks (hg.memory.lt hw.bound) hg.sound hold, if_neg hfield.2.2,
    if_neg fun h => h.elim hfield.2.1 hfield.1]

/-- In each of the four ways the value becomes another one. -/
theorem Alters.value?_after_ne (h : r.Alters call s p) (hg : Guarded call s p)
    (hold : s.record? p = some old) : (r.after s call).value? p ≠ s.value? p := by
  cases h with
  | posted hw hfield _ hv =>
    rw [hg.value?_after hw hfield hold]
    exact hv
  | referred hw hfield _ _ _ hv =>
    rw [hg.value?_after hw hfield hold]
    exact hv
  | simplified hw hfield hop hother hreference hvalue hv =>
    have hkept := hw.get?_values hg.sound (hg.fields hw.bound) hfield hop hother
    rw [hg.value?_after hw hfield hold]
    exact (written?_ne_iff hkept).mpr ⟨hreference, _, hvalue, hv⟩
  | stamped hw hfield hv =>
    rw [hw.value?_after hg.hooks (hg.memory.lt hw.bound) hg.sound hold, if_pos hfield]
    exact hv

/-- To write another value to an ordinary field is one of the ways. -/
theorem Writes.alters (hw : r.Writes call s p i) (hg : Guarded call s p)
    (hfield : IsOrdinary p.field) (hv : written? call i p.field ≠ s.value? p) :
    r.Alters call s p := by
  by_cases hop : call.operation = .create
  · exact .posted hw hfield hop hv
  by_cases hreference : ∃ reference, call.request.reference = some reference ∧
      (reference = p.field ∨ reference = idField)
  · obtain ⟨reference, href, hreference⟩ := hreference
    exact .referred hw hfield hop href hreference hv
  · have hother : ∀ reference, call.request.reference = some reference →
        reference ≠ p.field ∧ reference ≠ idField := by
      intro reference href
      exact ⟨fun h => hreference ⟨reference, href, .inl h⟩,
        fun h => hreference ⟨reference, href, .inr h⟩⟩
    have hkept := hw.get?_values hg.sound (hg.fields hw.bound) hfield hop hother
    obtain ⟨hc, v, hold, hs⟩ := (written?_ne_iff hkept).mp hv
    exact .simplified hw hfield hop hother hc hold hs

/-- A value becomes another one in no other way. -/
theorem Guarded.alters (hg : Guarded call s p) (hold : s.record? p = some old)
    (hstays : (r.after s call).Holds p) (hne : (r.after s call).value? p ≠ s.value? p) :
    r.Alters call s p := by
  by_cases hex : ∃ i, r.Writes call s p i
  · obtain ⟨i, hw⟩ := hex
    have hafter := hw.value?_after hg.hooks (hg.memory.lt hw.bound) hg.sound hold
    by_cases hupdated : p.field = updatedAtField
    · rw [if_pos hupdated] at hafter
      rw [hafter] at hne
      exact .stamped hw hupdated hne
    by_cases hkept : p.field = createdAtField ∨ p.field = idField
    · rw [if_neg hupdated, if_pos hkept] at hafter
      exact (hne hafter).elim
    · rw [if_neg hupdated, if_neg hkept] at hafter
      rw [hafter] at hne
      exact hw.alters hg
        ⟨fun h => hkept (.inr h), fun h => hkept (.inl h), hupdated⟩ hne
  · have hsame := record?_after_of_not_writes hg.hooks hg.memory hold hstays
      fun i hw => hex ⟨i, hw⟩
    refine (hne ?_).elim
    unfold Store.value?
    rw [hsame, hold]

/-- **A request gives a protected value another one** exactly if it alters it in one of the four
ways. -/
theorem value?_after_ne_iff (hg : Guarded call s p) (hold : s.Holds p)
    (hstays : (r.after s call).Holds p) :
    (r.after s call).value? p ≠ s.value? p ↔ r.Alters call s p := by
  obtain ⟨old, hold⟩ := Option.isSome_iff_exists.mp hold
  exact ⟨hg.alters hold hstays, fun h => h.value?_after_ne hg hold⟩

end Registry

/-- **Protected values never change** along a sequence of requests, as long as the record stays,
exactly if none of the requests alters the value in one of the four ways. -/
theorem Server.keeps_protected_iff {server : Server} (h : server.Assembled)
    (hooks : server.HookFree) {s : Store} (hs : server.Reaches s) {f : Factory}
    (hf : f ∈ server.registry.made) {p : Place}
    (hb : f.actions? = some (.memory p.number p.collection))
    (hp : f.schema.protects p.field = true) {calls : List Call}
    (hcalls : ∀ call ∈ calls, call.factory ∈ server.registry.made)
    (hstays : ∀ before, before <+: calls → (before.foldl server.registry.after s).Holds p) :
    (∀ before, before <+: calls →
        (before.foldl server.registry.after s).value? p = s.value? p) ↔
      ∀ before call, before ++ [call] <+: calls →
        ¬server.registry.Alters call (before.foldl server.registry.after s) p := by
  have hstep : ∀ before call, before ++ [call] <+: calls →
      (((before ++ [call]).foldl server.registry.after s).value? p ≠
          (before.foldl server.registry.after s).value? p ↔
        server.registry.Alters call (before.foldl server.registry.after s) p) := by
    intro before call hpre
    have hbefore : before <+: calls := (List.prefix_append before [call]).trans hpre
    have hreach := hs.foldl fun c hc => hcalls c (hbefore.subset hc)
    have hmade := hcalls call (hpre.subset (List.mem_append_right _ (List.mem_singleton_self call)))
    have hafter := hstays _ hpre
    rw [List.foldl_append] at hafter ⊢
    have hguarded := (hreach.deployed h).guarded (hreach.sound h).2 hmade (hooks _ hmade) hf hb hp
    exact Registry.value?_after_ne_iff hguarded (hstays before hbefore) hafter
  constructor
  · intro hsame before call hpre halters
    have hbefore : before <+: calls := (List.prefix_append before [call]).trans hpre
    exact (hstep before call hpre).mpr halters ((hsame _ hpre).trans (hsame before hbefore).symm)
  · intro hkeeps before
    -- one request more at the end
    induction before using List.reverseRecOn with
    | nil => exact fun _ => rfl
    | append_singleton before call ih =>
      intro hpre
      have hbefore : before <+: calls := (List.prefix_append before [call]).trans hpre
      have hlast := not_not.mp (mt (hstep before call hpre).mp (hkeeps before call hpre))
      rw [hlast]
      exact ih hbefore

namespace Lending

/-- A book with its author. -/
def written : Request := { body := .object [("_id", .string "b1"), ("author", .string "a1")] }

/-- The store with the book. -/
def writtenStore : Store := storeAfter [(.create, written)]

/-- Where the author of the book is kept. -/
def author : Place := { number := 0, collection := "Book", id := "b1", field := "author" }

/-- Another author for the book. -/
def reattributed : Call :=
  { operation := .replace, factory := books, request :=
    { id := some "b1", reference := some "author", body := .string "a2" } }

theorem author_protected : books.schema.protects author.field = true := by decide +kernel

theorem author_stays : ∀ before, before <+: [reattributed] →
    (before.foldl server.registry.after writtenStore).Holds author := by
  intro before hpre
  rcases List.prefix_cons_iff.mp hpre with rfl | ⟨rest, rfl, hrest⟩
  · decide +kernel
  · rw [List.prefix_nil.mp hrest]
    decide +kernel

theorem author_changes : (server.registry.after writtenStore reattributed).value? author ≠
    writtenStore.value? author := by decide +kernel

/-- To write the reference alters the author. -/
theorem reattributed_alters : server.registry.Alters reattributed writtenStore author := by
  have hcalls : ∀ call ∈ [reattributed], call.factory ∈ server.registry.made := by
    intro call hcall
    rw [List.mem_singleton.mp hcall]
    exact books_mem
  have hiff := Server.keeps_protected_iff assembled hookFree (reaches_storeAfter _) books_mem
    books_actions author_protected hcalls author_stays
  by_contra hno
  refine author_changes (hiff.mpr (fun before call hpre halters => hno ?_) [reattributed]
    (List.prefix_refl _))
  rcases List.prefix_cons_iff.mp hpre with hnil | ⟨rest, hcons, hrest⟩
  · cases List.append_ne_nil_of_right_ne_nil before (List.cons_ne_nil call []) hnil
  · rw [List.prefix_nil.mp hrest] at hcons
    obtain ⟨rfl, hcall⟩ := List.append_eq_singleton_iff.mp hcons |>.resolve_right (by simp)
    cases hcall
    exact halters

/-- The author is protected, and yet replaced. -/
theorem author_replaced :
    books.schema.protects author.field = true ∧ writtenStore.Holds author ∧
      (server.registry.after writtenStore reattributed).Holds author ∧
      (server.registry.after writtenStore reattributed).value? author ≠
        writtenStore.value? author :=
  ⟨author_protected, author_stays [] (List.nil_prefix), author_stays _ (List.prefix_refl _),
    author_changes⟩

end Lending

end ModelRest
