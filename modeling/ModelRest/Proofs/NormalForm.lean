import ModelRest.Proofs.Conformance
import ModelRest.Proofs.QueryIndependence

/-!
# References in normal form

A stored reference is in normal form if simplifying it changes nothing: neither the value nor an
item of it is an object that carries an identifier (`Reference.simplify_eq_self_iff`). A reference
that a client gives is simplified when it is taken over and again when the instance is saved, and
each time it loses one layer only. If its identifier is an object with an identifier, which is such
an object again, then an object is stored, and the next time that the record is saved, whatever for,
the reference becomes another one.

`Registry.Nests` says of a request that what it gives to a reference has too many layers. There is
no other way to a reference that is not in normal form: this is `Server.keepsSimple_iff`, which also
says that the references in normal form are those that saving a record leaves as they are.
-/

namespace ModelRest

/-! ### Values that simplifying does not change -/

/-- No value is a member of itself. -/
theorem Json.ne_of_member? {v w : Json} {name : String} (h : v.member? name = some w) : w ≠ v := by
  cases v with
  | object members =>
    have hmem : (name, w) ∈ members := KeyMap.mem_of_get? h
    have hsize := List.sizeOf_lt_of_mem hmem
    intro he
    rw [he] at hsize
    simp only [Json.object.sizeOf_spec, Prod.mk.sizeOf_spec] at hsize
    omega
  | null | bool | number | string | array => cases h

namespace Reference

/-- The value is an object that carries an identifier. -/
def IsPopulated (v : Json) : Prop := ∃ id, v.member? idField = some id ∧ id ≠ .null

/-- The value is populated still after it is simplified. -/
def IsNested (v : Json) : Prop := ∃ w ∈ items (simplify v), IsPopulated w

variable {v : Json}

theorem simplifyOne_eq_self_iff : simplifyOne v = v ↔ ¬IsPopulated v := by
  unfold simplifyOne IsPopulated
  split
  · rename_i hid
    simp [hid]
  · rename_i hid
    simp [hid]
  · rename_i id hnull hid
    exact iff_of_false (Json.ne_of_member? hid) (not_not_intro ⟨id, hid, hnull⟩)

/-- **Simplifying changes nothing** exactly where neither the value nor an item of it is
populated. -/
theorem simplify_eq_self_iff : simplify v = v ↔ ∀ w ∈ items v, ¬IsPopulated w := by
  have halone : simplifyOne v = v ↔ ∀ w ∈ [v], ¬IsPopulated w := by
    rw [List.forall_mem_singleton, simplifyOne_eq_self_iff]
  cases v with
  | array vs =>
    have hitems : vs.map simplifyOne = vs.map id ↔ ∀ w ∈ vs, simplifyOne w = id w :=
      List.map_inj_left
    rw [List.map_id] at hitems
    rw [simplify, Json.array.injEq, hitems]
    exact forall₂_congr fun w _ => simplifyOne_eq_self_iff
  | null | bool | number | string | object => exact halone

/-- What is simplified is in normal form unless it was nested. -/
theorem simplify_simplify_eq_iff : simplify (simplify v) = simplify v ↔ ¬IsNested v := by
  unfold IsNested
  rw [simplify_eq_self_iff]
  simp only [not_exists, not_and]

end Reference

/-! ### What a request gives to a reference -/

namespace Factory

variable {f : Factory} {params : Parameters} {data values : Object}

/-- A field that may not be written has the value that it had. -/
theorem get?_assignAll_of_not_writable {name : String} (hname : IsOrdinary name)
    (h : ∀ field ∈ f.fields, field.name = name →
      field.isWritable (idOf? values).isSome params = false) :
    KeyMap.get? (f.assignAll params data values) name = KeyMap.get? values name := by
  unfold assignAll
  rw [Field.get?_foldl_assign (fun v => v) (fun _ => rfl)]
  · exact ite_self _
  · rintro field hfield rfl values'
    unfold Field.assign
    simp [hname.1, hname.2.1, hname.2.2, h field hfield rfl]

/-- A key of the reference map has a field. -/
theorem Fitted.exists_field_of_reference {everywhere : KeyMap Validator} {reference : String}
    (h : f.Fitted everywhere) (href : KeyMap.contains f.schema.references reference = true) :
    ∃ field ∈ f.fields, field.name = reference := by
  have hkey := (h.consistent.mem_keys_iff reference).mpr (.inr (KeyMap.mem_keys_iff.mpr href))
  obtain ⟨entry, hentry⟩ := Option.isSome_iff_exists.mp (KeyMap.mem_keys_iff.mp hkey)
  exact h.exists_field hentry

end Factory

/-- Whether a field may be written does not depend on what becomes of missing values. -/
theorem Field.isWritable_eq {field : Field} {hasId : Bool} {params : Parameters}
    (h : params.ignoreReadOnly = false) :
    field.isWritable hasId params = field.isWritable hasId {} := by
  unfold isWritable
  rw [h]

/-- A field for a key of the reference map is a reference. -/
theorem Registry.Deployed.isReference {r : Registry} {s : Store} (hd : r.Deployed s) {f : Factory}
    (hf : f ∈ r.made) {field : Field} (hfield : field ∈ f.fields)
    (href : KeyMap.contains f.schema.references field.name = true) : field.isReference = true := by
  obtain ⟨entry, visibility, -, he⟩ := hd.fields f hf field hfield
  obtain ⟨info, hinfo⟩ := Option.isSome_iff_exists.mp href
  rw [he, hinfo]
  rfl

/-- The request gives a value to a reference of the instance that it writes. -/
inductive Call.Gives (call : Call) (s : Store) (number : Nat) (collection reference : String) :
    Json → Prop where
  /-- The body has one for it, and the field may be written. -/
  | body {field : Field} {v : Json}
      (hall : call.operation = .create ∨ call.request.reference = none)
      (hfield : field ∈ call.factory.fields) (hname : field.name = reference)
      (hw : field.isWritable (decide (call.operation ≠ .create)) {} = true)
      (hv : call.request.body.member? reference = some v) :
      Gives call s number collection reference (Reference.simplify v)
  /-- The request is about the reference alone. -/
  | path {id : String} {v : Json} (hop : call.operation ≠ .create)
      (href : call.request.reference = some reference) (hid : call.request.id = some id)
      (hv : Reference.written reference ((call.factory.field? reference).any Field.isPlural)
        (decide (call.operation = .patch))
        (s.value? { number := number, collection := collection, id := id, field := reference })
        (Reference.simplify call.request.body) = .ok v) :
      Gives call s number collection reference v

/-- What the values of an instance that a request writes are made of. -/
inductive Call.Composes (call : Call) (s : Store) (number : Nat) (collection : String) :
    Object → Prop where
  /-- The body is assigned to the values of a record, or of a new instance, which has none. -/
  | assigned {body old : Object} {params : Parameters}
      (hall : call.operation = .create ∨ call.request.reference = none)
      (hbody : call.request.body = .object body) (hparams : params.ignoreReadOnly = false)
      (hid : (idOf? old).isSome = decide (call.operation ≠ .create))
      (hold : ∀ name v, KeyMap.get? old name = some v → ∃ id,
        s.value? { number := number, collection := collection, id := id, field := name } =
          some v) :
      Composes call s number collection (call.factory.assignAll params body old)
  /-- A reference of a record is set. -/
  | set {reference id : String} {record : StoredRecord} {v : Json}
      (hop : call.operation ≠ .create) (href : call.request.reference = some reference)
      (hid : call.request.id = some id)
      (hget : KeyMap.get? (s.records number collection) id = some record)
      (hv : Reference.written reference ((call.factory.field? reference).any Field.isPlural)
        (decide (call.operation = .patch)) (KeyMap.get? record.values reference)
        (Reference.simplify call.request.body) = .ok v) :
      Composes call s number collection (KeyMap.insert record.values reference v)

namespace Registry

variable {r : Registry} {call : Call} {s : Store} {number : Nat} {collection reference : String}
  {i : Instance} {v : Json}

/-- What is assigned to a reference that may be written, simplified, is the value that it has. -/
theorem Deployed.get?_assignAll_of_given (hd : r.Deployed s) {f : Factory} (hf : f ∈ r.made)
    (hfit : f.Fitted r.sharedValidators) {params : Parameters}
    (hparams : params.ignoreReadOnly = false) {body old : Object} {field : Field}
    (hfield : field ∈ f.fields) (hname : IsOrdinary field.name)
    (href : KeyMap.contains f.schema.references field.name = true)
    (hw : field.isWritable (idOf? old).isSome {} = true)
    (hv : KeyMap.get? body field.name = some v) :
    KeyMap.get? (f.assignAll params body old) field.name = some (Reference.simplify v) := by
  rw [← Field.isWritable_eq hparams] at hw
  rw [Factory.get?_assignAll_of_writable hfit.names_nodup hfield hname hw, hv]
  unfold Field.accept
  rw [hd.isReference hf hfield href]
  rfl

/-- The value that a reference has after a body is assigned is what the body has, simplified, or the
one that it had. -/
theorem Deployed.given_or_kept (hd : r.Deployed s) {f : Factory} (hf : f ∈ r.made)
    (hfit : f.Fitted r.sharedValidators) {params : Parameters}
    (hparams : params.ignoreReadOnly = false) {body old : Object} (hname : IsOrdinary reference)
    (href : KeyMap.contains f.schema.references reference = true)
    (hv : KeyMap.get? (f.assignAll params body old) reference = some v) :
    (∃ field ∈ f.fields, field.name = reference ∧
      field.isWritable (idOf? old).isSome {} = true ∧
        ∃ given, KeyMap.get? body reference = some given ∧ v = Reference.simplify given) ∨
      KeyMap.get? old reference = some v := by
  obtain ⟨field, hfield, rfl⟩ := hfit.exists_field_of_reference href
  cases hw : field.isWritable (idOf? old).isSome {} with
  | true =>
    cases hgiven : KeyMap.get? body field.name with
    | some given =>
      rw [hd.get?_assignAll_of_given hf hfit hparams hfield hname href hw hgiven] at hv
      exact .inl ⟨field, hfield, rfl, hw, given, rfl, (Option.some.inj hv).symm⟩
    | none =>
      rw [← Field.isWritable_eq hparams] at hw
      rw [Factory.get?_assignAll_of_writable hfit.names_nodup hfield hname hw, hgiven] at hv
      cases hmissing : params.deleteMissing with
      | true => simp [hmissing] at hv
      | false => exact .inr (by simpa [hmissing] using hv)
  | false =>
    rw [← Field.isWritable_eq hparams] at hw
    rw [Factory.get?_assignAll_of_not_writable hname] at hv
    · exact .inr hv
    · intro other hother hsame
      -- there is one field of the name
      rw [List.inj_on_of_nodup_map hfit.names_nodup hother hfield hsame]
      exact hw

/-- What a request that saves an instance makes its values of. -/
theorem Saves.composes (h : r.Saves call s number collection i) (hs : s.Sound) :
    call.Composes s number collection i.values := by
  obtain ⟨params, -, -, hplan, -⟩ := h.saved
  cases plans_of_plan hplan with
  | create hop hcreate =>
    obtain ⟨-, body, hbody, -, rfl⟩ := planCreate_eq_ok_iff.mp hcreate
    refine .assigned (.inl hop) hbody rfl ?_ nofun
    rw [hop]
    rfl
  | record hop hwhole hrecord =>
    obtain ⟨-, body, id, record, hbody, hparams, -, hget, rfl⟩ :=
      (planRecord_eq_ok_iff h.bound).mp hrecord
    have hignore := ignoreReadOnly_of_parameters hparams
    refine .assigned (.inr hwhole) hbody hignore ?_ fun name v hv =>
      ⟨id, value?_eq_some_iff.mpr ⟨record, hget, hv⟩⟩
    rw [(hs _ _ _ _ hget).idOf?_eq]
    rcases hop with hop | hop <;> rw [hop] <;> rfl
  | reference hop href _ =>
    rw [plan_of_change_of_reference hop href] at hplan
    obtain ⟨-, _, id, record, value, -, -, hid, hget, hvalue, rfl⟩ :=
      (planReference_eq_ok_iff h.bound).mp hplan
    refine .set ?_ href hid hget hvalue
    rcases hop with hop | hop <;> rw [hop] <;> exact nofun

/-- What a request gives to a reference is the value that the instance has. -/
theorem Saves.get?_of_gives (h : r.Saves call s number collection i) (hd : r.Deployed s)
    (hf : call.factory ∈ r.made) (hfit : call.factory.Fitted r.sharedValidators) (hs : s.Sound)
    (hname : IsOrdinary reference)
    (href : KeyMap.contains call.factory.schema.references reference = true)
    (hgives : call.Gives s number collection reference v) :
    KeyMap.get? i.values reference = some v := by
  have hcomposes := h.composes hs
  generalize i.values = values at hcomposes ⊢
  cases hgives with
  | body hall hfield hfname hw hv =>
    subst hfname
    cases hcomposes with
    | assigned _ hbody hparams hid _ =>
      rw [hbody] at hv
      rw [← hid] at hw
      exact hd.get?_assignAll_of_given hf hfit hparams hfield hname href hw hv
    | set hop href' =>
      rcases hall with hall | hall
      · exact (hop hall).elim
      · cases hall.symm.trans href'
  | path hop href' hid hv =>
    cases hcomposes with
    | assigned hall =>
      rcases hall with hall | hall
      · exact (hop hall).elim
      · cases hall.symm.trans href'
    | set _ href'' hid' hget hvalue =>
      cases href'.symm.trans href''
      cases hid.symm.trans hid'
      rw [Store.value?, Store.record?, hget] at hv
      cases hvalue.symm.trans hv
      exact KeyMap.get?_insert_self ..

/-- The value that the instance has at a reference is given by the request, or stored already. -/
theorem Saves.gives_or_stored (h : r.Saves call s number collection i) (hd : r.Deployed s)
    (hf : call.factory ∈ r.made) (hfit : call.factory.Fitted r.sharedValidators) (hs : s.Sound)
    (hname : IsOrdinary reference)
    (href : KeyMap.contains call.factory.schema.references reference = true)
    (hv : KeyMap.get? i.values reference = some v) :
    call.Gives s number collection reference v ∨ ∃ id,
      s.value? { number := number, collection := collection, id := id, field := reference } =
        some v := by
  have hcomposes := h.composes hs
  generalize i.values = values at hcomposes hv
  cases hcomposes with
  | assigned hall hbody hparams hid hold =>
    rcases hd.given_or_kept hf hfit hparams hname href hv with
      ⟨field, hfield, hfname, hw, given, hgiven, rfl⟩ | hkept
    · rw [hid] at hw
      refine .inl (.body hall hfield hfname hw ?_)
      rw [hbody]
      exact hgiven
    · exact .inr (hold reference v hkept)
  | @set other id record value hop href' hid hget hvalue =>
    by_cases hother : other = reference
    · subst hother
      rw [KeyMap.get?_insert_self] at hv
      cases hv
      refine .inl (.path hop href' hid ?_)
      rw [Store.value?, Store.record?, hget]
      exact hvalue
    · rw [KeyMap.get?_insert_of_ne _ _ hother] at hv
      exact .inr ⟨id, value?_eq_some_iff.mpr ⟨record, hget, hv⟩⟩

/-! ### Requests that nest -/

/-- Every reference that is stored is in normal form. -/
def KeepsSimple (r : Registry) (s : Store) : Prop :=
  ∀ f ∈ r.made, ∀ p : Place, f.actions? = some (.memory p.number p.collection) →
    KeyMap.contains f.schema.references p.field = true → ∀ v, s.value? p = some v →
      Reference.simplify v = v

/-- A request saves an instance, and the value that it gives to a reference is populated still after
it is simplified. -/
structure Nests (r : Registry) (call : Call) (s : Store) (reference : String) : Prop where
  /-- The store does not write the value itself. -/
  ordinary : IsOrdinary reference
  /-- The model has the reference. -/
  known : KeyMap.contains call.factory.schema.references reference = true
  /-- The instance is saved, and the value given. -/
  given : ∃ number collection i v, r.Saves call s number collection i ∧
    call.Gives s number collection reference v ∧ Reference.IsNested v

/-- What is stored at a reference of an instance that is saved. -/
theorem Saves.stored (h : r.Saves call s number collection i) (hooks : call.factory.HookFree)
    (hn : number < s.databases.length) (hs : s.Sound) :
    ∃ id record, Store.Put s (r.after s call) number collection id record ∧
      ∀ reference, IsOrdinary reference →
        KeyMap.contains call.factory.schema.references reference = true →
          KeyMap.get? record.values reference =
            (KeyMap.get? i.values reference).map Reference.simplify := by
  obtain ⟨-, stored, hw⟩ := h.written hooks hn
  obtain ⟨id, record, -, hput, hmakes⟩ := hw.exists_makes hs
  refine ⟨id, record, hput, fun reference hname href => ?_⟩
  rw [hmakes.ordinary reference hname, Factory.get?_simplifyValues]
  simp only [href, if_true]

/-- A request that nests leaves a reference that is not in normal form. -/
theorem Nests.not_keepsSimple (h : r.Nests call s reference) (hd : r.Deployed s)
    (hf : call.factory ∈ r.made) (hfit : call.factory.Fitted r.sharedValidators)
    (hooks : call.factory.HookFree) (hs : s.Sound) : ¬r.KeepsSimple (r.after s call) := by
  intro hk
  obtain ⟨number, collection, i, v, hsaves, hgives, hnested⟩ := h.given
  have hv := hsaves.get?_of_gives hd hf hfit hs h.ordinary h.known hgives
  obtain ⟨id, record, hput, hstored⟩ :=
    hsaves.stored hooks ((hd.memory _ hf).lt hsaves.bound) hs
  have hvalue : KeyMap.get? record.values reference = some (Reference.simplify v) := by
    rw [hstored _ h.ordinary h.known, hv]
    rfl
  have hsimple := hk _ hf
    { number := number, collection := collection, id := id, field := reference } hsaves.bound
    h.known _ (value?_eq_some_iff.mpr ⟨record, hput.get?_self, hvalue⟩)
  exact Reference.simplify_simplify_eq_iff.mp hsimple hnested

/-- A request that does not nest keeps every reference in normal form. -/
theorem KeepsSimple.after (hk : r.KeepsSimple s) (hd : r.Deployed s) (hf : call.factory ∈ r.made)
    (hfit : call.factory.Fitted r.sharedValidators) (hooks : call.factory.HookFree) (hs : s.Sound)
    (htexts : ∀ p v, ¬IsOrdinary p.field → (r.after s call).value? p = some v →
      ∃ text, v = .string text) (hno : ∀ reference, ¬r.Nests call s reference) :
    r.KeepsSimple (r.after s call) := by
  intro f hfm p hb href v hv
  by_cases hname : IsOrdinary p.field
  case neg =>
    obtain ⟨text, rfl⟩ := htexts p v hname hv
    rfl
  case pos =>
    obtain ⟨record, hget, hvalue⟩ := value?_eq_some_iff.mp hv
    have hold : KeyMap.get? (s.records p.number p.collection) p.id = some record →
        Reference.simplify v = v := fun h =>
      hk f hfm p hb href v (value?_eq_some_iff.mpr ⟨record, h, hvalue⟩)
    rcases kept_or_saves (r := r) hooks (hd.memory _ hf) with
      hkept | ⟨number, collection, i, hsaves⟩
    · exact hold (hkept _ _ _ _ hget)
    · obtain ⟨id, written, hput, hstored⟩ :=
        hsaves.stored hooks ((hd.memory _ hf).lt hsaves.bound) hs
      by_cases hhere : number = p.number ∧ collection = p.collection ∧ id = p.id
      case neg =>
        rw [hput.get?_of_ne hhere] at hget
        exact hold hget
      case pos =>
        obtain ⟨rfl, rfl, rfl⟩ := hhere
        cases hput.get?_self.symm.trans hget
        -- models of one collection have one schema
        rw [hd.shared f hfm _ hf _ hb hsaves.bound] at href
        rw [hstored _ hname href, Option.map_eq_some_iff] at hvalue
        obtain ⟨u, hu, rfl⟩ := hvalue
        rcases hsaves.gives_or_stored hd hf hfit hs hname href hu with hgives | ⟨id, hu⟩
        · rw [Reference.simplify_simplify_eq_iff]
          exact fun hnested =>
            hno p.field ⟨hname, href, _, _, i, u, hsaves, hgives, hnested⟩
        · have hsimple := hk _ hf { p with id := id } hsaves.bound href u hu
          rw [hsimple, hsimple]

end Registry

/-! ### Saving again -/

namespace Factory

/-- The instance is that of a stored record, and its reference is the one that is stored. -/
structure Untouched (f : Factory) (s : Store) (p : Place) (i : Instance) : Prop where
  /-- The model is stored in the collection. -/
  bound : f.actions? = some (.memory p.number p.collection)
  /-- The model has the reference. -/
  known : KeyMap.contains f.schema.references p.field = true
  /-- There is a record. -/
  stored : s.Holds p
  /-- The instance has its identifier. -/
  named : i.id? = some p.id
  /-- The instance has its value. -/
  same : i.get? p.field = s.value? p

variable {f : Factory} {s s' : Store} {p : Place} {i i' : Instance} {params : Parameters}

/-- What becomes of a reference that is not touched when its record is saved. -/
theorem Untouched.value?_saved (hi : f.Untouched s p i) (hooks : f.HookFree)
    (hn : p.number < s.databases.length) (hs : s.Sound)
    (h : f.saveInstance i params s = .ok i' s') : s'.value? p =
      if p.field = updatedAtField then some s.nextStamp
      else if p.field = createdAtField ∨ p.field = idField then s.value? p
      else (s.value? p).map Reference.simplify := by
  obtain ⟨old, hold⟩ := Option.isSome_iff_exists.mp hi.stored
  obtain ⟨-, hw⟩ := saveInstance_ok hooks hi.bound hn h
  rw [hi.named] at hw
  have hvalue : s.value? p = KeyMap.get? old.values p.field := by
    rw [Store.value?, hold]
    rfl
  have hsimple : KeyMap.get? (f.simplifyValues i.values) p.field =
      (s.value? p).map Reference.simplify := by
    rw [get?_simplifyValues, ← hi.same]
    simp only [hi.known, if_true]
    rfl
  rw [← hsimple, hvalue, Store.value?, Store.record?, (hw.put_of_stored hold).get?_self]
  exact (hs _ _ _ _ hold).get?_updated _ _ _

/-- A reference that is not touched stays when its record is saved exactly if it is in normal form;
the time of the last change stays only if the clock shows it still. -/
theorem Untouched.value?_saved_eq_iff (hi : f.Untouched s p i) (hooks : f.HookFree)
    (hn : p.number < s.databases.length) (hs : s.Sound)
    (htext : ∀ v, ¬IsOrdinary p.field → s.value? p = some v → ∃ text, v = .string text)
    (h : f.saveInstance i params s = .ok i' s') : s'.value? p = s.value? p ↔
      (p.field = updatedAtField → s.value? p = some s.nextStamp) ∧
        ∀ v, s.value? p = some v → Reference.simplify v = v := by
  -- a text is in normal form
  have hsimple : ¬IsOrdinary p.field → ∀ v, s.value? p = some v → Reference.simplify v = v := by
    intro hname v hv
    obtain ⟨text, rfl⟩ := htext v hname hv
    rfl
  rw [hi.value?_saved hooks hn hs h]
  by_cases hupdated : p.field = updatedAtField
  · rw [if_pos hupdated]
    exact ⟨fun hsame => ⟨fun _ => hsame.symm, hsimple fun hname => hname.2.2 hupdated⟩,
      fun hand => (hand.1 hupdated).symm⟩
  · rw [if_neg hupdated]
    by_cases hkept : p.field = createdAtField ∨ p.field = idField
    · rw [if_pos hkept]
      exact iff_of_true rfl ⟨fun he => (hupdated he).elim,
        hsimple fun hname => hkept.elim hname.2.1 hname.1⟩
    · rw [if_neg hkept]
      cases s.value? p with
      | none => simp [hupdated]
      | some v => simp [hupdated]

end Factory

namespace Server

variable {server : Server}

/-- What the store writes itself are texts. -/
theorem Reaches.exists_text (h : server.Assembled) {s : Store} (hs : server.Reaches s) {p : Place}
    {v : Json} (hname : ¬IsOrdinary p.field) (hv : s.value? p = some v) :
    ∃ text, v = .string text := by
  obtain ⟨record, hget, hvalue⟩ := Registry.value?_eq_some_iff.mp hv
  obtain ⟨text, htext⟩ :=
    Store.exists_text_of_not_ordinary (hs.sound h).2 hget p.field hname
  exact ⟨text, Option.some.inj (hvalue.symm.trans htext)⟩

/-- A request keeps the references in normal form exactly if it does not nest. -/
theorem keepsSimple_after_iff (h : server.Assembled) (hooks : server.HookFree) {s : Store}
    (hs : server.Reaches s) {call : Call} (hf : call.factory ∈ server.registry.made)
    (hk : server.registry.KeepsSimple s) :
    server.registry.KeepsSimple (server.registry.after s call) ↔
      ¬∃ reference, server.registry.Nests call s reference := by
  have hd := hs.deployed h
  have hsound := (hs.sound h).2
  constructor
  · rintro hkeeps ⟨reference, hnests⟩
    exact hnests.not_keepsSimple hd hf (h.fitted _ hf) (hooks _ hf) hsound hkeeps
  · intro hno
    exact hk.after hd hf (h.fitted _ hf) (hooks _ hf) hsound
      (fun _ _ hname hv => (hs.after hf).exists_text h hname hv) (not_exists.mp hno)

/-- **Stored references stay in normal form** along a sequence of requests exactly if none of them
nests. In every store that requests reach, the references in normal form are those that stay when
their record is saved and they are not touched; one with the name of the time of the last change
stays only if the clock shows the same again. -/
theorem keepsSimple_iff (h : server.Assembled) (hooks : server.HookFree) {calls : List Call}
    (hcalls : ∀ call ∈ calls, call.factory ∈ server.registry.made) :
    ((∀ before, before <+: calls →
        server.registry.KeepsSimple (before.foldl server.registry.after server.store)) ↔
      ∀ before call, before ++ [call] <+: calls → ∀ reference,
        ¬server.registry.Nests call (before.foldl server.registry.after server.store) reference) ∧
    ∀ s, server.Reaches s → ∀ f ∈ server.registry.made, ∀ p i, f.Untouched s p i →
      ∀ params i' s', f.saveInstance i params s = .ok i' s' →
        (s'.value? p = s.value? p ↔
          (p.field = updatedAtField → s.value? p = some s.nextStamp) ∧
            ∀ v, s.value? p = some v → Reference.simplify v = v) := by
  constructor
  · have hfirst : server.registry.KeepsSimple server.store := by
      intro f _ p _ _ v hv
      obtain ⟨record, hget, -⟩ := Registry.value?_eq_some_iff.mp hv
      rw [h.empty] at hget
      cases hget
    have hiff := (Reaches.refl server).forall_prefix_iff
      (fun _ _ hs hf hk => keepsSimple_after_iff h hooks hs hf hk) hfirst hcalls
    simpa only [not_exists] using hiff
  · intro s hs f hf p i hi params i' s' hsave
    exact hi.value?_saved_eq_iff (hooks _ hf) (((hs.deployed h).memory _ hf).lt hi.bound)
      (hs.sound h).2 (fun _ hname hv => hs.exists_text h hname hv) hsave

end Server

namespace Crediting

/-- A book has a title and an author. -/
def classes : List ClassDecl :=
  [(ClassDecl.model "Author").addMember (Lending.property "name" "string" []),
    { ClassDecl.model "Book" with
      members :=
        [Lending.property "title" "string" [], Lending.property "author" "Author" []] }]

/-- The server with its models set up. -/
def server : Server := stateLeft (Server.assemble (.storing "crediting" classes))

theorem assembled : server.Assembled := Server.assembled_storing (by decide +kernel)

theorem hookFree : server.HookFree := Server.hookFree_of_isNone (by decide +kernel)

/-- The factory of books. -/
def books : Factory := server.factory "Book"

theorem books_mem : books ∈ server.registry.made := Server.factory_mem (by decide +kernel)

theorem books_actions : books.actions? = some (.memory 0 "Book") :=
  Lending.eq_of_collection? (by decide +kernel)

/-- A book whose author is given as an author whose identifier is an author whose identifier is an
author. -/
def credited : Call where
  operation := .create
  factory := books
  request := { body := .object [("_id", .string "b1"), ("author", .object [("_id", .object
    [("_id", .object [("_id", .string "a1")])])]), ("title", .string "Emma")] }

/-- Where the author of the book is kept. -/
def author : Place := { number := 0, collection := "Book", id := "b1", field := "author" }

/-- The author is stored as an object. -/
theorem author_stored : (server.registry.after server.store credited).value? author =
    some (.object [("_id", .string "a1")]) := by decide +kernel

/-- The author is not in normal form then. -/
theorem author_not_simple :
    ¬server.registry.KeepsSimple (server.registry.after server.store credited) := by
  intro hk
  have hsimple := hk _ books_mem author books_actions (by decide +kernel) _ author_stored
  cases hsimple

theorem credited_mem : ∀ call ∈ [credited], call.factory ∈ server.registry.made := by
  intro call hcall
  rw [List.mem_singleton.mp hcall]
  exact books_mem

/-- The request nests. -/
theorem credited_nests : ∃ before call reference, before ++ [call] <+: [credited] ∧
    server.registry.Nests call (before.foldl server.registry.after server.store) reference := by
  by_contra hno
  refine author_not_simple ((Server.keepsSimple_iff assembled hookFree credited_mem).1.mpr ?_
    [credited] (List.prefix_refl _))
  exact fun before call hpre reference hnests => hno ⟨before, call, reference, hpre, hnests⟩

/-- Another title for the book. -/
def retitled : Call where
  operation := .patch
  factory := books
  request := { id := some "b1", body := .object [("title", .string "Persuasion")] }

/-- The author is not in normal form, and a request for another title makes it another one. -/
theorem author_rewritten : server.Assembled ∧ server.connectors.length = 1 ∧ server.HookFree ∧
    (∀ call ∈ [credited], call.factory ∈ server.registry.made) ∧
      ¬server.registry.KeepsSimple (server.registry.after server.store credited) ∧
        ([credited, retitled].foldl server.registry.after server.store).value? author ≠
          (server.registry.after server.store credited).value? author :=
  ⟨assembled, by decide +kernel, hookFree, credited_mem, author_not_simple, by decide +kernel⟩

end Crediting

end ModelRest
