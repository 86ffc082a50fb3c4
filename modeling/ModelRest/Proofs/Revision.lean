import ModelRest.Proofs.Assembly
import ModelRest.Proofs.Protection

/-!
# What a change makes of a record

A record is changed in several steps: the body is assigned to it field by field, the references are
simplified, what comes of this is put in the place of the old values, and last the store writes the
identifier and the times. `ModelSchema.Revised` says without the steps what becomes of each key, and
leaves the value of none open (`Revised.get?_eq`). `Server.revises` says that a request that
replaces or patches a record, if it succeeds, has done just this to the record and nothing to any
other.
-/

namespace ModelRest

/-! ### Revised values -/

namespace ModelSchema

/-- The value that a field takes from what a client gives: of a reference, the identifiers. -/
def taken (s : ModelSchema) (name : String) (v : Json) : Json :=
  if ((KeyMap.get? s.prototype name).bind SchemaEntry.target?).isSome then Reference.simplify v
  else v

/-- The value that is stored when a record with this value is saved. -/
def settled (s : ModelSchema) (name : String) (v : Json) : Json :=
  if KeyMap.contains s.references name then Reference.simplify v else v

/-- Clients write the key, in records that there are too. -/
structure Opens (s : ModelSchema) (name : String) : Prop where
  /-- The store does not write it itself. -/
  ordinary : IsOrdinary name
  /-- It is a field. -/
  known : KeyMap.contains s.prototype name = true
  /-- It is not protected. -/
  unprotected : s.protects name = false

/-- What a body makes of the values of a record at a time, if it replaces them or is merged into
them. -/
structure Revised (s : ModelSchema) (replace : Bool) (body old : Object) (stamp : Json)
    (new : Object) : Prop where
  /-- The identifier stays. -/
  id : KeyMap.get? new idField = KeyMap.get? old idField
  /-- The time of creation stays. -/
  created : KeyMap.get? new createdAtField = KeyMap.get? old createdAtField
  /-- The time of the last change is this one. -/
  changed : KeyMap.get? new updatedAtField = some stamp
  /-- A key that is no field has the value that it had, or still none. -/
  unknown : ∀ name, IsOrdinary name → KeyMap.get? s.prototype name = none →
    KeyMap.get? new name = KeyMap.get? old name
  /-- A protected field has the value that it had. -/
  kept : ∀ name, IsOrdinary name → s.protects name = true →
    KeyMap.get? new name = (KeyMap.get? old name).map (s.settled name)
  /-- Another field has the value that is given. -/
  given : ∀ name v, s.Opens name → KeyMap.get? body name = some v →
    KeyMap.get? new name = some (s.settled name (s.taken name v))
  /-- If none is given, it has none any more, or the one that it had. -/
  missing : ∀ name, s.Opens name → KeyMap.get? body name = none →
    KeyMap.get? new name =
      if replace then none else (KeyMap.get? old name).map (s.settled name)

/-- This determines the value of every key. -/
theorem Revised.get?_eq {s : ModelSchema} {replace : Bool} {body old new new' : Object}
    {stamp : Json} (h : s.Revised replace body old stamp new)
    (h' : s.Revised replace body old stamp new') (name : String) :
    KeyMap.get? new name = KeyMap.get? new' name := by
  by_cases hid : name = idField
  · rw [hid, h.id, h'.id]
  by_cases hcreated : name = createdAtField
  · rw [hcreated, h.created, h'.created]
  by_cases hchanged : name = updatedAtField
  · rw [hchanged, h.changed, h'.changed]
  have hname : IsOrdinary name := ⟨hid, hcreated, hchanged⟩
  cases hget : KeyMap.get? s.prototype name with
  | none => rw [h.unknown name hname hget, h'.unknown name hname hget]
  | some entry =>
    cases hp : s.protects name with
    | true => rw [h.kept name hname hp, h'.kept name hname hp]
    | false =>
      have hopen : s.Opens name := ⟨hname, by rw [KeyMap.contains, hget]; rfl, hp⟩
      cases hbody : KeyMap.get? body name with
      | none => rw [h.missing name hopen hbody, h'.missing name hopen hbody]
      | some v => rw [h.given name v hopen hbody, h'.given name v hopen hbody]

end ModelSchema

/-! ### What assigning makes of a value -/

/-- An ordinary field that may be written has the value that is given. -/
theorem Field.get?_assign_of_writable {f : Field} {hasId : Bool} {params : Parameters}
    {data values : Object} (hf : IsOrdinary f.name) (hw : f.isWritable hasId params = true) :
    KeyMap.get? (assign hasId params data values f) f.name =
      match KeyMap.get? data f.name with
      | some v => some (f.accept v)
      | none => if params.deleteMissing then none else KeyMap.get? values f.name := by
  have htimes : ¬(f.name = createdAtField ∨ f.name = updatedAtField) := by
    rintro (h | h)
    · exact hf.2.1 h
    · exact hf.2.2 h
  unfold assign
  dsimp only
  rw [if_neg hf.1, if_neg htimes, if_pos hw]
  cases KeyMap.get? data f.name with
  | some v => exact KeyMap.get?_insert_self ..
  | none =>
    cases params.deleteMissing with
    | true => exact KeyMap.get?_erase_self ..
    | false => rfl

namespace Factory

variable {f : Factory} {params : Parameters} {data values : Object} {name : String}

/-- What is no field stays. -/
theorem get?_assignAll_of_no_field (h : ∀ field ∈ f.fields, field.name ≠ name) :
    KeyMap.get? (f.assignAll params data values) name = KeyMap.get? values name := by
  unfold assignAll
  rw [Field.get?_foldl_assign (fun v => v) (fun _ => rfl) f.fields
    fun field hfield hname => absurd hname (h field hfield)]
  exact ite_self _

/-- If the names of the fields are different, then an ordinary one that may be written has the value
that is given. -/
theorem get?_assignAll_of_writable (hn : (f.fields.map Field.name).Nodup) {field : Field}
    (hfield : field ∈ f.fields) (hname : IsOrdinary field.name)
    (hw : field.isWritable (idOf? values).isSome params = true) :
    KeyMap.get? (f.assignAll params data values) field.name =
      match KeyMap.get? data field.name with
      | some v => some (field.accept v)
      | none => if params.deleteMissing then none else KeyMap.get? values field.name := by
  unfold assignAll
  rw [Field.get?_foldl_assign fun old => match KeyMap.get? data field.name with
    | some v => some (field.accept v)
    | none => if params.deleteMissing then none else old]
  · exact if_pos ⟨field, hfield, rfl⟩
  · intro v
    cases KeyMap.get? data field.name with
    | some v => rfl
    | none => cases params.deleteMissing <;> rfl
  · intro other hother hsame values'
    -- there is one field of the name
    have hone : other = field := List.inj_on_of_nodup_map hn hother hfield hsame
    rw [hone]
    exact Field.get?_assign_of_writable hname hw

/-! ### Fields and their schema -/

namespace Fitted

variable {everywhere : KeyMap Validator}

/-- The fields are protected that the schema protects. -/
theorem protects_eq (h : f.Fitted everywhere) {field : Field} (hfield : field ∈ f.fields) :
    f.schema.protects field.name = field.isProtected := by
  obtain ⟨entry, visibility, hentry, he⟩ := mem_resolveFields h.resolved hfield
  unfold ModelSchema.protects
  rw [hentry, he]
  rfl

/-- A key without an entry is neither a field nor a reference. -/
theorem not_known (h : f.Fitted everywhere) (hget : KeyMap.get? f.schema.prototype name = none) :
    (∀ field ∈ f.fields, field.name ≠ name) ∧
      KeyMap.contains f.schema.references name = false := by
  constructor
  · rintro field hfield rfl
    obtain ⟨entry, -, hentry, -⟩ := mem_resolveFields h.resolved hfield
    rw [hget] at hentry
    cases hentry
  · by_contra href
    rw [Bool.not_eq_false] at href
    have hkey := (h.consistent.mem_keys_iff name).mpr (.inr (KeyMap.mem_keys_iff.mpr href))
    rw [KeyMap.mem_keys_iff, KeyMap.contains, hget] at hkey
    cases hkey

end Fitted

end Factory

namespace Registry

variable {r : Registry} {s s' : Store} {f : Factory}

/-- A field takes the value that its schema says. -/
theorem Deployed.accept_eq (hd : r.Deployed s) (hf : f ∈ r.made)
    (hfit : f.Fitted r.sharedValidators) {field : Field} (hfield : field ∈ f.fields) (v : Json) :
    field.accept v = f.schema.taken field.name v := by
  have hiff : field.isReference = (f.target? field.name).isSome := by
    cases htarget : f.target? field.name with
    | some target => exact hfit.isReference_of_target? hfield htarget
    | none =>
      by_contra href
      rw [Option.isSome_none, Bool.not_eq_false] at href
      obtain ⟨target, -, hleads⟩ := hd.targets f hf field hfield href
      unfold Registry.target at hleads
      rw [htarget] at hleads
      cases hleads
  unfold Field.accept ModelSchema.taken
  rw [hiff]
  rfl

/-- An open key has the value that is given. -/
theorem Deployed.get?_assignAll_of_opens (hd : r.Deployed s) (hf : f ∈ r.made)
    (hfit : f.Fitted r.sharedValidators) {params : Parameters} {body old : Object}
    {name : String} (hname : f.schema.Opens name) :
    KeyMap.get? (f.assignAll params body old) name =
      match KeyMap.get? body name with
      | some v => some (f.schema.taken name v)
      | none => if params.deleteMissing then none else KeyMap.get? old name := by
  obtain ⟨entry, hentry⟩ := Option.isSome_iff_exists.mp hname.known
  obtain ⟨field, hfield, rfl⟩ := hfit.exists_field hentry
  have hw : field.isWritable (idOf? old).isSome params = true := by
    have hprotected := hname.unprotected
    rw [hfit.protects_eq hfield] at hprotected
    simp only [Field.isProtected, Bool.or_eq_false_iff] at hprotected
    simp [Field.isWritable, hprotected]
  rw [Factory.get?_assignAll_of_writable hfit.names_nodup hfield hname.ordinary hw]
  cases KeyMap.get? body field.name with
  | none => rfl
  | some v => exact congrArg some (hd.accept_eq hf hfit hfield v)

/-- **What is stored of a body** that is assigned to a record, which is in order, are the revised
values. -/
theorem Deployed.revised (hd : r.Deployed s) (hf : f ∈ r.made)
    (hfit : f.Fitted r.sharedValidators) {id : String} {old : Object}
    (hold : Store.SoundRecord id old) (params : Parameters)
    (hparams : params.ignoreReadOnly = false) (body : Object) (stamp : Json) :
    f.schema.Revised params.deleteMissing body old stamp
      (updatedValues old (f.simplifyValues (f.assignAll params body old)) id true stamp) := by
  obtain ⟨created, hcreated⟩ := hold.created
  have hid := hold.idOf?_eq
  have hget := Store.get?_updatedValues hcreated
    (f.simplifyValues (f.assignAll params body old)) id stamp
  -- the store leaves an ordinary key as it was settled
  have hsettled : ∀ name, IsOrdinary name →
      KeyMap.get? (updatedValues old (f.simplifyValues (f.assignAll params body old)) id true
        stamp) name =
      (KeyMap.get? (f.assignAll params body old) name).map (f.schema.settled name) := by
    intro name hname
    rw [hget, if_neg (Ne.symm hname.2.2), if_neg (Ne.symm hname.2.1), if_neg (Ne.symm hname.1),
      Factory.get?_simplifyValues]
    rfl
  constructor
  case id =>
    rw [hget, hold.keyed]
    simp [idField, createdAtField, updatedAtField]
  case created =>
    rw [hget, hcreated]
    simp [createdAtField, updatedAtField]
  case changed => rw [hget, if_pos rfl]
  case unknown =>
    intro name hname hnone
    obtain ⟨hno, href⟩ := hfit.not_known hnone
    rw [hsettled name hname, Factory.get?_assignAll_of_no_field hno]
    have hsame : f.schema.settled name = fun v => v := by
      funext v
      simp [ModelSchema.settled, href]
    rw [hsame]
    exact Option.map_id'
  case kept =>
    intro name hname hp
    have hfields : ∀ field ∈ f.fields, field.name = name → field.isProtected = true := by
      rintro field hfield rfl
      rw [← hfit.protects_eq hfield]
      exact hp
    rw [hsettled name hname, Factory.get?_assignAll_of_protected hid hfields hparams hname.1
      hname.2.1 hname.2.2]
  case given =>
    intro name v hname hbody
    rw [hsettled name hname.ordinary, hd.get?_assignAll_of_opens hf hfit hname, hbody]
    rfl
  case missing =>
    intro name hname hbody
    rw [hsettled name hname.ordinary, hd.get?_assignAll_of_opens hf hfit hname, hbody]
    cases params.deleteMissing <;> rfl

/-- A change of a record plans the record with the body assigned to it. -/
theorem plan_of_change {call : Call} (hop : call.operation = .replace ∨ call.operation = .patch)
    (href : call.request.reference = none) : r.plan call =
      planRecord call.factory call.request (decide (call.operation = .replace)) := by
  unfold plan planChange
  rw [href]
  rcases hop with hop | hop <;> rw [hop] <;> rfl

/-- A change of a record that succeeds has put the record with the body assigned to it in its
place. -/
theorem put_of_change {call : Call} (hooks : call.factory.HookFree) {number : Nat}
    {collection : String} (hb : call.factory.actions? = some (.memory number collection))
    (hn : number < s.databases.length) (hs : s.Sound)
    (hop : call.operation = .replace ∨ call.operation = .patch)
    (href : call.request.reference = none) {outcome : Outcome}
    (hok : r.perform call s = .ok outcome s') :
    ∃ body id params old, call.request.body = .object body ∧ call.request.id = some id ∧
      call.request.parameters = .ok params ∧
      KeyMap.get? (s.records number collection) id = some old ∧
      s.Put s' number collection id
        { old with
          values := updatedValues old.values (call.factory.simplifyValues (call.factory.assignAll
            { params with deleteMissing := call.operation = .replace } body old.values)) id true
            s.nextStamp } := by
  have hwrites : call.operation.writes = true := by
    rcases hop with hop | hop <;> rw [hop] <;> rfl
  rcases r.perform_writes_cases hwrites hooks hb hn with
    ⟨e, -, herror⟩ | ⟨_, _, e, -, -, herror⟩ | ⟨i, params, i', left, hplan, hsave, hanswer⟩
  · rw [hok] at herror
    cases herror
  · rw [hok] at herror
    cases herror
  · rw [hanswer] at hok
    have hleft : s' = left := (r.keeps_answer call i' params).of_ok hok
    rw [plan_of_change hop href] at hplan
    obtain ⟨-, body, id, old, hbody, hparams, hid, hold, rfl⟩ :=
      (planRecord_eq_ok_iff hb).mp hplan
    obtain ⟨-, hwritten⟩ := Factory.saveInstance_ok hooks hb hn hsave
    -- the instance has the identifier of the record still
    rw [Instance.id?, Factory.idOf?_assignAll (hs _ _ _ _ hold).idOf?_eq] at hwritten
    rw [hleft]
    exact ⟨body, id, params, old, hbody, hid, hparams, hold, hwritten.put_of_stored hold⟩

end Registry

/-! ### Revised records -/

/-- The second store comes from the first by revising one record. -/
structure Store.Revises (s s' : Store) (schema : ModelSchema) (replace : Bool) (body : Object)
    (number : Nat) (collection id : String) : Prop where
  /-- The record has the revised values, and its place among the others. -/
  record : ∃ old new, KeyMap.get? (s.records number collection) id = some old ∧
    KeyMap.get? (s'.records number collection) id = some new ∧ new.number = old.number ∧
    schema.Revised replace body old.values s.nextStamp new.values
  /-- Every other record, of whatever collection, is as it was. -/
  others : ∀ number' collection' id',
    ¬(number = number' ∧ collection = collection' ∧ id = id') →
      KeyMap.get? (s'.records number' collection') id' =
        KeyMap.get? (s.records number' collection') id'
  /-- The clock was read for this change, and has been read no more. -/
  clock : s'.supply = s.supply ∧ s'.stamps = s.stamps + 1

/-- **A request that replaces or patches a record**, and succeeds, has revised the record and
nothing else. -/
theorem Server.revises {server : Server} (h : server.Assembled) {s : Store}
    (hs : server.Reaches s) {call : Call} (hf : call.factory ∈ server.registry.made)
    (hooks : call.factory.HookFree) {number : Nat} {collection : String}
    (hb : call.factory.actions? = some (.memory number collection))
    (hop : call.operation = .replace ∨ call.operation = .patch)
    (href : call.request.reference = none) {id : String} (hid : call.request.id = some id)
    {body : Object} (hbody : call.request.body = .object body) {outcome : Outcome} {s' : Store}
    (hok : server.registry.perform call s = .ok outcome s') :
    s.Revises s' call.factory.schema (call.operation = .replace) body number collection id := by
  have hd := hs.deployed h
  have hsound := (hs.sound h).2
  obtain ⟨body', id', params, old, hbody', hid', hparams, hold, hput⟩ :=
    Registry.put_of_change hooks hb ((hd.memory _ hf).lt hb) hsound hop href hok
  cases hbody.symm.trans hbody'
  cases hid.symm.trans hid'
  have hignore := Registry.ignoreReadOnly_of_parameters hparams
  constructor
  · refine ⟨old, _, hold, hput.get?_self, rfl, ?_⟩
    exact hd.revised hf (h.fitted _ hf) (hsound _ _ _ _ hold)
      { params with deleteMissing := call.operation = .replace } hignore body s.nextStamp
  · intro number' collection' id'
    exact hput.get?_of_ne
  · exact ⟨hput.supply, hput.stamps⟩

namespace Lending

/-- A book with its author. -/
def novel : Request :=
  { body := .object [("_id", .string "b1"), ("author", .string "a1"), ("title", .string "Emma")] }

/-- Another identifier for the book, another author, a note as it is shown, and what no book has;
but no title. -/
def revision : Object :=
  [("_id", .string "b2"), ("author", .string "a2"),
    ("note", .object [("_id", .string "n1"), ("text", .string "dull")]), ("pages", .string "300")]

/-- The request to put this in the place of the book. -/
def revised : Call :=
  { operation := .replace, factory := books,
    request := { id := some "b1", body := .object revision } }

/-- The store with the book. -/
def novelStore : Store := storeAfter [(.create, novel)]

/-- The request succeeds, and the book is revised. -/
theorem novel_revised : ∃ outcome s',
    server.registry.perform revised novelStore = .ok outcome s' ∧
      novelStore.Revises s' books.schema true revision 0 "Book" "b1" := by
  have hsucceeds : succeeded (server.registry.perform revised novelStore) = true := by
    decide +kernel
  obtain ⟨outcome, s', hok⟩ := succeeded_iff.mp hsucceeds
  exact ⟨outcome, s', hok, Server.revises assembled (reaches_storeAfter _) books_mem
    (hookFree _ books_mem) books_actions (.inl rfl) rfl rfl rfl hok⟩

example : ((KeyMap.get? ((server.registry.after novelStore revised).records 0 "Book") "b1").map
    fun record => ["_id", "author", "note", "pages", "title"].map (KeyMap.get? record.values)) =
      some [some (.string "b1"), some (.string "a1"), some (.string "n1"), none, none] := by
  decide +kernel

end Lending

end ModelRest
