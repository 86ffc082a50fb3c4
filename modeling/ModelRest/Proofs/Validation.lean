import ModelRest.Proofs.Assembly

/-!
# What validation finds

The validators of a factory have their turns one after the other until one ends the validation. If
none does, an instance that is accepted has no error of any of them (`no_error_of_accepts`). For a
field that is declared unique the connector's own validator is among them
(`Fitted.mem_attached_unique`): it looks for the value among the records of the collection that has
the name of the instance's model (`not_taken_of_accepts`).
-/

namespace ModelRest

/-! ### Equal values -/

theorem Double.same_comm (a b : Double) : a.same b = b.same a := by
  unfold same
  rw [BEq.comm, Bool.and_comm]

theorem Number.same_comm (a b : Number) : a.same b = b.same a := by
  cases a <;> cases b <;> simp [same, BEq.comm, Double.same_comm]

namespace Json

mutual

/-- It does not matter which of two values comes first. -/
theorem same_comm : ∀ a b : Json, same a b = same b a
  | .null, b => by cases b <;> rfl
  | .bool a, b => by cases b <;> simp [same, BEq.comm]
  | .number a, b => by cases b <;> simp [same, Number.same_comm]
  | .string a, b => by cases b <;> simp [same, BEq.comm]
  | .array as, b => by
    cases b with
    | array bs => simp only [same, sameItems_comm as bs]
    | _ => rfl
  | .object as, b => by
    cases b with
    | object bs => simp only [same, sameMembers_comm as bs]
    | _ => rfl

theorem sameItems_comm : ∀ as bs : List Json, sameItems as bs = sameItems bs as
  | [], bs => by cases bs <;> rfl
  | a :: as, [] => rfl
  | a :: as, b :: bs => by simp only [sameItems, same_comm a b, sameItems_comm as bs]

theorem sameMembers_comm : ∀ as bs : List (String × Json), sameMembers as bs = sameMembers bs as
  | [], bs => by cases bs <;> rfl
  | (k, a) :: as, [] => rfl
  | (k, a) :: as, (l, b) :: bs => by
    simp only [sameMembers, same_comm a b, sameMembers_comm as bs, BEq.comm (a := k)]

end

end Json

/-! ### Turns -/

namespace Factory

/-- A validator of the model ends the validation of an instance. -/
def Stops (f : Factory) (s : Store) (i : Instance) : Prop :=
  ∃ a ∈ f.attached, ∃ field, f.fields[a.field]? = some field ∧
    (a.validator.check s i.model i.values field).proceed = false

variable {f : Factory} {s : Store} {i : Instance}

/-- The instance with what the attached validators find. -/
theorem diagnose_eq (f : Factory) (s : Store) (i : Instance) :
    f.diagnose s i =
      { i with diagnoses := findings s i.model i.values f.fields f.attached } := by
  unfold diagnose fields attached
  cases f.runtime? <;> rfl

/-- If no validator ends the validation, then what every validator finds is found. -/
theorem mem_findings {model : String} {values : Object} {fields : List Field}
    {attached : List AttachedValidator}
    (hgo : ∀ a ∈ attached, ∀ field, fields[a.field]? = some field →
      (a.validator.check s model values field).proceed = true)
    {a : AttachedValidator} (ha : a ∈ attached) {field : Field}
    (hfield : fields[a.field]? = some field) {d : Diagnosis}
    (hd : d ∈ (a.validator.check s model values field).diagnoses) :
    d ∈ findings s model values fields attached := by
  induction attached with
  | nil => cases ha
  | cons first rest ih =>
    have hrest := ih fun b hb => hgo b (List.mem_cons_of_mem _ hb)
    unfold findings
    cases hfirst : fields[first.field]? with
    | none =>
      rcases List.mem_cons.mp ha with rfl | ha
      · rw [hfirst] at hfield
        cases hfield
      · exact hrest ha
    | some other =>
      dsimp only
      rw [if_pos (hgo first (List.mem_cons_self ..) other hfirst)]
      rcases List.mem_cons.mp ha with rfl | ha
      · rw [hfirst] at hfield
        cases hfield
        exact List.mem_append_left _ hd
      · exact List.mem_append_right _ (hrest ha)

/-- If no validator ends the validation, an instance that is accepted has no error of any. -/
theorem no_error_of_accepts (hstops : ¬f.Stops s i) (hacc : f.accepts s i = true)
    {a : AttachedValidator} (ha : a ∈ f.attached) {field : Field}
    (hfield : f.fields[a.field]? = some field) {d : Diagnosis}
    (hd : d ∈ (a.validator.check s i.model i.values field).diagnoses) : d.isError = false := by
  have hgo : ∀ b ∈ f.attached, ∀ other, f.fields[b.field]? = some other →
      (b.validator.check s i.model i.values other).proceed = true := by
    intro b hb other hother
    by_contra hno
    exact hstops ⟨b, hb, other, hother, by simpa using hno⟩
  have hfound := mem_findings hgo ha hfield hd
  by_contra herr
  have herrors : (f.diagnose s i).hasErrors = true := by
    rw [diagnose_eq]
    exact List.any_eq_true.mpr ⟨d, hfound, by simpa using herr⟩
  rw [accepts, herrors] at hacc
  cases hacc

/-! ### Unique values -/

/-- What a unique validator finds about a value that another record has is an error. -/
theorem exists_error_of_taken {number : Nat} {model : String} {values : Object} {field : Field}
    {v : Json} (hv : KeyMap.get? values field.name = some v) (hne : v ≠ .null)
    (ht : (s.records number model).taken (idOf? values) field.name v = true) :
    ∃ d ∈ ((Validator.unique number).check s model values field).diagnoses, d.isError = true := by
  have hcheck : (Validator.unique number).check s model values field =
      { diagnoses := [.errorAt field.name
          (s!"'{field.name}' must be unique, " ++ v.render ++ " is already used")] } := by
    have htaken : ((s.database number).collection model).taken (idOf? values) field.name v = true :=
      ht
    unfold Validator.unique
    dsimp only
    rw [hv]
    cases v with
    | null => exact absurd rfl hne
    | bool | number | string | array | object => simp only [htaken, if_true]
  rw [hcheck]
  exact ⟨_, List.mem_singleton_self _, rfl⟩

/-- If no validator ends the validation, an instance that is accepted has no value that another
record of the collection has that a unique validator looks at. -/
theorem not_taken_of_accepts (hstops : ¬f.Stops s i) (hacc : f.accepts s i = true)
    {place number : Nat} {field : Field} (hfield : f.fields[place]? = some field)
    (ha : { field := place, validator := .unique number } ∈ f.attached) {v : Json}
    (hv : i.get? field.name = some v) (hne : v ≠ .null) :
    (s.records number i.model).taken i.id? field.name v = false := by
  by_contra ht
  obtain ⟨d, hd, herr⟩ := exists_error_of_taken hv hne (eq_true_of_ne_false ht)
  rw [no_error_of_accepts hstops hacc ha hfield hd] at herr
  cases herr

end Factory

/-! ### Declared validators -/

/-- The metadata that a schema has for a field. -/
def ModelSchema.spec? (s : ModelSchema) (name : String) : Option FieldSpec :=
  (KeyMap.get? s.prototype name).bind SchemaEntry.spec?

/-- The schema has several values in the field. -/
def ModelSchema.holdsSeveral (s : ModelSchema) (name : String) : Bool :=
  (KeyMap.get? s.prototype name).any SchemaEntry.isPlural

/-- A tag that is set names a validator. -/
theorem FieldSpec.mem_tags {spec : FieldSpec} {tag : String} (h : (tag, true) ∈ spec.flags) :
    tag ∈ spec.tags :=
  List.mem_append_left _ (List.mem_map.mpr ⟨(tag, true), List.mem_filter.mpr ⟨h, rfl⟩, rfl⟩)

namespace Factory.Fitted

variable {f : Factory} {everywhere : KeyMap Validator}

/-- The field of a name with metadata, and its place among the fields. -/
theorem exists_place (hf : f.Fitted everywhere) {name : String} {spec : FieldSpec}
    (hspec : f.schema.spec? name = some spec) :
    ∃ (place : Nat) (field : Field), f.fields[place]? = some field ∧ field.name = name ∧
      field.tags = spec.tags ∧ field.allowed = spec.allowed ∧
      field.isPlural = f.schema.holdsSeveral name := by
  obtain ⟨entry, hentry, hentrySpec⟩ := Option.bind_eq_some_iff.mp hspec
  obtain ⟨field, hfield, rfl⟩ := hf.exists_field hentry
  obtain ⟨place, hplace⟩ := List.mem_iff_getElem?.mp hfield
  obtain ⟨entry', visibility, hentry', he⟩ := mem_resolveFields hf.resolved hfield
  cases hentry.symm.trans hentry'
  have hgetD : entry.spec?.getD {} = spec := by
    rw [hentrySpec]
    rfl
  refine ⟨place, field, hplace, rfl, ?_, ?_, ?_⟩
  · rw [← hgetD, he]
    rfl
  · rw [← hgetD, he]
    rfl
  · unfold ModelSchema.holdsSeveral
    rw [hentry, he]
    rfl

/-- The validator that is found for a tag of a field is among those of the factory. -/
theorem mem_attached (hf : f.Fitted everywhere) {place : Nat} {field : Field}
    (hplace : f.fields[place]? = some field) {tag : String} (htag : tag ∈ field.tags)
    {v : Validator} (hv : f.validator? everywhere tag = some v) :
    { field := place, validator := v } ∈ f.attached := by
  rw [hf.attached_eq]
  refine List.mem_flatMap.mpr ⟨(field, place), List.mk_mem_zipIdx_iff_getElem?.mpr hplace, ?_⟩
  refine List.mem_filterMap.mpr ⟨tag, htag, ?_⟩
  rw [hv]
  rfl

/-- Every validator of the factory was found for some tag. -/
theorem exists_tag_of_mem_attached (hf : f.Fitted everywhere) {a : AttachedValidator}
    (ha : a ∈ f.attached) : ∃ tag, f.validator? everywhere tag = some a.validator := by
  rw [hf.attached_eq] at ha
  obtain ⟨p, -, ha⟩ := List.mem_flatMap.mp ha
  obtain ⟨tag, -, ha⟩ := List.mem_filterMap.mp ha
  obtain ⟨v, hv, rfl⟩ := Option.map_eq_some_iff.mp ha
  exact ⟨tag, hv⟩

end Factory.Fitted

/-- The schema declares that no two records have the same value in the field. -/
def ModelSchema.declaresUnique (s : ModelSchema) (name : String) : Bool :=
  ((KeyMap.get? s.prototype name).bind SchemaEntry.spec?).any FieldSpec.unique

/-- A field that is declared unique has the connector's unique validator, if the class has none of
its own. -/
theorem Factory.Fitted.mem_attached_unique {f : Factory} {everywhere : KeyMap Validator}
    (hf : f.Fitted everywhere) {name : String} (hu : f.schema.declaresUnique name = true)
    (hv : KeyMap.get? f.cls.validators "unique" = none) {datasource : String} {number : Nat}
    (hc : f.connector = some (.memory datasource number)) :
    ∃ place field, f.fields[place]? = some field ∧ field.name = name ∧
      { field := place, validator := .unique number } ∈ f.attached := by
  obtain ⟨spec, hspec, hunique⟩ := Option.any_eq_true _ _ |>.mp hu
  obtain ⟨place, field, hplace, hname, htags, -⟩ := hf.exists_place hspec
  have htag : "unique" ∈ field.tags := by
    rw [htags]
    refine FieldSpec.mem_tags ?_
    simp [FieldSpec.flags, hunique]
  have hvalidator : f.validator? everywhere "unique" = some (.unique number) := by
    unfold Factory.validator?
    rw [hv, hc]
    rfl
  exact ⟨place, field, hplace, hname, hf.mem_attached hplace htag hvalidator⟩

end ModelRest
