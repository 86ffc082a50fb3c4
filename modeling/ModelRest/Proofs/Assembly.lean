import ModelRest.Proofs.Consistency
import ModelRest.Proofs.Deployment

/-!
# The factories of an assembled server

What a factory is given when it is set up follows from its schema: its fields are those that the
entries of the schema resolve to, and its validators those that are found for the tags of the fields.
`Factory.Fitted` says so, together with what is known of every compiled schema, and
`Server.Assembled.fitted` that it holds of every factory of an assembled server. So no two fields of a
factory have one name (`Fitted.names_nodup`), and a field that its schema hides is hidden
(`Fitted.visibility_eq`).
-/

namespace ModelRest

/-- The schema hides the field from everyone. -/
def ModelSchema.hides (s : ModelSchema) (name : String) : Bool :=
  ((KeyMap.get? s.prototype name).bind SchemaEntry.spec?).bind FieldSpec.invisible =
    some (.flag true)

namespace Factory

/-- The validators that the factory was given, in the order in which they have their turns. -/
def attached (f : Factory) : List AttachedValidator :=
  (f.runtime?.map FactoryRuntime.validators).getD []

/-- What the factory was given follows from its schema and from the validators for every model. -/
structure Fitted (f : Factory) (everywhere : KeyMap Validator) : Prop where
  /-- The parts of the schema agree. -/
  consistent : f.schema.Consistent
  /-- The fields are those of the schema. -/
  resolved : f.resolveFields f.schema = .ok f.fields
  /-- The validators are those of the tags of the fields. -/
  attached_eq : f.attached = f.fields.zipIdx.flatMap (f.attach everywhere)
  /-- The factory was given them. -/
  initialized : f.isInitialized = true

namespace Fitted

variable {f : Factory} {everywhere : KeyMap Validator}

/-- The names of the fields are different. -/
theorem names_nodup (h : f.Fitted everywhere) : (f.fields.map Field.name).Nodup :=
  h.consistent.fieldNames_nodup.sublist (names_sublist h.resolved)

/-- Every name with an entry has a field. -/
theorem exists_field (h : f.Fitted everywhere) {name : String} {entry : SchemaEntry}
    (he : KeyMap.get? f.schema.prototype name = some entry) : ∃ field ∈ f.fields, field.name = name := by
  have hcontains : KeyMap.contains f.schema.prototype name = true := by
    unfold KeyMap.contains
    rw [he]
    rfl
  refine exists_resolveFields h.resolved ?_ hcontains
  exact List.mem_append.mpr ((h.consistent.mem_keys_iff name).mp (KeyMap.mem_keys_iff.mpr hcontains))

/-- A field whose entry has a target is a reference. -/
theorem isReference_of_target? (h : f.Fitted everywhere) {field : Field} (hf : field ∈ f.fields)
    {target : String} (ht : f.target? field.name = some target) : field.isReference = true := by
  obtain ⟨entry, visibility, hentry, hfield⟩ := mem_resolveFields h.resolved hf
  unfold target? at ht
  rw [hentry, Option.bind_some] at ht
  have hspec : (entry.spec?.getD {}).target = some target := by
    obtain ⟨spec, hs, ht⟩ := Option.bind_eq_some_iff.mp ht
    rw [hs]
    exact ht
  rw [hfield]
  show (((KeyMap.get? f.schema.references field.name).map ReferenceInfo.target).or
    (entry.spec?.getD {}).target).isSome = true
  rw [hspec, Option.isSome_or, Option.isSome_some, Bool.or_true]

/-- A field that the schema hides is hidden. -/
theorem visibility_eq (h : f.Fitted everywhere) {field : Field} (hf : field ∈ f.fields)
    (hh : f.schema.hides field.name = true) : field.visibility = .hidden := by
  obtain ⟨entry, hentry, hr⟩ := resolve_of_mem h.resolved hf
  have hinvisible : entry.spec?.bind FieldSpec.invisible = some (.flag true) := by
    unfold ModelSchema.hides at hh
    rw [hentry] at hh
    exact of_decide_eq_true hh
  obtain ⟨spec, hs, hi⟩ := Option.bind_eq_some_iff.mp hinvisible
  unfold Field.resolve at hr
  rw [hinvisible] at hr
  rw [← Except.ok.inj hr]
  show Field.flagVisibility (entry.spec?.getD {}).invisible = .hidden
  rw [hs]
  show Field.flagVisibility spec.invisible = .hidden
  rw [hi]
  rfl

theorem isVisible_eq_false (h : f.Fitted everywhere) {field : Field} (hf : field ∈ f.fields)
    (hh : f.schema.hides field.name = true) (values : Object) : field.isVisible values = false := by
  unfold Field.isVisible
  rw [h.visibility_eq hf hh]

end Fitted

end Factory

namespace Registry

/-- What setting up gives a factory whose schema is that of a class. -/
theorem fitted_of_setup {r : Registry} {store : Store} {f f' : Factory} (hr : r.OfClasses)
    (hf : f ∈ r.made) (h : r.setup store f = .ok f') : f'.Fitted r.sharedValidators := by
  obtain ⟨source, binding, -, -, hinit⟩ := setup_eq_ok_iff.mp h
  obtain ⟨schema, fields, hs, hfields, rfl⟩ := init_eq_ok hinit
  obtain ⟨classes, ctx, cls, c, hof⟩ := hr f hf schema hs
  obtain ⟨ds, hds⟩ := ModelSchema.exists_isOf hof
  have hschema : f.schema = schema := by
    unfold Factory.schema
    rw [hs]
    rfl
  subst hschema
  exact ⟨hds.consistent, hfields, rfl, rfl⟩

end Registry

/-- **The factories of an assembled server** were given what follows from their schemas. -/
theorem Server.Assembled.fitted {server : Server} (h : server.Assembled) :
    ∀ f ∈ server.registry.made, f.Fitted server.registry.sharedValidators := by
  obtain ⟨start, validators, hempty, hok⟩ := h.started
  obtain ⟨loaded, numbers, r, fs, hr, hfs, rfl⟩ := assemble_eq_ok hempty hok
  have hclasses : r.OfClasses := by
    have hbuilt := Registry.Built.compiled (.empty rfl) start.connectors
      start.config.defaultDatasource loaded (r := { validators := validators })
    rw [hr] at hbuilt
    exact hbuilt.ofClasses
  intro f' hf'
  obtain ⟨f, hf, hsetup⟩ := exists_left_of_forall₂ hfs hf'
  exact (Registry.fitted_of_setup hclasses hf hsetup : f'.Fitted r.sharedValidators)

/-- A model that is not linked is stored by its own connector, in the collection of its name. -/
theorem Server.Assembled.bound_own {server : Server} (h : server.Assembled) {f : Factory}
    (hf : f ∈ server.registry.made) (hl : f.isLinked = false) {number : Nat} {collection : String}
    (hb : f.actions? = some (.memory number collection)) :
    f.name = collection ∧ ∃ datasource, f.connector = some (.memory datasource number) := by
  obtain ⟨start, validators, hempty, hok⟩ := h.started
  obtain ⟨loaded, numbers, r, fs, hr, hfs, rfl⟩ := assemble_eq_ok hempty hok
  have hconnector := (Registry.compiled_of_compile hr).1.connector
  obtain ⟨ds, hds, -, drafted, hdrafted, rfl, -⟩ := compile_eq_ok_iff.mp hr
  obtain ⟨own, hown, hsetup⟩ := exists_left_of_forall₂ hfs hf
  obtain ⟨d, hd, hfinished⟩ := exists_left_of_forall₂ hdrafted hown
  obtain ⟨source, binding, hsource, hbinding, hinit⟩ := Registry.setup_eq_ok_iff.mp hsetup
  obtain ⟨schema, fields, -, -, rfl⟩ := Registry.init_eq_ok hinit
  -- it uses its own records
  have hlink := hfinished.link?_eq_none (Draft.isBare_of_ofModels hds d hd) hl
  have hbare : source = own.bare := by
    unfold Registry.source at hsource
    rw [hlink] at hsource
    exact (Except.ok.inj hsource).symm
  have hopen : own.bare.openActions start.store = .ok (some (.memory number collection)) := by
    rw [← hbare, hbinding]
    have hbind : (if own.options.persistent then binding else none) =
        some (.memory number collection) := hb
    split at hbind
    · rw [hbind]
    · cases hbind
  obtain ⟨datasource, number', hc, hactions, -⟩ := Registry.openActions_eq_ok (fun c hc => by
    obtain ⟨p, hp, rfl⟩ := hconnector own hown c hc
    exact h.memory p hp) hopen
  cases hactions
  exact ⟨rfl, datasource, hc⟩

end ModelRest
