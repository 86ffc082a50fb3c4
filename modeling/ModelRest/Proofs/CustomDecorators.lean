import ModelRest.Factory
import ModelRest.Proofs.Effects
import ModelRest.Proofs.KeyMap
import Mathlib.Data.List.Dedup

/-!
# Decorators that this library does not know

What such a decorator says about a field is kept as an object under the decorator's own name, beside
the parts of this library. The metadata is written with all of them as members of one object, and
its tags are those of the parts followed by those names, so a decorator can have the name of a part.
No decorator of the catalogue can, but for five parts the names differ: the part `readOnly` is said
by `readonly`, `insertOnly` by `insertonly` and `enum` by `enumeration`, and `type` and `ref` by no
decorator at all. `PropertyMetadata.Says` describes what the decorators of a property leave behind,
and `propertyMetadata_read_iff` says from it exactly when the metadata is read as it was written and
when no tag comes twice.
-/

namespace ModelRest

namespace Decorator

/-- The tag that a decorator of this library sets. -/
def tag? : String → Option String
  | "required" => some "required"
  | "unique" => some "unique"
  | "index" => some "index"
  | "immutable" => some "immutable"
  | "readonly" => some "readOnly"
  | "insertonly" => some "insertOnly"
  | "embedded" => some "embedded"
  | "enumeration" => some "enum"
  | _ => none

end Decorator

/-- The tags of this library that are set. -/
theorem FieldSpec.mem_flags_iff (s : FieldSpec) (tag : String) : (tag, true) ∈ s.flags ↔
    tag = "required" ∧ s.required = true ∨ tag = "unique" ∧ s.unique = true ∨
    tag = "index" ∧ s.index = true ∨ tag = "immutable" ∧ s.immutable = true ∨
    tag = "readOnly" ∧ s.readOnly = true ∨ tag = "insertOnly" ∧ s.insertOnly = true ∨
    tag = "embedded" ∧ s.embedded = true ∨ tag = "enum" ∧ s.allowed.isSome = true := by
  simp [flags]

/-! ### What the decorators of a property leave behind -/

namespace PropertyMetadata

variable {calls : List DecoratorCall} {call : DecoratorCall} {m m' : PropertyMetadata}

/-- What the decorators of a property have made of its metadata. -/
structure Says (calls : List DecoratorCall) (m : PropertyMetadata) : Prop where
  /-- What unknown decorators say is kept under their names. -/
  extra_iff : ∀ name, KeyMap.contains m.spec.extra name = true ↔
    Decorator.parameters? name = none ∧ ∃ call ∈ calls, call.name = name
  /-- It is kept as an object. -/
  extra_object : ∀ name v, KeyMap.get? m.spec.extra name = some v → ∃ args, v = .object args
  /-- The tags of this library are set by its decorators. -/
  flag_iff : ∀ tag, (tag, true) ∈ m.spec.flags ↔
    ∃ call ∈ calls, Decorator.tag? call.name = some tag

/-- A decorator sets its tag, or it is unknown and what it says is kept under its name. -/
theorem applyCall_cases (h : applyCall m call = .ok m') :
    (Decorator.parameters? call.name = none ∧ Decorator.tag? call.name = none ∧
      ∃ args, m'.spec = m.spec.addExtra call.name (.object args)) ∨
    ((Decorator.parameters? call.name).isSome = true ∧ m'.spec.extra = m.spec.extra ∧
      ∀ tag, (tag, true) ∈ m'.spec.flags ↔
        (tag, true) ∈ m.spec.flags ∨ Decorator.tag? call.name = some tag) := by
  unfold applyCall at h
  obtain ⟨d, hd, h⟩ := andThen_eq_ok_iff.mp h
  have hname := Decorator.name_of_inspect hd
  rw [← hname]
  split at h
  case h_15 =>
    cases h
    refine .inl ⟨?_, ?_, d.args, rfl⟩
    · unfold Decorator.parameters?
      split <;> first | rfl | contradiction
    · unfold Decorator.tag?
      split <;> first | rfl | contradiction
  case h_9 heq =>
    obtain ⟨path, -, h⟩ := andThen_eq_ok_iff.mp h
    cases h
    rw [heq]
    exact .inr ⟨rfl, rfl, by simp [Decorator.tag?]⟩
  all_goals
    rename_i heq
    rw [heq]
    -- the argument, where the decorator has one
    try split at h
    all_goals
      cases h <;> refine .inr ⟨rfl, rfl, fun tag => ?_⟩ <;>
        grind [FieldSpec.mem_flags_iff, Decorator.tag?]

/-- What one more decorator leaves behind. -/
theorem Says.applyCall (hs : Says calls m) (h : PropertyMetadata.applyCall m call = .ok m') :
    Says (calls ++ [call]) m' := by
  rcases applyCall_cases h with ⟨hcustom, htag, args, hspec⟩ | ⟨hknown, hextra, hflags⟩
  · have hflags : m'.spec.flags = m.spec.flags := by
      rw [hspec]
      rfl
    constructor
    · intro name
      rw [hspec]
      show KeyMap.contains (KeyMap.insert m.spec.extra call.name (.object args)) name = true ↔ _
      rw [KeyMap.contains_insert, Bool.or_eq_true, hs.extra_iff name]
      grind
    · intro name v hv
      rw [hspec] at hv
      change KeyMap.get? (KeyMap.insert m.spec.extra call.name (.object args)) name = some v at hv
      rw [KeyMap.get?_insert] at hv
      split at hv
      · exact ⟨args, (Option.some.inj hv).symm⟩
      · exact hs.extra_object name v hv
    · intro tag
      rw [hflags, hs.flag_iff tag]
      simp [htag]
  · constructor
    · intro name
      rw [hextra, hs.extra_iff name]
      grind
    · intro name v hv
      rw [hextra] at hv
      exact hs.extra_object name v hv
    · intro tag
      rw [hflags tag, hs.flag_iff tag]
      simp [or_and_right, exists_or]

/-- What more decorators leave behind. -/
theorem Says.foldlM {rest : List DecoratorCall} (hs : Says calls m)
    (h : rest.foldlM PropertyMetadata.applyCall m = .ok m') : Says (calls ++ rest) m' := by
  induction rest generalizing calls m with
  | nil =>
    cases h
    rwa [List.append_nil]
  | cons call rest ih =>
    rw [List.foldlM_cons] at h
    obtain ⟨b, hcall, h⟩ := andThen_eq_ok_iff.mp h
    rw [List.append_cons]
    exact ih (hs.applyCall hcall) h

theorem says_of_propertyMetadata (h : propertyMetadata calls = .ok m) : Says calls m := by
  have hempty : Says [] {} :=
    { extra_iff := fun name => by simp [KeyMap.contains]
      extra_object := nofun
      flag_iff := fun tag => by simp [FieldSpec.flags] }
  exact hempty.foldlM h

end PropertyMetadata

/-! ### Tags -/

namespace FieldSpec

variable {s : FieldSpec}

/-- No tag comes twice exactly if no unknown decorator has the name of a tag that is set. -/
theorem tags_nodup_iff : s.tags.Nodup ↔
    ∀ tag, (tag, true) ∈ s.flags → KeyMap.contains s.extra tag = false := by
  have hmem : ∀ tag, tag ∈ (s.flags.filter Prod.snd).map Prod.fst ↔ (tag, true) ∈ s.flags := by
    simp
  have hown : ((s.flags.filter Prod.snd).map Prod.fst).Nodup :=
    List.Nodup.sublist (List.filter_sublist.map _) (by simp [flags])
  unfold tags
  rw [List.nodup_append]
  constructor
  · rintro ⟨-, -, hdisjoint⟩ tag htag
    rw [← Bool.not_eq_true, ← KeyMap.mem_keys_iff]
    exact fun hkey => hdisjoint tag ((hmem tag).mpr htag) tag hkey rfl
  · intro h
    refine ⟨hown, s.extra_sorted.nodup_keys, ?_⟩
    rintro tag htag _ hkey rfl
    rw [KeyMap.mem_keys_iff, h tag ((hmem tag).mp htag)] at hkey
    cases hkey

/-! ### Writing and reading -/

theorem get?_flagMember (name : String) (set : Bool) (key : String) :
    KeyMap.get? (flagMember name set) key =
      if name = key ∧ set = true then some (.bool true) else none := by
  cases set <;> simp [flagMember, KeyMap.get?_cons]

theorem get?_optionMember (name : String) (value : Option Json) (key : String) :
    KeyMap.get? (optionMember name value) key = if name = key then value else none := by
  cases value <;> simp [optionMember, KeyMap.get?_cons]

theorem keys_ownMembers_sublist (s : FieldSpec) :
    (s.ownMembers.map Prod.fst).Sublist ownNames := by
  have hflag : ∀ name set, ((flagMember name set).map Prod.fst).Sublist [name] := by
    intro name set
    cases set <;> simp [flagMember]
  have hoption : ∀ name value, ((optionMember name value).map Prod.fst).Sublist [name] := by
    intro name value
    cases value <;> simp [optionMember]
  show List.Sublist _ (["required"] ++ ["unique"] ++ ["index"] ++ ["immutable"] ++ ["readOnly"] ++
    ["insertOnly"] ++ ["embedded"] ++ ["invisible"] ++ ["enum"] ++ ["type"] ++ ["ref"])
  simp only [ownMembers, List.map_append]
  repeat' apply List.Sublist.append
  all_goals first | exact hflag _ _ | exact hoption _ _

/-- A name has what an unknown decorator says under it, or else the part of this library. -/
theorem get?_members (s : FieldSpec) (name : String) :
    KeyMap.get? (KeyMap.ofPairs (s.ownMembers ++ s.extra)) name =
      (KeyMap.get? s.extra name).or (KeyMap.get? s.ownMembers name) := by
  have hn : (s.ownMembers.map Prod.fst).Nodup :=
    (keys_ownMembers_sublist s).nodup (by decide)
  have happend : KeyMap.ofPairs (s.ownMembers ++ s.extra) =
      KeyMap.union (KeyMap.ofPairs s.ownMembers) s.extra := List.foldl_append
  rw [happend, KeyMap.get?_union _ s.extra_sorted, KeyMap.get?_ofPairs_of_nodup hn]

/-- What stands under the names of no part is what the unknown decorators say. -/
theorem extra_of_members (h : ∀ name ∈ ownNames, KeyMap.get? s.extra name = none) :
    KeyMap.ofPairs ((KeyMap.ofPairs (s.ownMembers ++ s.extra)).filter
      fun p => !ownNames.contains p.1) = s.extra := by
  refine (KeyMap.sorted_ofPairs _).eq_of_get? s.extra_sorted fun name => ?_
  have hn := (KeyMap.sorted_ofPairs (s.ownMembers ++ s.extra)).nodup_keys
  rw [KeyMap.get?_ofPairs_of_nodup (hn.sublist (List.filter_sublist.map Prod.fst)),
    KeyMap.get?_filter _ (fun key => !ownNames.contains key), get?_members]
  by_cases hname : name ∈ ownNames
  · rw [if_neg (by simpa using hname), h name hname]
  · have hown : KeyMap.get? s.ownMembers name = none := by
      rw [← Option.not_isSome_iff_eq_none]
      exact fun hc => hname ((keys_ownMembers_sublist s).subset (KeyMap.mem_keys_iff.mpr hc))
    rw [if_pos (by simpa using hname), hown, Option.or_none]

open Json (default? nullable?) in
/-- Metadata is read as it was written, if no unknown decorator has the name of a part. -/
theorem ofJson?_toJson (h : ∀ name ∈ ownNames, KeyMap.get? s.extra name = none) :
    ofJson? s.toJson = some s := by
  have hflag : ∀ name set, name ∈ ownNames →
      KeyMap.get? s.ownMembers name = (if set then some (.bool true) else none) →
      default? false Json.bool? (KeyMap.get? (KeyMap.ofPairs (s.ownMembers ++ s.extra)) name) =
        some set := by
    intro name set hname hown
    rw [get?_members, h name hname, Option.none_or, hown]
    cases set <;> rfl
  have hoption : ∀ {α : Type} {read : Json → Option α} {write : α → Json} name value,
      name ∈ ownNames → KeyMap.get? s.ownMembers name = value.map write →
      (∀ a, nullable? read (write a) = some (some a)) →
      default? none (nullable? read)
        (KeyMap.get? (KeyMap.ofPairs (s.ownMembers ++ s.extra)) name) = some value := by
    intro α read write name value hname hown hread
    rw [get?_members, h name hname, Option.none_or, hown]
    cases value with
    | none => rfl
    | some a => exact hread a
  have hinvisible : ∀ i : Invisibility,
      nullable? Invisibility.ofJson? i.toJson = some (some i) := by
    intro i
    cases i <;> rfl
  have harray : ∀ items, nullable? Json.array? (.array items) = some (some items) := fun _ => rfl
  have htext : ∀ text, nullable? Json.string? (.string text) = some (some text) := fun _ => rfl
  unfold toJson Json.ofMembers ofJson?
  dsimp only
  rw [hflag "required" s.required, hflag "unique" s.unique, hflag "index" s.index,
    hflag "immutable" s.immutable, hflag "readOnly" s.readOnly, hflag "insertOnly" s.insertOnly,
    hflag "embedded" s.embedded, hoption "invisible" s.invisible _ _ hinvisible,
    hoption "enum" s.allowed _ _ harray, hoption "type" s.type _ _ htext,
    hoption "ref" s.target _ _ htext]
  · simp only [Option.pure_def, extra_of_members h]
    rfl
  all_goals first | decide | simp [ownMembers, KeyMap.get?_append, get?_flagMember,
    get?_optionMember]

open Json (default? nullable?) in
/-- Metadata cannot be read from an object in the place of a part. -/
theorem ne_object_of_ofJson? {members : Object} (h : ofJson? (.object members) = some s) :
    ∀ name ∈ ownNames, ∀ args, KeyMap.get? members name ≠ some (.object args) := by
  intro name hname args hget
  unfold ofJson? at h
  obtain ⟨_, hrequired, h⟩ := Option.bind_eq_some_iff.mp h
  obtain ⟨_, hunique, h⟩ := Option.bind_eq_some_iff.mp h
  obtain ⟨_, hindex, h⟩ := Option.bind_eq_some_iff.mp h
  obtain ⟨_, himmutable, h⟩ := Option.bind_eq_some_iff.mp h
  obtain ⟨_, hreadOnly, h⟩ := Option.bind_eq_some_iff.mp h
  obtain ⟨_, hinsertOnly, h⟩ := Option.bind_eq_some_iff.mp h
  obtain ⟨_, hembedded, h⟩ := Option.bind_eq_some_iff.mp h
  obtain ⟨_, hinvisible, h⟩ := Option.bind_eq_some_iff.mp h
  obtain ⟨_, hallowed, h⟩ := Option.bind_eq_some_iff.mp h
  obtain ⟨_, htype, h⟩ := Option.bind_eq_some_iff.mp h
  obtain ⟨_, htarget, -⟩ := Option.bind_eq_some_iff.mp h
  -- neither a flag nor an optional part is read from an object
  have hflag : ∀ {name set}, default? false Json.bool? (KeyMap.get? members name) = some set →
      KeyMap.get? members name ≠ some (.object args) := by
    intro name set hread hget
    rw [hget] at hread
    cases hread
  have hoption : ∀ {α : Type} {read : Json → Option α} {name value},
      default? none (nullable? read) (KeyMap.get? members name) = some value →
      read (.object args) = none → KeyMap.get? members name ≠ some (.object args) := by
    intro α read name value hread hnone hget
    rw [hget] at hread
    change (read (.object args)).map some = some value at hread
    rw [hnone] at hread
    cases hread
  simp only [ownNames, List.mem_cons, List.not_mem_nil, or_false] at hname
  rcases hname with rfl | rfl | rfl | rfl | rfl | rfl | rfl | rfl | rfl | rfl | rfl
  · exact hflag hrequired hget
  · exact hflag hunique hget
  · exact hflag hindex hget
  · exact hflag himmutable hget
  · exact hflag hreadOnly hget
  · exact hflag hinsertOnly hget
  · exact hflag hembedded hget
  · exact hoption hinvisible rfl hget
  · exact hoption hallowed rfl hget
  · exact hoption htype rfl hget
  · exact hoption htarget rfl hget

/-- Metadata whose unknown decorators are kept as objects is read as it was written exactly if none
of them has the name of a part. -/
theorem ofJson?_toJson_iff
    (hobject : ∀ name v, KeyMap.get? s.extra name = some v → ∃ args, v = .object args) :
    ofJson? s.toJson = some s ↔ ∀ name ∈ ownNames, KeyMap.contains s.extra name = false := by
  constructor
  · intro h name hname
    rw [← Bool.not_eq_true]
    intro hc
    obtain ⟨v, hv⟩ := Option.isSome_iff_exists.mp hc
    obtain ⟨args, rfl⟩ := hobject name v hv
    refine ne_object_of_ofJson? h name hname args ?_
    rw [get?_members, hv, Option.some_or]
  · intro h
    refine ofJson?_toJson fun name hname => ?_
    rw [← Option.not_isSome_iff_eq_none, Bool.not_eq_true]
    exact h name hname

end FieldSpec

/-! ### The validators of a field -/

namespace Factory

/-- The tags of a field for which the factory finds a validator. -/
def looked (f : Factory) (everywhere : KeyMap Validator) (field : Field) : List String :=
  field.tags.filter fun tag => (f.validator? everywhere tag).isSome

/-- A field has a validator for every one of these. -/
theorem length_attach (f : Factory) (everywhere : KeyMap Validator) (field : Field) (place : Nat) :
    (f.attach everywhere (field, place)).length = (f.looked everywhere field).length := by
  unfold attach looked
  dsimp only
  induction field.tags with
  | nil => rfl
  | cons tag rest ih => cases h : f.validator? everywhere tag <;> simp [h, ih]

/-- Whatever the validators are, a field has at most one for each of its tags, exactly if none of
its tags comes twice. -/
theorem attach_le_iff (tags : List String) :
    (∀ (f : Factory) (everywhere : KeyMap Validator) (field : Field) (place : Nat),
      field.tags = tags → (f.attach everywhere (field, place)).length ≤
        (f.looked everywhere field).dedup.length) ↔ tags.Nodup := by
  constructor
  · intro h
    -- every tag has a validator
    let everywhere := KeyMap.ofPairs (tags.map fun tag => (tag, (default : Validator)))
    have hlooked : (default : Factory).looked everywhere { name := "", tags := tags } = tags := by
      refine List.filter_eq_self.mpr fun tag htag => ?_
      have hkey : tag ∈ KeyMap.keys everywhere := by
        rw [KeyMap.mem_keys_ofPairs]
        exact List.mem_map.mpr ⟨(tag, default), List.mem_map_of_mem htag, rfl⟩
      exact KeyMap.mem_keys_iff.mp hkey
    have hle := h default everywhere { name := "", tags := tags } 0 rfl
    rw [length_attach, hlooked] at hle
    have heq := (List.dedup_sublist tags).eq_of_length_le hle
    exact List.dedup_eq_self.mp heq
  · intro hn f everywhere field place htags
    subst htags
    have hlooked : (f.looked everywhere field).Nodup := hn.filter _
    exact Nat.le_of_eq (by rw [length_attach, hlooked.dedup])

end Factory

/-- **When the metadata of a property is read as it was written**: exactly if no unknown decorator
has the name of a part of this library. No tag comes twice exactly if no unknown decorator has the
name of a tag that a decorator of the library sets, and this is also exactly when a field with this
metadata is given at most one validator for each of its tags. -/
theorem propertyMetadata_read_iff {calls : List DecoratorCall} {m : PropertyMetadata}
    {spec : FieldSpec} (h : propertyMetadata calls = .ok m) (hspec : m.spec? = some spec) :
    (FieldSpec.ofJson? spec.toJson = some spec ↔
      ∀ call ∈ calls, Decorator.parameters? call.name = none → call.name ∉ FieldSpec.ownNames) ∧
    (spec.tags.Nodup ↔ ∀ call ∈ calls, ∀ other ∈ calls,
      Decorator.parameters? other.name = none → Decorator.tag? call.name ≠ some other.name) ∧
    ((∀ (f : Factory) (everywhere : KeyMap Validator) (field : Field) (place : Nat),
      field.tags = spec.tags → (f.attach everywhere (field, place)).length ≤
        (f.looked everywhere field).dedup.length) ↔ spec.tags.Nodup) := by
  have hsays := PropertyMetadata.says_of_propertyMetadata h
  have hm : m.spec = spec := by
    unfold PropertyMetadata.spec? at hspec
    split at hspec
    · cases hspec
    · exact Option.some.inj hspec
  subst hm
  have hcontains : ∀ name, KeyMap.contains m.spec.extra name = false ↔
      ∀ call ∈ calls, Decorator.parameters? call.name = none → call.name ≠ name := by
    intro name
    rw [← Bool.not_eq_true, hsays.extra_iff name]
    grind
  refine ⟨?_, ?_, Factory.attach_le_iff _⟩
  · rw [FieldSpec.ofJson?_toJson_iff hsays.extra_object]
    simp only [hcontains]
    grind
  · rw [FieldSpec.tags_nodup_iff]
    simp only [hcontains, hsays.flag_iff]
    grind

/-- These parts have names that unknown decorators can have. -/
example : FieldSpec.ownNames.filter (fun name => (Decorator.parameters? name).isNone) =
    ["readOnly", "insertOnly", "enum", "type", "ref"] := by
  decide

namespace Labelling

/-- The values that a property may have. -/
def choice : DecoratorCall := { name := "enumeration", args := [.array [.string "a", .string "b"]] }

/-- Besides the choice, an unknown decorator says something. -/
def coloured : List DecoratorCall := [choice, { name := "colour", args := [.string "red"] }]

/-- What this says about the property. -/
def colouredSpec : FieldSpec where
  allowed := some [.string "a", .string "b"]
  extra := [("colour", .ofMembers [("arg0", .string "red")])]
  extra_sorted := List.pairwise_singleton _ _

/-- A decorator with a name of its own is kept beside the parts of the library. -/
theorem coloured_read : propertyMetadata coloured = .ok { spec := colouredSpec } ∧
    FieldSpec.ofJson? colouredSpec.toJson = some colouredSpec ∧ colouredSpec.tags.Nodup := by
  have hsaid : propertyMetadata coloured = .ok { spec := colouredSpec } := rfl
  have hspec : PropertyMetadata.spec? { spec := colouredSpec } = some colouredSpec := by decide
  obtain ⟨hread, htags, -⟩ := propertyMetadata_read_iff hsaid hspec
  exact ⟨hsaid, hread.mpr (by decide), htags.mpr (by decide)⟩

/-- Besides the choice, an unknown decorator has the name under which the choice is written. -/
def mislabelled : List DecoratorCall := [choice, { name := "enum" }]

/-- What this says about the property. -/
def mislabelledSpec : FieldSpec where
  allowed := some [.string "a", .string "b"]
  extra := [("enum", .object [])]
  extra_sorted := List.pairwise_singleton _ _

/-- What the unknown decorator says is written in the place of the choice, so the metadata cannot be
read again, and the tag of the choice comes twice. -/
theorem mislabelled_covered : propertyMetadata mislabelled = .ok { spec := mislabelledSpec } ∧
    PropertyMetadata.spec? { spec := mislabelledSpec } = some mislabelledSpec ∧
    mislabelledSpec.toJson = .ofMembers [("enum", .object [])] ∧
    FieldSpec.ofJson? mislabelledSpec.toJson = none ∧
    mislabelledSpec.tags = ["enum", "enum"] := by
  decide

end Labelling

end ModelRest
