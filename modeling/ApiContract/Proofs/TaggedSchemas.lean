import ApiContract.Proofs.SchemaMeaning

/-!
# Schemas of tagged objects

The schema of an object asks for the members that its properties say, and for no others. A variant
whose fields stand in place gets its tag as one more property: its schema takes an object with the
tag if the schema of its own type takes the rest of the object. Where the type takes nothing without
the tag, both schemas take the same.
-/

namespace ApiContract

namespace OpenApi

variable {reading : Reading} {document : Json} {next : Json → Json → Bool} {s : OutputSettings}
  {value : Json} {answer : Bool} {properties : List (String × Json)} {required : List String}
  {members : Keyed Json}

/-- The members of an object are those of the properties, with all that are required. -/
structure MeetsProperties (next : Json → Json → Bool) (properties : List (String × Json))
    (required : List String) (members : Keyed Json) : Prop where
  each : ∀ key schema, Keyed.get? (Keyed.ofList properties) key = some schema →
    ∀ m, Keyed.get? members key = some m → next schema m = true
  present : ∀ key ∈ required, key ∈ members.keys
  known : ∀ key ∈ members.keys, key ∈ Keyed.keys properties

theorem keepsLimits_ofProperties :
    keepsLimits reading (ofProperties properties required) value = true := by
  refine List.all_eq_true.mpr fun p hp => ?_
  have plain : p.1 ≠ "type" ∧ p.1 ≠ "properties" ∧ p.1 ≠ "additionalProperties" ∧
      p.1 ≠ "required" := by revert p; decide
  simp [asks, ofProperties, plain]

theorem declared_ofProperties :
    declared (ofProperties properties required) = Keyed.ofList properties := by
  simp [declared, ofProperties, Json.ofMembers, Json.entries]

theorem asks_required (so : String → Bool) :
    asks (ofProperties properties required) "required" (fun j =>
      j.elements.all fun key => (key.string?).any so) = required.all so := by
  by_cases none : required.isEmpty = true
  · simp [asks, ofProperties, List.isEmpty_iff.mp none]
  · simp [asks, ofProperties, none, Json.elements, Json.string?, List.all_map, Function.comp_def]

/-- A table has the keys of the pairs it is made of. -/
theorem contains_ofList {key : String} :
    Keyed.contains (Keyed.ofList properties) key = true ↔ key ∈ Keyed.keys properties := by
  rw [Keyed.contains, Option.isSome_iff_exists]
  constructor
  · rintro ⟨schema, h⟩
    exact Keyed.mem_keys_of_mem (Keyed.mem_of_get?_ofList h)
  · intro h
    induction properties with
    | nil => cases h
    | cons p rest ih =>
      obtain ⟨k, j⟩ := p
      rw [Keyed.get?_ofList_cons]
      rcases List.mem_cons.mp h with rfl | h
      · cases Keyed.get? (Keyed.ofList rest) key <;> simp
      · obtain ⟨schema, found⟩ := ih h
        exact ⟨schema, by simp [found]⟩

/-- Only objects satisfy the schema of an object, and no key is allowed that is not declared. -/
theorem holdsAt_ofProperties (refused : ∀ m, next (.bool false) m = false) :
    holdsAt reading document next (ofProperties properties required) value = true ↔
      ∃ members, value = .object members ∧ MeetsProperties next properties required members := by
  have step : holdsAt reading document next (ofProperties properties required) value =
      (hasType "object" value && holdsInside next (ofProperties properties required) value) := by
    rw [holdsAt, keepsLimits_ofProperties]
    simp [asks, meetsType, ofProperties]
  have further (so : Json → Bool) :
      asks (ofProperties properties required) "additionalProperties" so = so (.bool false) := by
    simp [asks, ofProperties]
  have sorted := (Keyed.sorted_ofList properties).nodup
  rw [step]
  cases value with
  | object members =>
    have same : hasType "object" (.object members) = true := rfl
    rw [same, Bool.true_and, holdsInside, declared_ofProperties, asks_required, further]
    simp only [refused, Bool.or_false, Bool.and_eq_true, List.all_eq_true, Option.all_eq_true,
      contains_ofList, Json.object.injEq, exists_eq_left']
    constructor
    · rintro ⟨⟨each, present⟩, known⟩
      refine ⟨?_, ?_, ?_⟩
      · intro key schema h m hm
        exact each (key, schema) (Keyed.mem_of_get? h) m hm
      · intro key h
        have found := present key h
        rw [Keyed.contains, Option.isSome_iff_exists] at found
        exact (Keyed.mem_keys_iff _ _).mpr found
      · intro key h
        obtain ⟨p, hp, rfl⟩ := List.mem_map.mp h
        exact known p hp
    · rintro ⟨each, present, known⟩
      refine ⟨⟨?_, ?_⟩, ?_⟩
      · rintro ⟨key, schema⟩ h m hm
        exact each key schema (Keyed.get?_of_mem sorted h) m hm
      · intro key h
        rw [Keyed.contains, Option.isSome_iff_exists]
        exact (Keyed.mem_keys_iff _ _).mp (present key h)
      · intro p hp
        exact known p.1 (List.mem_map_of_mem hp)
  | _ => simp [hasType]

/-- With one more property that is required, which no other one has the key of, an object meets the
rest without that member. -/
theorem meetsProperties_cons {key : String} {schema : Json} (free : key ∉ Keyed.keys properties)
    (least : required ⊆ Keyed.keys properties) :
    MeetsProperties next ((key, schema) :: properties) (key :: required) members ↔
      (∃ m, Keyed.get? members key = some m ∧ next schema m = true) ∧
        MeetsProperties next properties required (Keyed.erase key members) := by
  have own : Keyed.get? (Keyed.ofList ((key, schema) :: properties)) key = some schema := by
    rw [Keyed.get?_ofList_cons, Keyed.get?_ofList_of_not_mem free]
    simp
  have other {key' : String} (h : key' ≠ key) :
      Keyed.get? (Keyed.ofList ((key, schema) :: properties)) key' =
        Keyed.get? (Keyed.ofList properties) key' := by
    rw [Keyed.get?_ofList_cons, if_neg h, Option.or_none]
  constructor
  · rintro ⟨each, present, known⟩
    obtain ⟨m, hm⟩ := (Keyed.mem_keys_iff _ _).mp (present key List.mem_cons_self)
    refine ⟨⟨m, hm, each key schema own m hm⟩, ?_, ?_, ?_⟩
    · intro key' schema' h m' hm'
      rw [Keyed.get?_erase] at hm'
      split at hm'
      · cases hm'
      · rename_i different
        exact each key' schema' (by rw [other different, h]) m' hm'
    · intro key' h
      exact Keyed.mem_keys_erase.mpr ⟨present key' (List.mem_cons_of_mem _ h),
        fun same => free (same ▸ least h)⟩
    · intro key' h
      obtain ⟨h, different⟩ := Keyed.mem_keys_erase.mp h
      exact (List.mem_cons.mp (known key' h)).resolve_left different
  · rintro ⟨⟨m, hm, holds⟩, each, present, known⟩
    refine ⟨?_, ?_, ?_⟩
    · intro key' schema' h m' hm'
      by_cases same : key' = key
      · subst same
        rw [own] at h
        rw [hm] at hm'
        cases h
        cases hm'
        exact holds
      · rw [other same] at h
        exact each key' schema' h m' (by rw [Keyed.get?_erase, if_neg same, hm'])
    · intro key' h
      rcases List.mem_cons.mp h with rfl | h
      · exact (Keyed.mem_keys_iff _ _).mpr ⟨m, hm⟩
      · exact (Keyed.mem_keys_erase.mp (present key' h)).1
    · intro key' h
      by_cases same : key' = key
      · exact same ▸ List.mem_cons_self
      · exact List.mem_cons_of_mem _ (known key' (Keyed.mem_keys_erase.mpr ⟨h, same⟩))

/-- A property in front of one with its key is only required. -/
theorem meetsProperties_cons_of_mem {key : String} {schema : Json}
    (taken : key ∈ Keyed.keys properties) :
    MeetsProperties next ((key, schema) :: properties) (key :: required) members ↔
      key ∈ members.keys ∧ MeetsProperties next properties required members := by
  have same (key' : String) : Keyed.get? (Keyed.ofList ((key, schema) :: properties)) key' =
      Keyed.get? (Keyed.ofList properties) key' := by
    rw [Keyed.get?_ofList_cons]
    split
    · rename_i here
      obtain ⟨schema', h⟩ := Option.isSome_iff_exists.mp (contains_ofList.mpr taken)
      rw [here, h, Option.some_or]
    · rw [Option.or_none]
  constructor
  · rintro ⟨each, present, known⟩
    refine ⟨present key List.mem_cons_self, ?_,
      fun key' h => present key' (List.mem_cons_of_mem _ h), ?_⟩
    · intro key' schema' h
      exact each key' schema' (by rw [same, h])
    · intro key' h
      rcases List.mem_cons.mp (known key' h) with rfl | h
      · exact taken
      · exact h
  · rintro ⟨here, each, present, known⟩
    refine ⟨?_, ?_, fun key' h => List.mem_cons_of_mem _ (known key' h)⟩
    · intro key' schema' h
      exact each key' schema' (by rw [← same, h])
    · intro key' h
      rcases List.mem_cons.mp h with rfl | h
      · exact here
      · exact present key' h

/-! ### Variants with their fields in place -/

theorem keys_properties (s : OutputSettings) (shape : List Field) :
    Keyed.keys (OpenApi.properties s shape) = shape.map (Field.wireName s.keyCase) := by
  rw [properties_eq, Keyed.keys, List.map_map]
  rfl

theorem required_subset (s : OutputSettings) (shape : List Field) :
    OpenApi.required s shape ⊆ Keyed.keys (OpenApi.properties s shape) := by
  rw [keys_properties, required_eq]
  exact List.map_subset _ (List.filter_subset_self ..)

/-- What the schema of an object says of values other than `null`. -/
theorem settles_object {d : Definition} {shape : List Field} (hk : d.kind = .object shape)
    (notNull : value ≠ .null) :
    Settles reading document (ofDefinition s d) value answer ↔
      ∀ᶠ n in Filter.atTop, (∃ members, value = .object members ∧
        MeetsProperties (holds reading document n) (OpenApi.properties s shape)
          (OpenApi.required s shape) members) ↔ answer = true := by
  rw [ofDefinition_eq, settles_finish, hk, ofKind, settles_iff]
  refine Filter.eventually_congr (.of_forall fun n => ?_)
  have refused (m : Json) : holds reading document n (.bool false) m = false := by
    cases n <;> rfl
  rw [holds_object, Bool.eq_iff_iff, ← holdsAt_ofProperties refused]
  cases d.nullable with
  | false => rfl
  | true =>
    rw [if_pos rfl, (Typed.of_ofProperties _ _).holdsAt_allowNull notNull]

theorem holds_literal (n : Nat) (v m : Json) :
    holds reading document (n + 1) (ofDefinition s (Definition.literal v).withTags) m =
      m.equals v := by
  rw [ofDefinition_withTags, holds_object, holdsAt_congr fun key h => get?_finish _ _ _ _ h]
  exact holdsAt_const v

/-- The tag of a variant whose fields stand in place is one more property, which is required. -/
theorem properties_tagged {key tag : String} {shape : List Field}
    (unnamed : ∀ f ∈ shape, f.name ≠ key) :
    OpenApi.properties s ((Field.tagged key tag shape).map Field.withTags) =
        (s.keyCase.apply key, ofDefinition s (Definition.literal (.string tag)).withTags) ::
          OpenApi.properties s (shape.map Field.withTags) ∧
      OpenApi.required s ((Field.tagged key tag shape).map Field.withTags) =
        s.keyCase.apply key :: OpenApi.required s (shape.map Field.withTags) := by
  have tagged : Field.tagged key tag shape = Field.ofTag key tag :: shape := by
    rw [Field.tagged, if_neg]
    simpa using unnamed
  rw [tagged, List.map_cons]
  exact ⟨rfl, rfl⟩

/-- A tag in front of the fields says that the tag is there, and leaves the rest as it was. -/
theorem settles_inPlace {key tag : String} {v : Variant} {shape : List Field}
    (ht : v.tag = some tag) (hk : v.definition.kind = .object shape)
    (unnamed : ∀ f ∈ shape, f.name ≠ key)
    (free : ∀ f ∈ shape, f.wireName s.keyCase ≠ s.keyCase.apply key)
    (own : Settles reading document (ofDefinition s v.definition.withTags)
      (.object (Keyed.erase (s.keyCase.apply key) members)) answer) :
    Settles reading document (ofDefinition s (v.withTags (some key)).definition) (.object members)
      ((Keyed.get? members (s.keyCase.apply key) == some (.string tag)) && answer) := by
  rw [settles_object (Definition.kind_withTags_of_object hk) Json.noConfusion] at own
  rw [settles_object (Variant.kind_withTags key ht hk) Json.noConfusion,
    (properties_tagged unnamed).1, (properties_tagged unnamed).2]
  have apart : s.keyCase.apply key ∉
      Keyed.keys (OpenApi.properties s (shape.map Field.withTags)) := by
    rw [keys_properties, List.map_map, List.mem_map]
    rintro ⟨f, hf, same⟩
    exact free f hf same
  filter_upwards [own, Filter.eventually_ge_atTop 1] with n hn deep
  obtain ⟨n, rfl⟩ := Nat.exists_eq_succ_of_ne_zero (show n ≠ 0 by omega)
  simp only [Json.object.injEq, exists_eq_left'] at hn ⊢
  rw [meetsProperties_cons apart (required_subset s _), hn, Bool.and_eq_true, beq_iff_eq]
  simp only [Nat.succ_eq_add_one, holds_literal, Json.equals_string, exists_eq_right]

/-- A field that stands under the key already says what the tag would; the key is required. -/
theorem settles_taken {key tag : String} {v : Variant} {shape : List Field}
    (ht : v.tag = some tag) (hk : v.definition.kind = .object shape)
    (unnamed : ∀ f ∈ shape, f.name ≠ key)
    (taken : s.keyCase.apply key ∈ shape.map (Field.wireName s.keyCase))
    (own : Settles reading document (ofDefinition s v.definition.withTags) (.object members)
      answer) :
    Settles reading document (ofDefinition s (v.withTags (some key)).definition) (.object members)
      (decide (s.keyCase.apply key ∈ members.keys) && answer) := by
  rw [settles_object (Definition.kind_withTags_of_object hk) Json.noConfusion] at own
  rw [settles_object (Variant.kind_withTags key ht hk) Json.noConfusion,
    (properties_tagged unnamed).1, (properties_tagged unnamed).2]
  have here : s.keyCase.apply key ∈
      Keyed.keys (OpenApi.properties s (shape.map Field.withTags)) := by
    rw [keys_properties, List.map_map]
    exact taken
  refine own.mono fun n hn => ?_
  simp only [Json.object.injEq, exists_eq_left'] at hn ⊢
  rw [meetsProperties_cons_of_mem here, hn, Bool.and_eq_true, decide_eq_true_eq]

/-- A variant that is no object, or declares a field of the discriminator's name, is left alone. -/
theorem definition_withTags_of_declared {key : String} {v : Variant}
    (declared : ∀ shape, v.definition.kind = .object shape → ∃ f ∈ shape, f.name = key) :
    (v.withTags (some key)).definition = v.definition.withTags := by
  by_cases inPlace : ∃ shape, v.definition.kind = .object shape
  · obtain ⟨shape, hk⟩ := inPlace
    obtain ⟨f, hf, named⟩ := declared shape hk
    have kind := Definition.kind_withTags_of_object hk
    have found : (shape.map Field.withTags).any (fun f => f.name == key) = true :=
      List.any_eq_true.mpr ⟨f.withTags, List.mem_map_of_mem hf, by simpa using named⟩
    rw [Variant.withTags]
    cases v.tag with
    | none => rfl
    | some tag =>
      rw [Definition.asVariant, Definition.withTag, kind]
      exact if_pos found
  · refine Definition.asVariant_of_not_object _ _ fun shape hk => inPlace ?_
    rw [Definition.kind_withTags] at hk
    cases hv : v.definition.kind with
    | object shape' => exact ⟨shape', rfl⟩
    | _ =>
      rw [hv, Kind.withTags] at hk
      cases hk

/-- What an object variant in place has no property for, its own type does not take. -/
theorem get?_eq_none_of_settles {d : Definition} {shape : List Field}
    (hk : d.kind = .object shape) {key : String}
    (free : key ∉ shape.map (Field.wireName s.keyCase))
    (own : Settles reading document (ofDefinition s d.withTags) (.object members) true) :
    Keyed.get? members key = none := by
  rw [settles_object (Definition.kind_withTags_of_object hk) Json.noConfusion] at own
  obtain ⟨n, hn⟩ := own.exists
  obtain ⟨_, ⟨⟩, meets⟩ := hn.mpr rfl
  rw [Keyed.get?_eq_none_iff]
  intro here
  have known := meets.known key here
  rw [keys_properties, List.map_map] at known
  exact free known

theorem settles_of_not_object {d : Definition} {shape : List Field} (hk : d.kind = .object shape)
    (notNull : value ≠ .null) (other : ∀ members, value ≠ .object members) :
    Settles reading document (ofDefinition s d) value false := by
  rw [settles_object hk notNull]
  exact .of_forall fun n => iff_of_false (fun ⟨members, is, _⟩ => other members is) nofun

section

variable {key tag : String} {v : Variant} {accepts : Json → Bool} (ht : v.tag = some tag)
  (own : ∀ j, j ≠ .null →
    Settles reading document (ofDefinition s v.definition.withTags) j (accepts j))
  (tagged : ∀ j, j ≠ .null → accepts j = true → j.get? (s.keyCase.apply key) = some (.string tag))

include ht own tagged

/-- The tag is put in front of fields none of which has the discriminator's name. If objects without
the tag are refused anyway, this changes nothing. -/
theorem settles_unnamed {shape : List Field} (hk : v.definition.kind = .object shape)
    (unnamed : ∀ f ∈ shape, f.name ≠ key) (members : Keyed Json) :
    Settles reading document (ofDefinition s (v.withTags (some key)).definition) (.object members)
      (accepts (.object members)) := by
  by_cases taken : s.keyCase.apply key ∈ shape.map (Field.wireName s.keyCase)
  · have settled := settles_taken ht hk unnamed taken (own (.object members) Json.noConfusion)
    cases ha : accepts (.object members) with
    | false => simpa [ha] using settled
    | true =>
      have here := Keyed.mem_keys_of_get? (tagged _ Json.noConfusion ha)
      simpa [ha, here] using settled
  · -- neither the object nor the rest of it is taken
    have rest : accepts (.object (Keyed.erase (s.keyCase.apply key) members)) = false := by
      by_contra ha
      have found := tagged _ Json.noConfusion (by simpa using ha)
      simp [Keyed.get?_erase] at found
    have whole : accepts (.object members) = false := by
      by_contra ha
      have ha : accepts (.object members) = true := by simpa using ha
      have found := tagged _ Json.noConfusion ha
      rw [Json.get?_object, get?_eq_none_of_settles hk taken (ha ▸ own _ Json.noConfusion)] at found
      cases found
    have free : ∀ f ∈ shape, f.wireName s.keyCase ≠ s.keyCase.apply key :=
      fun f hf same => taken (List.mem_map.mpr ⟨f, hf, same⟩)
    have settled := settles_inPlace ht hk unnamed free
      (own (.object (Keyed.erase (s.keyCase.apply key) members)) Json.noConfusion)
    rwa [rest, Bool.and_false, ← whole] at settled

/-- What the schema of a variant says, if the variant's own type takes nothing without the tag. -/
theorem settles_of_tagged (notNull : value ≠ .null) :
    Settles reading document (ofDefinition s (v.withTags (some key)).definition) value
      (accepts value) := by
  by_cases declared : ∀ shape, v.definition.kind = .object shape → ∃ f ∈ shape, f.name = key
  · rw [definition_withTags_of_declared declared]
    exact own value notNull
  · simp only [not_forall, not_exists, not_and] at declared
    obtain ⟨shape, hk, unnamed⟩ := declared
    by_cases object : ∃ members, value = .object members
    · obtain ⟨members, rfl⟩ := object
      exact settles_unnamed ht own tagged hk unnamed members
    · have other : ∀ members, value ≠ .object members := fun members is => object ⟨members, is⟩
      have refused : accepts value = false := by
        by_contra ha
        have found := tagged value notNull (by simpa using ha)
        cases value with
        | object members => exact other members rfl
        | _ => cases found
      rw [refused]
      exact settles_of_not_object (Variant.kind_withTags key ht hk) notNull other

end

end OpenApi

end ApiContract
