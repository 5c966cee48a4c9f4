import ApiContract.Proofs.GeneratedNames
import ApiContract.Proofs.PayloadPlaces
import ApiContract.Proofs.RereadValues
import ApiContract.Proofs.WrittenMembers

/-!
# Pointers in OpenAPI schemas

A schema has other ones in it: of its properties, of its elements, and its alternatives. Wherever a
schema generated from a definition points to a component, as a reference or as what a tag leads to,
the component is that of a name the definition mentions. In a document with these components
the pointer leads to the schema of that name, unless `~` or `/` stands in it.
-/

namespace ApiContract

/-- Members that are in order already stay as they are. -/
@[simp] theorem Keyed.get?_ofList_ofList {α : Type} (pairs : List (String × α)) (key : String) :
    get? (ofList (ofList pairs)) key = get? (ofList pairs) key :=
  get?_ofList_of_nodup (sorted_ofList pairs).nodup key

@[simp] theorem Json.get?_object (members : Keyed Json) (key : String) :
    (Json.object members).get? key = Keyed.get? members key := rfl

namespace OpenApi

/-! ### Schemas inside schemas -/

/-- A schema stands inside another one, at any depth. -/
inductive Within : Json → Json → Prop where
  | here {j} : Within j j
  | property {j k part properties key} (hp : j.get? "properties" = some (.object properties))
    (hk : Keyed.get? properties key = some k) (h : Within k part) : Within j part
  | items {j k part} (hi : j.get? "items" = some k) (h : Within k part) : Within j part
  | alternative {j k part alternatives} (ho : j.get? "oneOf" = some (.array alternatives))
    (hk : k ∈ alternatives) (h : Within k part) : Within j part

/-- A schema points to something: it is a reference, or a tag leads there. -/
inductive PointsTo (j v : Json) : Prop where
  | reference (h : j.get? "$ref" = some v)
  | tag {discriminator mapping tag} (hd : j.get? "discriminator" = some discriminator)
    (hm : discriminator.get? "mapping" = some mapping) (hv : mapping.get? tag = some v)

/-- All schemas inside one point to the components of some names only. -/
def PointsInto (names : List String) (j : Json) : Prop :=
  ∀ part v, Within j part → PointsTo part v → ∃ name ∈ names, v = pointerTo name

def structuralKeys : List String := ["$ref", "discriminator", "items", "oneOf", "properties"]

variable {names : List String} {schema schema' : Keyed Json} {lower upper : Option Binary64}

/-- It is enough to look at the schema itself and at those right below it. -/
theorem pointsInto_of {j : Json} (here : ∀ v, PointsTo j v → ∃ name ∈ names, v = pointerTo name)
    (properties : ∀ members key k, j.get? "properties" = some (.object members) →
      Keyed.get? members key = some k → PointsInto names k)
    (items : ∀ k, j.get? "items" = some k → PointsInto names k)
    (alternatives : ∀ ks, j.get? "oneOf" = some (.array ks) → ∀ k ∈ ks, PointsInto names k) :
    PointsInto names j := by
  intro part v within points
  cases within with
  | here => exact here v points
  | property hp hk h => exact properties _ _ _ hp hk part v h points
  | items hi h => exact items _ hi part v h points
  | alternative ho hk h => exact alternatives _ ho _ hk part v h points

/-- Members under other keys play no part. -/
theorem PointsInto.congr (h : PointsInto names (.object schema))
    (same : ∀ key ∈ structuralKeys, Keyed.get? schema' key = Keyed.get? schema key) :
    PointsInto names (.object schema') := by
  have key (key : String) (hk : key ∈ structuralKeys) :
      (Json.object schema').get? key = (Json.object schema).get? key := same key hk
  refine pointsInto_of ?_ ?_ ?_ ?_
  · intro v points
    refine h _ v .here ?_
    cases points with
    | reference hr => exact .reference (by rwa [← key _ (by decide)])
    | tag hd hm hv => exact .tag (by rwa [← key _ (by decide)]) hm hv
  · intro members name k hp hk part v within
    exact h part v (.property (by rwa [← key _ (by decide)]) hk within)
  · intro k hi part v within
    exact h part v (.items (by rwa [← key _ (by decide)]) within)
  · intro ks ho k hk part v within
    exact h part v (.alternative (by rwa [← key _ (by decide)]) hk within)

/-- A schema without keys that lead on points nowhere. -/
theorem pointsInto_of_leaf (none : ∀ key ∈ structuralKeys, Keyed.get? schema key = none) :
    PointsInto names (.object schema) := by
  have key (key : String) (hk : key ∈ structuralKeys) :
      (Json.object schema).get? key = Option.none := none key hk
  refine pointsInto_of ?_ ?_ ?_ ?_
  · rintro v (h | ⟨h, -, -⟩) <;> rw [key _ (by decide)] at h <;> cases h
  · intro members name k h
    rw [key _ (by decide)] at h
    cases h
  · intro k h
    rw [key _ (by decide)] at h
    cases h
  · intro ks h
    rw [key _ (by decide)] at h
    cases h

theorem pointsInto_alternatives {ks : List Json} (h : ∀ k ∈ ks, PointsInto names k) :
    PointsInto names (.object [("oneOf", .array ks)]) := by
  refine pointsInto_of ?_ ?_ ?_ ?_
  · rintro v (h | ⟨h, -, -⟩) <;> simp [Keyed.get?_cons] at h
  · intro members name k h
    simp [Keyed.get?_cons] at h
  · intro k h
    simp [Keyed.get?_cons] at h
  · intro ks' ho
    obtain rfl : ks = ks' := by simpa [Keyed.get?_cons] using ho
    exact h

/-! ### What is added to a schema -/

def annotationKeys : List String := ["default", "description", "examples", "deprecated"]

theorem get?_finish (s : OutputSettings) (nullable : Bool) (default? : Option Json)
    (docs : Documentation) {key : String} (h : key ∉ annotationKeys) :
    Keyed.get? (finish s nullable default? docs schema) key =
      Keyed.get? (if nullable then allowNull schema else schema) key := by
  obtain ⟨hd, ht, he, hp⟩ : key ≠ "default" ∧ key ≠ "description" ∧ key ≠ "examples" ∧
      key ≠ "deprecated" := by simpa [annotationKeys] using h
  rw [finish, Keyed.get?_union]
  simp [documentation, hd, ht, he, hp]

/-- With a type `null` is one more of the types and of the listed values. -/
theorem allowNull_of_typed {type : String} (h : Keyed.get? schema "type" = some (.string type)) :
    allowNull schema = Keyed.insert "type" (.array [.string type, .string "null"])
      (Keyed.modify "enum"
        (fun j => match j with
          | .array values => .array (values ++ [.null])
          | j => j)
        schema) := by
  unfold allowNull
  split
  · rename_i type' ht
    obtain rfl : type = type' := by simpa [h] using ht
    rfl
  · rename_i untyped
    exact absurd h (untyped type)

theorem allowNull_of_untyped
    (h : ∀ type, Keyed.get? schema "type" ≠ some (.string type)) :
    allowNull schema = [("oneOf", .array [.object schema, .object (typed "null")])] := by
  rw [allowNull]
  split
  · rename_i type ht
    exact absurd ht (h type)
  · rfl

/-- Where a schema says its type, `null` is added to its type and its values and nowhere else. -/
theorem get?_allowNull_of_typed {type : String}
    (h : Keyed.get? schema "type" = some (.string type)) {key : String} (ht : key ≠ "type")
    (he : key ≠ "enum") : Keyed.get? (allowNull schema) key = Keyed.get? schema key := by
  rw [allowNull_of_typed h, Keyed.get?_insert, if_neg ht, Keyed.get?_modify, if_neg he]

theorem get?_bounded {lowerKey upperKey key : String} (hl : key ≠ lowerKey) (hu : key ≠ upperKey) :
    Keyed.get? (bounded lowerKey upperKey lower upper schema) key = Keyed.get? schema key := by
  rw [bounded, Keyed.get?_union]
  simp [hl, hu]

theorem PointsInto.bounded (h : PointsInto names (.object schema)) {lowerKey upperKey : String}
    (hl : lowerKey ∉ structuralKeys) (hu : upperKey ∉ structuralKeys) :
    PointsInto names (.object (OpenApi.bounded lowerKey upperKey lower upper schema)) :=
  h.congr fun _ hk => get?_bounded (ne_of_mem_of_not_mem hk hl) (ne_of_mem_of_not_mem hk hu)

/-- Letting `null` through brings in no pointer. -/
theorem PointsInto.allowNull (h : PointsInto names (.object schema)) :
    PointsInto names (.object (allowNull schema)) := by
  by_cases spoken : ∃ type, Keyed.get? schema "type" = some (.string type)
  · obtain ⟨type, ht⟩ := spoken
    refine h.congr fun key hk => get?_allowNull_of_typed ht ?_ ?_ <;> rintro rfl <;>
      exact absurd hk (by decide)
  · rw [allowNull_of_untyped fun type ht => spoken ⟨type, ht⟩]
    refine pointsInto_alternatives fun k hk => ?_
    rcases List.mem_cons.mp hk with rfl | hk
    · exact h
    · obtain rfl := List.mem_singleton.mp hk
      exact pointsInto_of_leaf fun key hk => by
        have other : key ≠ "type" := by revert key; decide
        simp [typed, Keyed.get?_cons, other]

/-- A default and documentation are no schemas. -/
theorem PointsInto.finish (h : PointsInto names (.object schema)) (s : OutputSettings)
    (nullable : Bool) (default? : Option Json) (docs : Documentation) :
    PointsInto names (.object (OpenApi.finish s nullable default? docs schema)) := by
  have below : PointsInto names (.object (if nullable then OpenApi.allowNull schema else schema)) :=
    by
    cases nullable
    · exact h
    · exact h.allowNull
  refine below.congr fun key hk => get?_finish s nullable default? docs fun ha => ?_
  exact absurd ha (by revert key; decide)

/-! ### Schemas of definitions -/

/-- A mention points to its name. -/
theorem pointsInto_mention {name : String} (h : name ∈ names) :
    PointsInto names (.object (mention name)) := by
  refine pointsInto_of ?_ ?_ ?_ ?_
  · rintro v (hr | ⟨hd, -, -⟩)
    · obtain rfl : pointerTo name = v := by simpa [mention, Keyed.get?_cons] using hr
      exact ⟨name, h, rfl⟩
    · simp [mention, Keyed.get?_cons] at hd
  · intro members key k h
    simp [mention, Keyed.get?_cons] at h
  · intro k h
    simp [mention, Keyed.get?_cons] at h
  · intro ks h
    simp [mention, Keyed.get?_cons] at h

/-- A string points to the type that lists its values, if one does. -/
theorem pointsInto_ofString (format : Option StringFormat) {allowed : Option Allowed}
    (h : ∀ name, allowed = some (.named name) → name ∈ names) :
    PointsInto names (.object (ofString format lower upper allowed)) := by
  rcases allowed with _ | values | name
  · refine PointsInto.bounded (pointsInto_of_leaf fun key hk => ?_) (by decide) (by decide)
    have other : key ≠ "type" ∧ key ≠ "format" ∧ key ≠ "pattern" := by revert key; decide
    obtain ⟨ht, hf, hp⟩ := other
    rw [Keyed.get?_union]
    rcases format with _ | format
    · simp [typed, Keyed.get?_cons, ht]
    · cases format <;> simp [typed, formatMember, Keyed.get?_cons, ht, hf, hp]
  · refine pointsInto_of_leaf fun key hk => ?_
    have other : key ≠ "type" ∧ key ≠ "enum" := by revert key; decide
    simp [ofString, Keyed.get?_cons, other]
  · exact pointsInto_mention (h name rfl)

/-- Of the scalars only strings may point to something. -/
theorem pointsInto_ofScalar (kind : ScalarKind) (format : Option StringFormat)
    {allowed : Option Allowed} (h : ∀ name, allowed = some (.named name) → name ∈ names) :
    PointsInto names (.object (ofScalar kind format lower upper allowed)) := by
  have typed (type : String) : PointsInto names (.object (typed type)) :=
    pointsInto_of_leaf fun key hk => by
      have other : key ≠ "type" := by revert key; decide
      simp [OpenApi.typed, Keyed.get?_cons, other]
  have formatted (format : String) : PointsInto names (.object (formatted format)) :=
    pointsInto_of_leaf fun key hk => by
      have other : key ≠ "type" ∧ key ≠ "format" := by revert key; decide
      simp [OpenApi.formatted, Keyed.get?_cons, other]
  cases kind with
  | string => exact pointsInto_ofString format h
  | integer => exact (typed _).bounded (by decide) (by decide)
  | float => exact (typed _).bounded (by decide) (by decide)
  | decimal => exact (typed _).bounded (by decide) (by decide)
  | boolean => exact typed _
  | date => exact formatted _
  | datetime => exact formatted _
  | time => exact formatted _
  | uuid => exact formatted _
  | unknown => exact pointsInto_of_leaf fun _ _ => rfl

theorem pointsInto_ofProperties {properties : List (String × Json)}
    (h : ∀ p ∈ properties, PointsInto names p.2) (required : List String) :
    PointsInto names (.object (ofProperties properties required)) := by
  refine pointsInto_of ?_ ?_ ?_ ?_
  · rintro v (h | ⟨h, -, -⟩) <;> simp [ofProperties] at h
  · intro members key k hp hk
    obtain rfl : Keyed.ofList properties = members := by
      simpa [ofProperties, Json.ofMembers] using hp
    exact h _ (Keyed.mem_of_get?_ofList hk)
  · intro k h
    simp [ofProperties] at h
  · intro ks h
    simp [ofProperties] at h

/-- Tags lead to the types of their variants. -/
theorem exists_of_mem_mapping {variants : List Variant} {tag : String} {v : Json}
    (h : Keyed.get? (mapping variants) tag = some v) :
    ∃ variant ∈ variants, ∃ target, variant.definition.kind = .reference target ∧
      v = pointerTo target := by
  obtain ⟨variant, hv, h⟩ := List.mem_filterMap.mp (Keyed.mem_of_get?_ofList h)
  obtain ⟨tag', -, h⟩ := Option.bind_eq_some_iff.mp h
  obtain ⟨target, ht, h⟩ := Option.bind_eq_some_iff.mp h
  cases h
  refine ⟨variant, hv, target, ?_, rfl⟩
  rw [Definition.target?] at ht
  split at ht
  · rename_i hk
    rw [hk, Option.some.inj ht]
  · cases ht

/-- Alternatives point where they do, and tags to what variants refer to. -/
theorem pointsInto_ofUnion (case : KeyCase) (discriminator : Option String)
    {variants : List Variant} {schemas : List Json} (h : ∀ k ∈ schemas, PointsInto names k)
    (targets : Variant.listMentions variants ⊆ names) :
    PointsInto names (.object (ofUnion case discriminator variants schemas)) := by
  cases discriminator with
  | none => exact pointsInto_alternatives h
  | some key =>
    unfold ofUnion
    dsimp only
    refine pointsInto_of ?_ ?_ ?_ ?_
    · rintro v (h | ⟨hd, hm, hv⟩)
      · simp [Keyed.get?_cons] at h
      · simp only [Json.get?_object, Keyed.get?_cons, if_true, Option.some.injEq] at hd
        subst hd
        -- a mapping is only written if it is not empty
        by_cases empty : (mapping variants).isEmpty = true
        · simp [empty, Keyed.get?_cons] at hm
        · rw [if_neg empty] at hm
          simp only [Json.get?_object, Keyed.get?_cons, if_true, Option.some.injEq] at hm
          subst hm
          obtain ⟨variant, hmem, target, hk, rfl⟩ := exists_of_mem_mapping hv
          exact ⟨target, targets (Definition.mem_listMentions_of_variant hmem
            (Definition.LooksUp.target hk).mem_mentions), rfl⟩
    · intro members name k h
      simp [Keyed.get?_cons] at h
    · intro k h
      simp [Keyed.get?_cons] at h
    · intro ks ho
      obtain rfl : schemas = ks := by simpa [Keyed.get?_cons] using ho
      exact h

theorem pointsInto_ofArray {items : Json} (h : PointsInto names items) :
    PointsInto names (.object [("items", items), ("type", .string "array")]) := by
  refine pointsInto_of ?_ ?_ ?_ ?_
  · rintro v (h | ⟨h, -, -⟩) <;> simp [Keyed.get?_cons] at h
  · intro members name k h
    simp [Keyed.get?_cons] at h
  · intro k hi
    obtain rfl : items = k := by simpa [Keyed.get?_cons] using hi
    exact h
  · intro ks h
    simp [Keyed.get?_cons] at h

mutual

/-- A schema points to what its definition mentions, part by part. -/
theorem pointsInto_ofDefinition (s : OutputSettings) :
    ∀ d : Definition, d.mentions ⊆ names → PointsInto names (ofDefinition s d)
  | { kind, nullable, format, min, max, allowed, default?, docs, .. }, h => by
    have values (name : String) (hn : allowed = some (.named name)) : name ∈ names := by
      refine h ?_
      rw [Definition.mentions_eq, hn]
      exact List.mem_cons_self
    have below : kind.mentions ⊆ names := fun _ hx => h (Definition.mem_mentions_of_kind hx)
    have inside := pointsInto_ofKind s format min max values kind below
    rw [ofDefinition]
    exact inside.finish s nullable default? docs

theorem pointsInto_ofKind (s : OutputSettings) (format : Option StringFormat)
    (lower upper : Option Binary64) {allowed : Option Allowed}
    (values : ∀ name, allowed = some (.named name) → name ∈ names) :
    ∀ kind : Kind, kind.mentions ⊆ names →
      PointsInto names (.object (ofKind s format lower upper allowed kind))
  | .scalar kind, _ => pointsInto_ofScalar kind format values
  | .literal _, _ => by
    refine pointsInto_of_leaf fun key hk => ?_
    have other : key ≠ "const" := by revert key; decide
    simp [ofKind, Keyed.get?_cons, other]
  | .reference target, h => pointsInto_mention (h List.mem_cons_self)
  | .array items, h => by
    rw [ofKind]
    exact (pointsInto_ofArray (pointsInto_ofItems s items h)).bounded (by decide) (by decide)
  | .object shape, h => by
    rw [ofKind]
    exact pointsInto_ofProperties (pointsInto_properties s shape h) _
  | .union discriminator variants, h => by
    rw [ofKind]
    exact pointsInto_ofUnion s.keyCase discriminator (pointsInto_ofVariants s variants h) h

theorem pointsInto_ofItems (s : OutputSettings) :
    ∀ items : Items, items.mentions ⊆ names → PointsInto names (ofItems s items)
  | .of element, h => by
    rw [ofItems]
    exact pointsInto_ofDefinition s element h
  | .shape fields, h => by
    rw [ofItems]
    exact pointsInto_ofProperties (pointsInto_properties s fields h) _

theorem pointsInto_properties (s : OutputSettings) :
    ∀ shape : List Field, Field.listMentions shape ⊆ names →
      ∀ p ∈ properties s shape, PointsInto names p.2
  | [], _, p, hp => nomatch hp
  | { definition, .. } :: rest, h, p, hp => by
    rw [Field.listMentions, List.append_subset] at h
    rw [properties] at hp
    rcases List.mem_cons.mp hp with rfl | hp
    · exact pointsInto_ofDefinition s definition h.1
    · exact pointsInto_properties s rest h.2 p hp

theorem pointsInto_ofVariants (s : OutputSettings) :
    ∀ variants : List Variant, Variant.listMentions variants ⊆ names →
      ∀ k ∈ ofVariants s variants, PointsInto names k
  | [], _, k, hk => nomatch hk
  | { definition, .. } :: rest, h, k, hk => by
    rw [Variant.listMentions, List.append_subset] at h
    rw [ofVariants] at hk
    rcases List.mem_cons.mp hk with rfl | hk
    · exact pointsInto_ofDefinition s definition h.1
    · exact pointsInto_ofVariants s rest h.2 k hk

end

theorem pointsInto_ofListing (s : OutputSettings) (l : Registry.Listing) :
    PointsInto l.dependencies (ofListing s l) := by
  cases l with
  | defined t =>
    refine pointsInto_ofDefinition s t.definition.withTags ?_
    intro x hx
    rw [Definition.mentions_withTags] at hx
    exact mem_sortedNames.mpr hx
  | aliasOf target => exact pointsInto_mention List.mem_cons_self

/-! ### Documents -/

/-- Wherever a component of a document points to something, that is a component, and the pointer
leads to its schema. -/
def Closed (document : Json) : Prop :=
  ∀ name schema part v, document.follow? ["components", "schemas", name] = some schema →
    Within schema part → PointsTo part v →
      ∃ target k, v = .string ("#/components/schemas/" ++ target) ∧
        document.follow? ["components", "schemas", target] = some k ∧
        document.follow? (Pointer.parse ("/components/schemas/" ++ target)) = some k

/-- A schema that only differs in numbers has the same ones in it. -/
theorem Within.of_outline {j j' part : Json} (h : Within j part) (same : j.outline = j'.outline) :
    ∃ part', Within j' part' ∧ part.outline = part'.outline := by
  induction h generalizing j' with
  | here => exact ⟨j', .here, same⟩
  | property hp hk _ ih =>
    obtain ⟨m, hm, members⟩ := Json.get?_of_outline same hp
    obtain ⟨properties', rfl⟩ := Json.eq_object_of_outline members.symm
    obtain ⟨k', hk', schema⟩ := Json.get?_of_outline members hk
    obtain ⟨part', within, back⟩ := ih schema
    exact ⟨part', .property hm hk' within, back⟩
  | items hi _ ih =>
    obtain ⟨k', hk', schema⟩ := Json.get?_of_outline same hi
    obtain ⟨part', within, back⟩ := ih schema
    exact ⟨part', .items hk' within, back⟩
  | alternative ho hk _ ih =>
    obtain ⟨m, hm, list⟩ := Json.get?_of_outline same ho
    obtain ⟨alternatives', rfl, each⟩ := Json.eq_array_of_outline list.symm
    obtain ⟨k', hk', schema⟩ := List.mem_map.mp (each ▸ List.mem_map_of_mem hk)
    obtain ⟨part', within, back⟩ := ih schema.symm
    exact ⟨part', .alternative hm hk' within, back⟩

/-- Pointers are texts, so they are the same in the outline. -/
theorem PointsTo.of_outline {j j' v : Json} (h : PointsTo j v) (same : j.outline = j'.outline) :
    ∃ v', PointsTo j' v' ∧ v.outline = v'.outline := by
  cases h with
  | reference hr =>
    obtain ⟨v', hv, back⟩ := Json.get?_of_outline same hr
    exact ⟨v', .reference hv, back⟩
  | tag hd hm hv =>
    obtain ⟨d', hd', discriminator⟩ := Json.get?_of_outline same hd
    obtain ⟨m', hm', mapping⟩ := Json.get?_of_outline discriminator hm
    obtain ⟨v', hv', back⟩ := Json.get?_of_outline mapping hv
    exact ⟨v', .tag hd' hm' hv', back⟩

def Plain (name : String) : Prop := '~' ∉ name.toList ∧ '/' ∉ name.toList

instance (name : String) : Decidable (Plain name) := by
  unfold Plain
  infer_instance

/-- A plain name needs no escapes. -/
theorem escapeChars_of_plain {name : String} (h : Plain name) :
    Pointer.escapeChars name.toList = name.toList := by
  obtain ⟨tilde, slash⟩ := h
  have each : ∀ c ∈ name.toList, Pointer.escapeChar c = [c] := by
    intro c hc
    have ht : c ≠ '~' := fun he => tilde (he ▸ hc)
    have hs : c ≠ '/' := fun he => slash (he ▸ hc)
    simp [Pointer.escapeChar, ht, hs]
  rw [Pointer.escapeChars, List.flatMap_congr each]
  exact List.flatMap_singleton' name.toList

/-- The pointer to a component is that of its place in the document. -/
theorem parse_pointerTo {name : String} (h : Plain name) :
    Pointer.parse ("/components/schemas/" ++ name) = ["components", "schemas", name] := by
  let path : Path := [.key "components", .key "schemas", .key name]
  have text : "/components/schemas/" ++ name = path.pointer := by
    rw [← String.toList_inj, Pointer.toList_pointer, String.toList_append]
    simp only [path, List.map_cons, List.map_nil, PathSegment.text, Pointer.render_cons,
      Pointer.render_nil, escapeChars_of_plain h, List.append_nil]
    rfl
  rw [text, Pointer.parse_pointer]
  rfl

/-- The components stand at their names. -/
theorem follow?_document (title apiVersion : String) (schemas : Keyed Json) (name : String) :
    (document title apiVersion schemas).follow? ["components", "schemas", name] =
      Keyed.get? schemas name := by
  have components : (document title apiVersion schemas).child? "components" =
      some (.ofMembers [("schemas", .object schemas)]) := by
    simp [document, Json.ofMembers, Json.child?]
  have below : (Json.ofMembers [("schemas", .object schemas)]).child? "schemas" =
      some (.object schemas) := by
    simp [Json.ofMembers, Json.child?]
  rw [Json.follow?_cons, components, Option.bind_some, Json.follow?_cons, below, Option.bind_some,
    Json.follow?_cons, Json.child?]
  cases Keyed.get? schemas name <;> rfl

end OpenApi

end ApiContract
