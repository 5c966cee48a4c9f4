import ApiContract.Output.Target
import ApiContract.Project.Document
import ApiContract.Proofs.WrittenValues

/-!
# Schemas read from their own texts

The schema generated from a definition is in key order if the values given in the definition are:
its defaults, examples and literals. So a document has under each name what its schema, printed, is
read as, and there is none if one of these texts cannot be read.
-/

namespace ApiContract

namespace Json

variable {t u : Keyed Json} {key : String} {j : Json} {value : Option Json}

theorem Ordered.insert (h : (Json.object t).Ordered) (hj : j.Ordered) (key : String) :
    (Json.object (Keyed.insert key j t)).Ordered := by
  refine .object (h.sorted.insert key j) fun other m hm => ?_
  rw [Keyed.get?_insert] at hm
  split at hm
  · cases hm
    exact hj
  · exact h.of_get? hm

theorem Ordered.union (h : (Json.object t).Ordered) (hu : (Json.object u).Ordered) :
    (Json.object (Keyed.union t u)).Ordered := by
  refine .object (h.sorted.union u) fun key m hm => ?_
  rcases Keyed.mem_of_get?_union hm with inside | before
  · exact hu.of_get? (Keyed.get?_of_mem hu.sorted.nodup inside)
  · exact h.of_get? before

theorem keys_modify (key : String) (f : Json → Json) (t : Keyed Json) :
    (Keyed.modify key f t).keys = t.keys := by
  induction t with
  | nil => rfl
  | cons p rest ih =>
    obtain ⟨k, v⟩ := p
    rw [Keyed.modify]
    split
    · rfl
    · exact congrArg (k :: ·) ih

theorem Ordered.modify (h : (Json.object t).Ordered) {f : Json → Json}
    (kept : ∀ j, j.Ordered → (f j).Ordered) (key : String) :
    (Json.object (Keyed.modify key f t)).Ordered := by
  refine .object ?_ fun other m hm => ?_
  · rw [Keyed.Sorted, keys_modify]
    exact h.sorted
  rw [Keyed.get?_modify] at hm
  split at hm
  · obtain ⟨j, hj, rfl⟩ := Option.map_eq_some_iff.mp hm
    exact kept j (h.of_get? hj)
  · exact h.of_get? hm

theorem ordered_singleton (h : j.Ordered) (key : String) : (object [(key, j)]).Ordered :=
  Ordered.insert (t := []) (.object Keyed.sorted_nil nofun) h key

theorem ordered_of_mem_present (h : ∀ j, value = some j → j.Ordered) {p : String × Json}
    (hp : p ∈ present key value) : p.2.Ordered := by
  cases value with
  | none => cases hp
  | some j =>
    obtain rfl := List.mem_singleton.mp hp
    exact h j rfl

theorem ordered_of_mem_flagged {flag : Bool} {p : String × Json} (hp : p ∈ flagged key flag) :
    p.2.Ordered := by
  cases flag with
  | false => cases hp
  | true =>
    obtain rfl := List.mem_singleton.mp hp
    exact .leaf rfl

theorem ordered_strings (values : List String) : (array (values.map string)).Ordered := by
  refine .array fun m hm => ?_
  obtain ⟨s, -, rfl⟩ := List.mem_map.mp hm
  exact .leaf rfl

end Json

/-! ### Values given in definitions -/

def Json.OrderedIfAny (value : Option Json) : Prop := ∀ j, value = some j → j.Ordered

mutual

/-- The defaults, examples and literals of a definition are in key order. -/
def Definition.GivenInOrder : Definition → Prop
  | { kind, default?, docs, .. } =>
    Json.OrderedIfAny default? ∧ Json.OrderedIfAny docs.example? ∧ kind.GivenInOrder

def Kind.GivenInOrder : Kind → Prop
  | .scalar _ | .reference _ => True
  | .literal value => value.Ordered
  | .array items => items.GivenInOrder
  | .object shape => Field.ListGivenInOrder shape
  | .union _ variants => Variant.ListGivenInOrder variants

def Items.GivenInOrder : Items → Prop
  | .of element => element.GivenInOrder
  | .shape fields => Field.ListGivenInOrder fields

def Field.ListGivenInOrder : List Field → Prop
  | [] => True
  | { definition, .. } :: rest => definition.GivenInOrder ∧ Field.ListGivenInOrder rest

def Variant.ListGivenInOrder : List Variant → Prop
  | [] => True
  | { definition, .. } :: rest => definition.GivenInOrder ∧ Variant.ListGivenInOrder rest

end

theorem Definition.givenInOrder_iff (d : Definition) : d.GivenInOrder ↔
    Json.OrderedIfAny d.default? ∧ Json.OrderedIfAny d.docs.example? ∧ d.kind.GivenInOrder := by
  cases d
  exact .rfl

/-- A tag is a literal of one text. -/
theorem Definition.GivenInOrder.asVariant {d : Definition} (h : d.GivenInOrder)
    (discriminator tag : Option String) : (d.asVariant discriminator tag).GivenInOrder := by
  rw [Definition.givenInOrder_iff] at h
  unfold Definition.asVariant
  split
  · rename_i key tag
    rw [Definition.withTag]
    split
    · rename_i shape hk
      split
      · exact (Definition.givenInOrder_iff d).mpr h
      · rw [hk] at h
        have leading : (Definition.literal (.string tag)).GivenInOrder := ⟨nofun, nofun, .leaf rfl⟩
        exact (Definition.givenInOrder_iff _).mpr ⟨h.1, h.2.1, leading, h.2.2⟩
    · exact (Definition.givenInOrder_iff d).mpr h
  · exact (Definition.givenInOrder_iff d).mpr h

mutual

/-- Tags are texts. -/
theorem Definition.givenInOrder_withTags : (d : Definition) → d.GivenInOrder →
    d.withTags.GivenInOrder
  | { kind, .. }, h => ⟨h.1, h.2.1, Kind.givenInOrder_withTags kind h.2.2⟩

theorem Kind.givenInOrder_withTags : (kind : Kind) → kind.GivenInOrder → kind.withTags.GivenInOrder
  | .scalar _, h | .reference _, h | .literal _, h => h
  | .array items, h => Items.givenInOrder_withTags items h
  | .object shape, h => Field.listGivenInOrder_listWithTags shape h
  | .union discriminator variants, h =>
    Variant.listGivenInOrder_listWithTags discriminator variants h

theorem Items.givenInOrder_withTags : (items : Items) → items.GivenInOrder →
    items.withTags.GivenInOrder
  | .of element, h => Definition.givenInOrder_withTags element h
  | .shape fields, h => Field.listGivenInOrder_listWithTags fields h

theorem Field.listGivenInOrder_listWithTags : (shape : List Field) →
    Field.ListGivenInOrder shape → Field.ListGivenInOrder (Field.listWithTags shape)
  | [], h => h
  | { definition, .. } :: rest, h =>
    ⟨Definition.givenInOrder_withTags definition h.1, Field.listGivenInOrder_listWithTags rest h.2⟩

theorem Variant.listGivenInOrder_listWithTags (discriminator : Option String) :
    (variants : List Variant) → Variant.ListGivenInOrder variants →
      Variant.ListGivenInOrder (Variant.listWithTags discriminator variants)
  | [], h => h
  | { tag, definition } :: rest, h =>
    ⟨(Definition.givenInOrder_withTags definition h.1).asVariant discriminator tag,
      Variant.listGivenInOrder_listWithTags discriminator rest h.2⟩

end

/-! ### Values given in documents -/

structure NestedMembers.InOrder (nested : NestedMembers) : Prop where
  items : ∀ items, nested.items.join = some items → items.GivenInOrder
  shape : ∀ shape, nested.shape.join = some shape → Field.ListGivenInOrder shape
  variants : ∀ variants, nested.variants.join = some variants → Variant.ListGivenInOrder variants

section

variable {ms : Keyed Json} {nested : NestedMembers}

/-- What a record may hold is in order if the record is. -/
theorem Json.orderedIfAny_of_optional (h : (Json.object ms).Ordered) {key : String}
    {value : Option Json} (read : optional ms key any? = some value) : OrderedIfAny value := by
  rintro j rfl
  unfold optional at read
  split at read
  · cases read
  · cases read
  · rename_i found
    cases read
    exact h.of_get? found

/-- A literal is taken as it stands in the record. -/
theorem Kind.givenInOrder_of_assemble? (h : (Json.object ms).Ordered) (inner : nested.InOrder)
    {kind : Kind} (read : assemble? ms nested = some kind) : kind.GivenInOrder := by
  obtain ⟨name, -, read⟩ := Option.bind_eq_some_iff.mp read
  split at read
  · cases read
    trivial
  split at read
  · obtain ⟨items, found, rfl⟩ := Option.map_eq_some_iff.mp read
    exact inner.items items found
  split at read
  · obtain ⟨shape, found, rfl⟩ := Option.map_eq_some_iff.mp read
    exact inner.shape shape found
  split at read
  · obtain ⟨discriminator, -, read⟩ := Option.bind_eq_some_iff.mp read
    obtain ⟨variants, found, rfl⟩ := Option.map_eq_some_iff.mp read
    exact inner.variants variants found
  split at read
  · obtain ⟨target, -, rfl⟩ := Option.map_eq_some_iff.mp read
    trivial
  split at read
  · obtain ⟨value, found, rfl⟩ := Option.map_eq_some_iff.mp read
    exact h.of_get? found
  · cases read

/-- Defaults and examples are taken as they stand in the record. -/
theorem Definition.givenInOrder_of_assemble? (h : (Json.object ms).Ordered)
    (inner : nested.InOrder) {d : Definition} (read : assemble? ms nested = some d) :
    d.GivenInOrder := by
  simp only [assemble?, Option.bind_eq_bind, Option.bind_eq_some_iff] at read
  obtain ⟨_, -, _, -, _, -, _, -, _, -, _, -, default?, default, _, -, _, -, kind, ofKind, docs,
    ofDocs, read⟩ := read
  cases read
  refine ⟨Json.orderedIfAny_of_optional h default, ?_,
    Kind.givenInOrder_of_assemble? h inner ofKind⟩
  simp only [Documentation.ofMembers?, Option.bind_eq_bind, Option.bind_eq_some_iff] at ofDocs
  obtain ⟨_, -, example?, given, _, -, ofDocs⟩ := ofDocs
  cases ofDocs
  exact Json.orderedIfAny_of_optional h given

end

mutual

/-- What is read from members in key order keeps their values. -/
theorem NestedMembers.inOrder_read : (ms : List (String × Json)) → (∀ p ∈ ms, p.2.Ordered) →
    (NestedMembers.read ms).InOrder
  | [], _ => ⟨nofun, nofun, nofun⟩
  | (key, j) :: rest, h => by
    obtain ⟨here, later⟩ := List.forall_mem_cons.mp h
    have others := NestedMembers.inOrder_read rest later
    rw [NestedMembers.read]
    split
    · exact ⟨fun items read => Items.givenInOrder_of_ofJson? j here items read,
        others.shape, others.variants⟩
    split
    · exact ⟨others.items, fun shape read => Field.listGivenInOrder_of_ofJson? j here shape read,
        others.variants⟩
    split
    · exact ⟨others.items, others.shape,
        fun variants read => Variant.listGivenInOrder_of_ofJson? j here variants read⟩
    · exact others

theorem Definition.givenInOrder_of_ofJson? : (j : Json) → j.Ordered → (d : Definition) →
    Definition.ofJson? j = some d → d.GivenInOrder
  | .object ms, h, d, read =>
    Definition.givenInOrder_of_assemble? h
      (NestedMembers.inOrder_read ms fun _ => h.of_mem_members) read
  | .null, _, _, read | .bool _, _, _, read | .int _, _, _, read | .float _, _, _, read
  | .string _, _, _, read | .array _, _, _, read => by simp [Definition.ofJson?] at read

theorem Items.givenInOrder_of_ofJson? : (j : Json) → j.Ordered → (items : Items) →
    Items.ofJson? j = some items → items.GivenInOrder
  | .object [(key, j)], h, items, read => by
    have inner : j.Ordered := h.of_mem_members List.mem_cons_self
    rw [Items.ofJson?] at read
    split at read
    · obtain ⟨d, hd, rfl⟩ := Option.map_eq_some_iff.mp read
      exact Definition.givenInOrder_of_ofJson? j inner d hd
    split at read
    · obtain ⟨fields, hf, rfl⟩ := Option.map_eq_some_iff.mp read
      exact Field.listGivenInOrder_of_ofJson? j inner fields hf
    · cases read
  | .object [], _, _, read | .object (_ :: _ :: _), _, _, read
  | .null, _, _, read | .bool _, _, _, read | .int _, _, _, read | .float _, _, _, read
  | .string _, _, _, read | .array _, _, _, read => by simp [Items.ofJson?] at read

theorem Field.listGivenInOrder_of_ofJson? : (j : Json) → j.Ordered → (shape : List Field) →
    Field.listOfJson? j = some shape → Field.ListGivenInOrder shape
  | .array js, h, shape, read =>
    Field.listGivenInOrder_of_allOfJson? js (fun _ => h.of_mem) shape read
  | .null, _, _, read | .bool _, _, _, read | .int _, _, _, read | .float _, _, _, read
  | .string _, _, _, read | .object _, _, _, read => by simp [Field.listOfJson?] at read

theorem Field.listGivenInOrder_of_allOfJson? : (js : List Json) → (∀ j ∈ js, j.Ordered) →
    (shape : List Field) → Field.allOfJson? js = some shape → Field.ListGivenInOrder shape
  | [], _, shape, read => by
    cases read
    trivial
  | j :: js, h, shape, read => by
    obtain ⟨here, later⟩ := List.forall_mem_cons.mp h
    obtain ⟨⟨name, rename, definition⟩, hf, read⟩ := Option.bind_eq_some_iff.mp read
    obtain ⟨fields, hfs, read⟩ := Option.bind_eq_some_iff.mp read
    cases read
    exact ⟨Field.givenInOrder_of_ofJson? j here _ hf,
      Field.listGivenInOrder_of_allOfJson? js later fields hfs⟩

theorem Field.givenInOrder_of_ofJson? : (j : Json) → j.Ordered → (f : Field) →
    Field.ofJson? j = some f → f.definition.GivenInOrder
  | .object ms, h, f, read => by
    obtain ⟨_, -, read⟩ := Option.bind_eq_some_iff.mp read
    obtain ⟨_, -, read⟩ := Option.bind_eq_some_iff.mp read
    obtain ⟨d, hd, read⟩ := Option.bind_eq_some_iff.mp read
    cases read
    exact Definition.givenInOrder_of_assemble? h
      (NestedMembers.inOrder_read ms fun _ => h.of_mem_members) hd
  | .null, _, _, read | .bool _, _, _, read | .int _, _, _, read | .float _, _, _, read
  | .string _, _, _, read | .array _, _, _, read => by simp [Field.ofJson?] at read

theorem Variant.listGivenInOrder_of_ofJson? : (j : Json) → j.Ordered →
    (variants : List Variant) → Variant.listOfJson? j = some variants →
      Variant.ListGivenInOrder variants
  | .array js, h, variants, read =>
    Variant.listGivenInOrder_of_allOfJson? js (fun _ => h.of_mem) variants read
  | .null, _, _, read | .bool _, _, _, read | .int _, _, _, read | .float _, _, _, read
  | .string _, _, _, read | .object _, _, _, read => by simp [Variant.listOfJson?] at read

theorem Variant.listGivenInOrder_of_allOfJson? : (js : List Json) → (∀ j ∈ js, j.Ordered) →
    (variants : List Variant) → Variant.allOfJson? js = some variants →
      Variant.ListGivenInOrder variants
  | [], _, variants, read => by
    cases read
    trivial
  | j :: js, h, variants, read => by
    obtain ⟨here, later⟩ := List.forall_mem_cons.mp h
    obtain ⟨⟨tag, definition⟩, hv, read⟩ := Option.bind_eq_some_iff.mp read
    obtain ⟨others, hvs, read⟩ := Option.bind_eq_some_iff.mp read
    cases read
    exact ⟨Variant.givenInOrder_of_ofJson? j here _ hv,
      Variant.listGivenInOrder_of_allOfJson? js later others hvs⟩

theorem Variant.givenInOrder_of_ofJson? : (j : Json) → j.Ordered → (v : Variant) →
    Variant.ofJson? j = some v → v.definition.GivenInOrder
  | .object ms, h, v, read => by
    obtain ⟨_, -, read⟩ := Option.bind_eq_some_iff.mp read
    obtain ⟨d, hd, read⟩ := Option.bind_eq_some_iff.mp read
    cases read
    exact Definition.givenInOrder_of_assemble? h
      (NestedMembers.inOrder_read ms fun _ => h.of_mem_members) hd
  | .null, _, _, read | .bool _, _, _, read | .int _, _, _, read | .float _, _, _, read
  | .string _, _, _, read | .array _, _, _, read => by simp [Variant.ofJson?] at read

end

/-- Members by place are put in order. -/
theorem Json.ordered_of_recordOf? {keys : List String} {j : Json} (h : j.Ordered) {ms : Keyed Json}
    (read : j.recordOf? keys = some ms) : (Json.object ms).Ordered := by
  cases j with
  | object members =>
    cases read
    exact h
  | array elements =>
    rw [recordOf?] at read
    split at read
    · cases read
      exact ordered_ofMembers fun p hp => h.of_mem (List.of_mem_zip hp).2
    · cases read
  | _ => cases read

/-- Types that are read from the text of a document have their values in key order. -/
theorem ContractDocument.givenInOrder_of_ofText? {text : String} {document : ContractDocument}
    (read : ofText? text = some document) {p : String × Definition} (hp : p ∈ document.types) :
    p.2.GivenInOrder := by
  obtain ⟨j, hj, read⟩ := Option.bind_eq_some_iff.mp read
  obtain ⟨ms, hms, read⟩ := Option.bind_eq_some_iff.mp read
  have record := Json.ordered_of_recordOf? (Json.ordered_of_read? hj) hms
  obtain ⟨_, -, read⟩ := Option.bind_eq_some_iff.mp read
  obtain ⟨_, -, read⟩ := Option.bind_eq_some_iff.mp read
  obtain ⟨types, ht, read⟩ := Option.bind_eq_some_iff.mp read
  obtain ⟨_, -, read⟩ := Option.bind_eq_some_iff.mp read
  cases read
  unfold Json.defaulted at ht
  split at ht
  · cases ht
    cases hp
  · rename_i held found
    obtain ⟨members, hm, ht⟩ := Option.bind_eq_some_iff.mp ht
    obtain ⟨⟨name, k⟩, inside, both⟩ := exists_of_mem_mapM ht hp
    replace both : (Definition.ofJson? k).bind (fun d => some (name, d)) = some p := both
    obtain ⟨d, hd, made⟩ := Option.bind_eq_some_iff.mp both
    cases made
    have object : held = .object members := by
      cases held with
      | object _ =>
        cases hm
        rfl
      | _ => cases hm
    exact Definition.givenInOrder_of_ofJson? k
      ((object ▸ record.of_get? found).of_mem_members inside) d hd

/-! ### Schemas -/

namespace OpenApi

open Json (OrderedIfAny)

variable {schema : Keyed Json}

theorem ordered_mention (type : String) : (Json.object (mention type)).Ordered :=
  Json.ordered_singleton (.leaf rfl) _

theorem ordered_typed (type : String) : (Json.object (typed type)).Ordered :=
  Json.ordered_singleton (.leaf rfl) _

theorem ordered_formatted (format : String) : (Json.object (formatted format)).Ordered :=
  (ordered_typed "string").insert (.leaf rfl) "format"

theorem ordered_bounded (h : (Json.object schema).Ordered) (lowerKey upperKey : String)
    (lower upper : Option Binary64) :
    (Json.object (bounded lowerKey upperKey lower upper schema)).Ordered := by
  have bound (b : Option Binary64) : OrderedIfAny (b.map Binary64.toJson) := by
    intro j hj
    obtain ⟨x, -, rfl⟩ := Option.map_eq_some_iff.mp hj
    unfold Binary64.toJson
    split
    · split <;> exact .leaf rfl
    · exact .leaf rfl
  refine h.union (Json.ordered_ofMembers fun p hp => ?_)
  rcases List.mem_append.mp hp with hp | hp
  · exact Json.ordered_of_mem_present (bound lower) hp
  · exact Json.ordered_of_mem_present (bound upper) hp

theorem ordered_ofString (format : Option StringFormat) (lower upper : Option Binary64)
    (allowed : Option Allowed) : (Json.object (ofString format lower upper allowed)).Ordered := by
  cases allowed with
  | none =>
    refine ordered_bounded ((ordered_typed "string").union ?_) _ _ lower upper
    cases format with
    | none => exact .object Keyed.sorted_nil nofun
    | some format => cases format <;> exact Json.ordered_singleton (.leaf rfl) _
  | some allowed =>
    cases allowed with
    | named type => exact ordered_mention type
    | inline values =>
      exact (ordered_typed "string").insert (Json.ordered_strings (sortedNames values)) "enum"

theorem ordered_ofScalar (kind : ScalarKind) (format : Option StringFormat)
    (lower upper : Option Binary64) (allowed : Option Allowed) :
    (Json.object (ofScalar kind format lower upper allowed)).Ordered := by
  cases kind with
  | string => exact ordered_ofString format lower upper allowed
  | integer | float | decimal => exact ordered_bounded (ordered_typed _) _ _ lower upper
  | boolean => exact ordered_typed _
  | date | datetime | time | uuid => exact ordered_formatted _
  | unknown => exact .object Keyed.sorted_nil nofun

/-- The value `null` is put behind types and values that were there. -/
theorem ordered_allowNull (h : (Json.object schema).Ordered) :
    (Json.object (allowNull schema)).Ordered := by
  unfold allowNull
  split
  · refine (h.modify (fun j hj => ?_) "enum").insert (Json.ordered_strings [_, _]) "type"
    cases j with
    | array values =>
      refine .array fun m hm => ?_
      rcases List.mem_append.mp hm with hm | hm
      · exact hj.of_mem hm
      · rw [List.mem_singleton.mp hm]
        exact .leaf rfl
    | _ => exact hj
  · refine Json.ordered_singleton (.array fun m hm => ?_) _
    rcases List.mem_cons.mp hm with rfl | hm
    · exact h
    · rw [List.mem_singleton.mp hm]
      exact ordered_typed "null"

/-- A default and an example stand in a schema as they are given. -/
theorem ordered_finish (h : (Json.object schema).Ordered) (s : OutputSettings) (nullable : Bool)
    {default? : Option Json} {docs : Documentation} (default : OrderedIfAny default?)
    (example? : OrderedIfAny docs.example?) :
    (Json.object (finish s nullable default? docs schema)).Ordered := by
  have base : (Json.object (if nullable then allowNull schema else schema)).Ordered := by
    split
    · exact ordered_allowNull h
    · exact h
  refine base.union (Json.ordered_ofMembers fun p hp => ?_)
  rcases List.mem_append.mp hp with hp | hp
  · exact Json.ordered_of_mem_present default hp
  split at hp
  · simp only [documentation, List.mem_append] at hp
    rcases hp with (hp | hp) | hp
    · refine Json.ordered_of_mem_present (fun j hj => ?_) hp
      obtain ⟨_, -, rfl⟩ := Option.map_eq_some_iff.mp hj
      exact .leaf rfl
    · refine Json.ordered_of_mem_present (fun j hj => ?_) hp
      obtain ⟨given, hg, rfl⟩ := Option.map_eq_some_iff.mp hj
      refine .array fun m hm => ?_
      obtain rfl := List.mem_singleton.mp hm
      exact example? _ hg
    · exact Json.ordered_of_mem_flagged hp
  · cases hp

theorem ordered_ofProperties {properties : List (String × Json)}
    (h : ∀ p ∈ properties, p.2.Ordered) (required : List String) :
    (Json.object (ofProperties properties required)).Ordered := by
  refine Json.ordered_ofMembers fun p hp => ?_
  simp only [List.cons_append, List.nil_append, List.mem_cons] at hp
  rcases hp with rfl | rfl | rfl | hp
  · exact .leaf rfl
  · exact Json.ordered_ofMembers h
  · exact .leaf rfl
  · split at hp
    · cases hp
    · obtain rfl := List.mem_singleton.mp hp
      exact Json.ordered_strings required

theorem ordered_ofUnion (case : KeyCase) (discriminator : Option String) (variants : List Variant)
    {schemas : List Json} (h : ∀ j ∈ schemas, j.Ordered) :
    (Json.object (ofUnion case discriminator variants schemas)).Ordered := by
  cases discriminator with
  | none => exact Json.ordered_singleton (.array h) _
  | some key =>
    have name := Json.ordered_singleton (.leaf rfl : (Json.string (case.apply key)).Ordered)
      "propertyName"
    refine (Json.ordered_singleton (.array h) "oneOf").insert ?_ "discriminator"
    split
    · exact name
    · refine name.insert (.object (Keyed.sorted_ofList _) fun tag m hm => ?_) "mapping"
      obtain ⟨v, -, hv⟩ := List.mem_filterMap.mp (Keyed.mem_of_get?_ofList hm)
      obtain ⟨_, -, hv⟩ := Option.bind_eq_some_iff.mp hv
      obtain ⟨_, -, hv⟩ := Option.bind_eq_some_iff.mp hv
      cases hv
      exact .leaf rfl

mutual

/-- A schema is in order, part by part. -/
theorem ordered_ofDefinition (s : OutputSettings) : (d : Definition) → d.GivenInOrder →
    (ofDefinition s d).Ordered
  | { kind, nullable, format, min, max, allowed, .. }, h =>
    ordered_finish (ordered_ofKind s format min max allowed kind h.2.2) s nullable h.1 h.2.1

theorem ordered_ofKind (s : OutputSettings) (format : Option StringFormat)
    (lower upper : Option Binary64) (allowed : Option Allowed) : (kind : Kind) →
    kind.GivenInOrder → (Json.object (ofKind s format lower upper allowed kind)).Ordered
  | .scalar kind, _ => ordered_ofScalar kind format lower upper allowed
  | .array items, h => by
    refine ordered_bounded ?_ _ _ lower upper
    exact (ordered_typed "array").insert (ordered_ofItems s items h) "items"
  | .object shape, h => ordered_ofProperties (ordered_properties s shape h) _
  | .union discriminator variants, h =>
    ordered_ofUnion s.keyCase discriminator variants (ordered_ofVariants s variants h)
  | .reference target, _ => ordered_mention target
  | .literal _, h => Json.ordered_singleton h "const"

theorem ordered_ofItems (s : OutputSettings) : (items : Items) → items.GivenInOrder →
    (ofItems s items).Ordered
  | .of element, h => ordered_ofDefinition s element h
  | .shape fields, h => ordered_ofProperties (ordered_properties s fields h) _

theorem ordered_properties (s : OutputSettings) : (shape : List Field) →
    Field.ListGivenInOrder shape → ∀ p ∈ properties s shape, p.2.Ordered
  | [], _ => nofun
  | { definition, .. } :: rest, h =>
    List.forall_mem_cons.mpr ⟨ordered_ofDefinition s definition h.1, ordered_properties s rest h.2⟩

theorem ordered_ofVariants (s : OutputSettings) : (variants : List Variant) →
    Variant.ListGivenInOrder variants → ∀ j ∈ ofVariants s variants, j.Ordered
  | [], _ => nofun
  | { definition, .. } :: rest, h =>
    List.forall_mem_cons.mpr ⟨ordered_ofDefinition s definition h.1, ordered_ofVariants s rest h.2⟩

end

theorem ordered_ofListing (s : OutputSettings) {l : Registry.Listing}
    (given : ∀ t, l = .defined t → t.definition.GivenInOrder) : (ofListing s l).Ordered := by
  cases l with
  | defined t =>
    exact ordered_ofDefinition s _ (Definition.givenInOrder_withTags _ (given t rfl))
  | aliasOf target => exact ordered_mention target

end OpenApi

/-! ### Documents -/

/-- What the members of an object are read as, each from its own text. -/
theorem Json.rereadMembers?_eq_mapM (n : Nat) {ms : Keyed Json} (h : ∀ p ∈ ms, p.2.Ordered) :
    rereadMembers? n ms = ms.mapM fun p => (read? n p.2.text).map (p.1, ·) := by
  induction ms with
  | nil => rfl
  | cons p ms ih =>
    obtain ⟨key, j⟩ := p
    obtain ⟨first, rest⟩ := List.forall_mem_cons.mp h
    rw [List.mapM_cons, ← ih rest, read?_text first, rereadMembers?]
    cases reread? n j <;> rfl

namespace Target

variable {c : OutputContext} {types : List Registry.OrderedType}

theorem mem_of_mem_once {emitted : List String} {p : List String × Registry.OrderedType}
    (h : p ∈ once emitted types) : p.2 ∈ types := by
  induction types generalizing emitted with
  | nil => cases h
  | cons t types ih =>
    rw [once] at h
    split at h
    · exact List.mem_cons_of_mem t (ih h)
    · rcases List.mem_cons.mp h with rfl | h
      · exact List.mem_cons_self
      · exact List.mem_cons_of_mem t (ih h)

/-- Every component is the schema of a listed type. -/
theorem exists_of_mem_components {p : String × Json} (h : p ∈ components c types) :
    ∃ t ∈ types, p = (t.name, OpenApi.ofListing c.settings t.listing) := by
  have found := Keyed.get?_of_mem (Keyed.sorted_ofList _).nodup h
  obtain ⟨⟨_, t⟩, ht, he⟩ := List.mem_map.mp (Keyed.mem_of_get?_ofList found)
  obtain ⟨q, hq, placed⟩ := List.mem_map.mp ht
  cases placed
  exact ⟨q.2, mem_of_mem_once hq, he.symm⟩

/-- A document comes about exactly if the text of each schema can be read, and has under each name
what is read. -/
theorem document?_eq_mapM
    (given : ∀ t ∈ types, ∀ u, t.listing = .defined u → u.definition.GivenInOrder)
    (apiVersion : String) : document? c apiVersion types =
      ((components c types).mapM fun p =>
        (Json.read? Json.maxNesting p.2.text).map (p.1, ·)).map
          (OpenApi.document (c.view.scope.apiName?.getD "global") apiVersion) := by
  rw [document?, Json.rereadMembers?_eq_mapM]
  intro p hp
  obtain ⟨t, ht, rfl⟩ := exists_of_mem_components hp
  exact OpenApi.ordered_ofListing c.settings (given t ht)

end Target

end ApiContract
