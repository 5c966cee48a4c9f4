import ApiContract.Payload.Exchange
import ApiContract.Proofs.WrittenMembers
import ApiContract.Resource.Basic

/-!
# Round trips of contract documents

What a document says is written and read again without loss: definitions at any depth, what holds
them, the declarations of a resource and the settings of a namespace. Only a default or an example
that is `null` would be lost, and nothing that was read has one.
-/

namespace ApiContract

/-! ### What is read -/

/-- Definitions among the members of a definition that hold no `null` members where they are
read. -/
structure NestedMembers.NoNullMembers (n : NestedMembers) : Prop where
  items : ∀ items, n.items.join = some items → items.NoNullMembers
  shape : ∀ fields, n.shape.join = some fields → Field.ListNoNullMembers fields
  variants : ∀ variants, n.variants.join = some variants → Variant.ListNoNullMembers variants

/-- What is read as it is, is no `null`. -/
theorem Json.ne_null_of_optional_any {ms : Keyed Json} {key : String} {x : Option Json}
    (h : optional ms key any? = some x) : x ≠ some .null := by
  rw [optional] at h
  rintro rfl
  split at h <;> simp_all [any?]

/-- A kind is made of what was read of the members below. -/
theorem Kind.noNullMembers_of_assemble? {ms : Keyed Json} {nested : NestedMembers} {k : Kind}
    (h : assemble? ms nested = some k) (spoken : nested.NoNullMembers) : k.NoNullMembers := by
  obtain ⟨name, -, h⟩ := Option.bind_eq_some_iff.mp h
  split at h
  · cases h
    trivial
  split at h
  · obtain ⟨items, read, rfl⟩ := Option.map_eq_some_iff.mp h
    exact spoken.items items read
  split at h
  · obtain ⟨fields, read, rfl⟩ := Option.map_eq_some_iff.mp h
    exact spoken.shape fields read
  split at h
  · obtain ⟨discriminator, -, h⟩ := Option.bind_eq_some_iff.mp h
    obtain ⟨variants, read, rfl⟩ := Option.map_eq_some_iff.mp h
    exact spoken.variants variants read
  split at h
  · obtain ⟨target, -, rfl⟩ := Option.map_eq_some_iff.mp h
    trivial
  split at h
  · obtain ⟨value, -, rfl⟩ := Option.map_eq_some_iff.mp h
    trivial
  · cases h

theorem Definition.noNullMembers_of_assemble? {ms : Keyed Json} {nested : NestedMembers}
    {d : Definition} (h : assemble? ms nested = some d) (spoken : nested.NoNullMembers) :
    d.NoNullMembers := by
  simp only [assemble?, Documentation.ofMembers?, Option.bind_eq_bind, Option.bind_eq_some_iff,
    Option.pure_def, Option.some.injEq] at h
  obtain ⟨_, -, _, -, _, -, _, -, _, -, _, -, _, default, _, -, _, -, kind, ofKind, _,
    ⟨_, -, _, example?, _, -, rfl⟩, rfl⟩ := h
  exact ⟨Json.ne_null_of_optional_any default, Json.ne_null_of_optional_any example?,
    Kind.noNullMembers_of_assemble? ofKind spoken⟩

mutual

/-- Members that are absent or cannot be read hold nothing. -/
theorem NestedMembers.noNullMembers_read : (ms : List (String × Json)) →
    (NestedMembers.read ms).NoNullMembers
  | [] => ⟨nofun, nofun, nofun⟩
  | (key, j) :: rest => by
    have others := NestedMembers.noNullMembers_read rest
    rw [NestedMembers.read]
    split
    · exact { others with items := Items.noNullMembers_of_ofJson? j }
    split
    · exact { others with shape := Field.noNullMembers_of_listOfJson? j }
    split
    · exact { others with variants := Variant.noNullMembers_of_listOfJson? j }
    · exact others

theorem Definition.noNullMembers_of_ofJson? : (j : Json) →
    ∀ d, Definition.ofJson? j = some d → d.NoNullMembers
  | .object ms, _, h =>
    Definition.noNullMembers_of_assemble? h (NestedMembers.noNullMembers_read ms)
  | .null, _, h | .bool _, _, h | .int _, _, h | .float _, _, h | .string _, _, h
  | .array _, _, h => by cases h

/-- Elements in place are read like those of a definition. -/
theorem Items.noNullMembers_of_ofJson? : (j : Json) →
    ∀ items, Items.ofJson? j = some items → items.NoNullMembers
  | .object [(key, j)], items, h => by
    rw [Items.ofJson?] at h
    split at h
    · obtain ⟨element, read, rfl⟩ := Option.map_eq_some_iff.mp h
      exact Definition.noNullMembers_of_ofJson? j element read
    split at h
    · obtain ⟨fields, read, rfl⟩ := Option.map_eq_some_iff.mp h
      exact Field.noNullMembers_of_listOfJson? j fields read
    · cases h
  | .object [], _, h | .object (_ :: _ :: _), _, h | .null, _, h | .bool _, _, h | .int _, _, h
  | .float _, _, h | .string _, _, h | .array _, _, h => by cases h

theorem Field.noNullMembers_of_listOfJson? : (j : Json) →
    ∀ fields, Field.listOfJson? j = some fields → Field.ListNoNullMembers fields
  | .array js, fields, h => Field.noNullMembers_of_allOfJson? js fields h
  | .null, _, h | .bool _, _, h | .int _, _, h | .float _, _, h | .string _, _, h
  | .object _, _, h => by cases h

theorem Field.noNullMembers_of_allOfJson? : (js : List Json) →
    ∀ fields, Field.allOfJson? js = some fields → Field.ListNoNullMembers fields
  | [], _, h => by
    cases h
    trivial
  | j :: rest, fields, h => by
    obtain ⟨⟨_, _, _⟩, first, h⟩ := Option.bind_eq_some_iff.mp h
    obtain ⟨others, read, h⟩ := Option.bind_eq_some_iff.mp h
    cases h
    exact ⟨Field.noNullMembers_of_ofJson? j _ first,
      Field.noNullMembers_of_allOfJson? rest others read⟩

theorem Field.noNullMembers_of_ofJson? : (j : Json) →
    ∀ field, Field.ofJson? j = some field → field.definition.NoNullMembers
  | .object ms, field, h => by
    obtain ⟨name, -, h⟩ := Option.bind_eq_some_iff.mp h
    obtain ⟨rename, -, h⟩ := Option.bind_eq_some_iff.mp h
    obtain ⟨definition, read, h⟩ := Option.bind_eq_some_iff.mp h
    cases h
    exact Definition.noNullMembers_of_assemble? read (NestedMembers.noNullMembers_read ms)
  | .null, _, h | .bool _, _, h | .int _, _, h | .float _, _, h | .string _, _, h
  | .array _, _, h => by cases h

theorem Variant.noNullMembers_of_listOfJson? : (j : Json) →
    ∀ variants, Variant.listOfJson? j = some variants → Variant.ListNoNullMembers variants
  | .array js, variants, h => Variant.noNullMembers_of_allOfJson? js variants h
  | .null, _, h | .bool _, _, h | .int _, _, h | .float _, _, h | .string _, _, h
  | .object _, _, h => by cases h

theorem Variant.noNullMembers_of_allOfJson? : (js : List Json) →
    ∀ variants, Variant.allOfJson? js = some variants → Variant.ListNoNullMembers variants
  | [], _, h => by
    cases h
    trivial
  | j :: rest, variants, h => by
    obtain ⟨⟨_, _⟩, first, h⟩ := Option.bind_eq_some_iff.mp h
    obtain ⟨others, read, h⟩ := Option.bind_eq_some_iff.mp h
    cases h
    exact ⟨Variant.noNullMembers_of_ofJson? j _ first,
      Variant.noNullMembers_of_allOfJson? rest others read⟩

theorem Variant.noNullMembers_of_ofJson? : (j : Json) →
    ∀ variant, Variant.ofJson? j = some variant → variant.definition.NoNullMembers
  | .object ms, variant, h => by
    obtain ⟨tag, -, h⟩ := Option.bind_eq_some_iff.mp h
    obtain ⟨definition, read, h⟩ := Option.bind_eq_some_iff.mp h
    cases h
    exact Definition.noNullMembers_of_assemble? read (NestedMembers.noNullMembers_read ms)
  | .null, _, h | .bool _, _, h | .int _, _, h | .float _, _, h | .string _, _, h
  | .array _, _, h => by cases h

end

/-! ### Round trips -/

/-- A way to write values and one to read them that fit together: sound values are read again as
they were written, and so is everything that can be read at all. -/
structure RoundTrips {α : Type} (write : α → Json) (read : Json → Option α) (sound : α → Prop) :
    Prop where
  built : ∀ x, sound x → read (write x) = some x
  decoded : ∀ j x, read j = some x → read (write x) = some x

theorem RoundTrips.of_sound {α : Type} {write : α → Json} {read : Json → Option α}
    {sound : α → Prop} (built : ∀ x, sound x → read (write x) = some x)
    (ofRead : ∀ j x, read j = some x → sound x) : RoundTrips write read sound where
  built := built
  decoded j x h := built x (ofRead j x h)

namespace Json

variable {α : Type} {ms : Keyed Json} {key : String} {read : Json → Option α}

theorem defaulted_eq {default a : α} {j : Json} (h : ms.get? key = some j)
    (back : read j = some a) : defaulted ms key default read = some a := by
  rw [defaulted, h]
  exact back

/-- What is in a list that may be missing was read from an element of it. -/
theorem exists_of_mem_defaulted_listOf? {xs : List α}
    (h : defaulted ms key [] (listOf? read) = some xs) {x : α} (hx : x ∈ xs) :
    ∃ j, read j = some x := by
  rw [defaulted] at h
  split at h
  · cases h
    cases hx
  · exact exists_of_mem_listOf? h hx

/-- Lists are read element by element. -/
theorem listOf?_map {write : α → Json} {xs : List α} (h : ∀ x ∈ xs, read (write x) = some x) :
    listOf? read (.array (xs.map write)) = some xs := by
  have each : (xs.map write).mapM read = some xs := by
    induction xs with
    | nil => rfl
    | cons x rest ih =>
      rw [List.map_cons, List.mapM_cons, h x List.mem_cons_self,
        ih fun y hy => h y (List.mem_cons_of_mem x hy)]
      rfl
  exact each

end Json

/-! ### Definitions, and what holds them -/

/-- A definition is read from an object that has other members too. -/
theorem Definition.ofJson?_beside (d : Definition) (spoken : d.NoNullMembers)
    (front back : List (String × Json))
    (before : ∀ key ∈ memberKeys, Keyed.get? (Keyed.ofList front) key = none)
    (after : ∀ key ∈ memberKeys, Keyed.get? (Keyed.ofList back) key = none) :
    ofJson? (.ofMembers (front ++ d.members ++ back)) = some d :=
  d.assemble?_of_writtenIn _ spoken (d.writtenIn_beside front back before after)

theorem Definition.ofJson?_toJson (d : Definition) (spoken : d.NoNullMembers) :
    ofJson? d.toJson = some d :=
  d.assemble?_of_writtenIn _ spoken d.writtenIn_members

theorem Field.ofJson?_toJson (f : Field) (spoken : f.definition.NoNullMembers) :
    ofJson? f.toJson = some f :=
  f.ofJson?_of_written fun ms => f.definition.assemble?_of_writtenIn ms spoken

theorem Variant.ofJson?_toJson (v : Variant) (spoken : v.definition.NoNullMembers) :
    ofJson? v.toJson = some v := by
  obtain ⟨tag, d⟩ := v
  exact ofJson?_of_written tag fun ms => d.assemble?_of_writtenIn ms spoken

namespace NamedType

theorem ofJson?_toJson (t : NamedType) (spoken : t.definition.NoNullMembers) :
    ofJson? t.toJson = some t := by
  have read := t.definition.ofJson?_beside spoken [("name", .string t.name)] [] (fun key hk => by
    have other : key ≠ "name" := by revert key; decide
    simp [other]) fun _ _ => rfl
  have named := t.definition.get?_beside [("name", .string t.name)] []
    (show "name" ∉ Definition.memberKeys by decide)
  simp only [List.append_nil, List.singleton_append] at read named
  have called : Json.required (Keyed.ofList (("name", .string t.name) :: t.definition.members))
      "name" Json.string? = some t.name := Json.required_string (named.trans (by simp))
  rw [toJson, ofJson?, read, Json.ofMembers, Json.object?, Option.bind_eq_bind, Option.bind_some,
    called]
  rfl

theorem noNullMembers_of_ofJson? (j : Json) (t : NamedType) (h : ofJson? j = some t) :
    t.definition.NoNullMembers := by
  obtain ⟨ms, -, h⟩ := Option.bind_eq_some_iff.mp h
  obtain ⟨name, -, h⟩ := Option.bind_eq_some_iff.mp h
  obtain ⟨d, read, h⟩ := Option.bind_eq_some_iff.mp h
  cases h
  exact Definition.noNullMembers_of_ofJson? j d read

end NamedType

/-! ### Declarations of resources -/

@[simp] theorem Writable.ofJson?_toJson (w : Writable) : ofJson? w.toJson = some w := by
  cases w with
  | flag always => rfl
  | on create update => cases create <;> cases update <;> rfl

namespace Attribute

theorem ofJson?_toJson (a : Attribute) (spoken : a.definition.NoNullMembers) :
    ofJson? a.toJson = some a := by
  obtain ⟨name, d, writable, filterable, sortable⟩ := a
  let front := [("name", Json.string name)]
  let back := ("writable", writable.toJson) :: (Json.flagged "filterable" filterable ++
    Json.flagged "sortable" sortable)
  have parts : toJson ⟨name, d, writable, filterable, sortable⟩ =
      .ofMembers (front ++ d.members ++ back) := by
    simp [toJson, front, back]
  have read := d.ofJson?_beside spoken front back (fun key hk => by
    have other : key ≠ "name" := by revert key; decide
    simp [front, other]) fun key hk => by
      have other : key ≠ "writable" ∧ key ≠ "filterable" ∧ key ≠ "sortable" := by
        revert key; decide
      simp [back, other]
  have own (key : String) (h : key ∉ Definition.memberKeys) := d.get?_beside front back h
  have named : Json.required (Keyed.ofList (front ++ d.members ++ back)) "name" Json.string? =
      some name := by
    apply Json.required_string
    rw [own _ (by decide)]
    simp [front, back]
  have written : Json.defaulted (Keyed.ofList (front ++ d.members ++ back)) "writable"
      (.flag false) Writable.ofJson? = some writable := by
    refine Json.defaulted_eq ?_ writable.ofJson?_toJson
    rw [own _ (by decide)]
    simp [front, back]
  have filtered : Json.defaulted (Keyed.ofList (front ++ d.members ++ back)) "filterable" false
      Json.bool? = some filterable := by
    refine Json.defaulted_flag ?_
    rw [own _ (by decide)]
    simp [front, back]
  have sorted : Json.defaulted (Keyed.ofList (front ++ d.members ++ back)) "sortable" false
      Json.bool? = some sortable := by
    refine Json.defaulted_flag ?_
    rw [own _ (by decide)]
    simp [front, back]
  rw [parts, ofJson?, read, Json.ofMembers, Json.object?, Option.bind_eq_bind, Option.bind_some,
    named, written, filtered, sorted]
  rfl

theorem noNullMembers_of_ofJson? (j : Json) (a : Attribute) (h : ofJson? j = some a) :
    a.definition.NoNullMembers := by
  obtain ⟨ms, -, h⟩ := Option.bind_eq_some_iff.mp h
  obtain ⟨name, -, h⟩ := Option.bind_eq_some_iff.mp h
  obtain ⟨d, read, h⟩ := Option.bind_eq_some_iff.mp h
  obtain ⟨writable, -, h⟩ := Option.bind_eq_some_iff.mp h
  obtain ⟨filterable, -, h⟩ := Option.bind_eq_some_iff.mp h
  obtain ⟨sortable, -, h⟩ := Option.bind_eq_some_iff.mp h
  cases h
  exact Definition.noNullMembers_of_ofJson? j d read

end Attribute

@[simp] theorem Cardinality.ofName?_name (c : Cardinality) : ofName? c.name = some c := by
  cases c <;> decide

/-- The resources of a polymorphic target are a table of names. -/
theorem AssociationTarget.names?_mapValues (resources : Keyed String) :
    names? (.object (resources.mapValues .string)) = some resources := by
  have each : (resources.mapValues Json.string).mapM
      (fun p => (p.2.string?).map fun name => (p.1, name)) = some resources := by
    induction resources with
    | nil => rfl
    | cons p rest ih =>
      rw [Keyed.mapValues, List.map_cons, List.mapM_cons, ← Keyed.mapValues, ih]
      rfl
  exact each

/-- Each form of a target is told by the one key it has. -/
@[simp] theorem AssociationTarget.ofJson?_toJson (t : AssociationTarget) :
    ofJson? t.toJson = some t := by
  cases t with
  | direct resource =>
    let ms : Keyed Json := Keyed.ofList (("kind", .string "direct") ::
      Json.present "resource" (resource.map Json.string))
    have kind : Json.required ms "kind" kindName? = some "direct" :=
      Json.required_eq (j := .string "direct") (by simp [ms]) rfl
    have named : Json.optional ms "resource" Json.string? = some resource :=
      Json.optional_string (by simp [ms])
    change (do ofKind? (← Json.required ms "kind" kindName?) (.object ms)) = _
    rw [kind]
    simp [ofKind?, Json.recordOf?, named]
  | polymorphic resources =>
    let ms : Keyed Json := Keyed.ofList [("kind", .string "polymorphic"),
      ("resources", .object (resources.mapValues Json.string))]
    have kind : Json.required ms "kind" kindName? = some "polymorphic" :=
      Json.required_eq (j := .string "polymorphic") (by simp [ms]) rfl
    have held : ms.get? "resources" = some (.object (resources.mapValues .string)) := by simp [ms]
    change (do ofKind? (← Json.required ms "kind" kindName?) (.object ms)) = _
    rw [kind]
    simp [ofKind?, Json.recordOf?, Json.required_eq held (names?_mapValues resources)]
  | variants resource tags =>
    let ms : Keyed Json := Keyed.ofList ([("kind", .string "sti"),
      ("resource", .string resource)] ++ if tags.isEmpty then [] else [("tags", .strings tags)])
    have kind : Json.required ms "kind" kindName? = some "sti" :=
      Json.required_eq (j := .string "sti") (by cases tags <;> simp [ms]) rfl
    have named : Json.required ms "resource" Json.string? = some resource :=
      Json.required_string (by cases tags <;> simp [ms])
    have tagged : Json.defaulted ms "tags" [] Json.strings? = some tags := by
      cases tags with
      | nil => simp [Json.defaulted, ms]
      | cons tag rest =>
        exact Json.defaulted_eq (j := .strings (tag :: rest)) (by simp [ms])
          (Json.strings?_strings _)
    change (do ofKind? (← Json.required ms "kind" kindName?) (.object ms)) = _
    rw [kind]
    simp [ofKind?, Json.recordOf?, named, tagged]

namespace Association

theorem ofJson?_toJson (a : Association) : ofJson? a.toJson = some a := by
  let ms : Keyed Json := Keyed.ofList ([("name", .string a.name),
    ("cardinality", .string a.cardinality.name), ("target", a.target.toJson),
    ("writable", a.writable.toJson),
    ("discriminator", .string a.discriminator)] ++
    Json.flagged "nested" a.nested ++ Json.flagged "nullable" a.nullable ++
    Json.flagged "optional" a.optional ++
    Json.present "description" (a.description.map .string))
  have name : Json.required ms "name" Json.string? = some a.name :=
    Json.required_string (by simp [ms])
  have cardinality : Json.required ms "cardinality" (fun j => j.choice? >>= Cardinality.ofName?) =
      some a.cardinality :=
    Json.required_eq (j := .string a.cardinality.name) (by simp [ms]) (by simp [Json.choice?])
  have target : Json.defaulted ms "target" (.direct none) AssociationTarget.ofJson? =
      some a.target :=
    Json.defaulted_eq (j := a.target.toJson) (by simp [ms]) (by simp)
  have writable : Json.defaulted ms "writable" (.flag false) Writable.ofJson? = some a.writable :=
    Json.defaulted_eq (j := a.writable.toJson) (by simp [ms]) (by simp)
  have nested : Json.defaulted ms "nested" false Json.bool? = some a.nested :=
    Json.defaulted_flag (by simp [ms])
  have nullable : Json.defaulted ms "nullable" false Json.bool? = some a.nullable :=
    Json.defaulted_flag (by simp [ms])
  have optional : Json.defaulted ms "optional" false Json.bool? = some a.optional :=
    Json.defaulted_flag (by simp [ms])
  have discriminator : Json.defaulted ms "discriminator" defaultDiscriminator Json.string? =
      some a.discriminator :=
    Json.defaulted_eq (j := .string a.discriminator) (by simp [ms]) rfl
  have description : Json.optional ms "description" Json.string? = some a.description :=
    Json.optional_string (by simp [ms])
  have record : a.toJson.recordOf? ["name", "cardinality", "target", "writable", "nested",
      "nullable", "optional", "discriminator", "description"] = some ms := rfl
  rw [ofJson?, record, Option.bind_eq_bind, Option.bind_some, name, cardinality, target, writable,
    nested, nullable, optional, discriminator, description]
  rfl

end Association

/-- A root key is read from both its forms, or from the singular alone. -/
@[simp] theorem RootKey.ofJson?_toJson (k : RootKey) : ofJson? k.toJson = some k := by
  let ms : Keyed Json :=
    Keyed.ofList [("singular", .string k.singular), ("plural", .string k.plural)]
  have singular : Json.required ms "singular" Json.string? = some k.singular :=
    Json.required_string (by simp [ms])
  have plural : Json.required ms "plural" Json.string? = some k.plural :=
    Json.required_string (by simp [ms])
  have record : k.toJson.recordOf? ["singular", "plural"] = some ms := rfl
  rw [ofJson?, record, Option.bind_eq_bind, Option.bind_some, singular, plural]
  rfl

/-- No default and no example of an attribute of the variant is `null`. -/
def ResourceVariant.NoNullMembers (v : ResourceVariant) : Prop :=
  ∀ a ∈ v.attributes, a.definition.NoNullMembers

/-- No default and no example of an attribute of the resource or a variant of it is `null`. -/
def Resource.NoNullMembers (r : Resource) : Prop :=
  (∀ a ∈ r.attributes, a.definition.NoNullMembers) ∧ ∀ v ∈ r.variants, v.NoNullMembers

namespace ResourceVariant

theorem ofJson?_toJson (v : ResourceVariant) (spoken : v.NoNullMembers) :
    ofJson? v.toJson = some v := by
  have read := Json.listOf?_map fun a ha => Attribute.ofJson?_toJson a (spoken a ha)
  let ms : Keyed Json := Keyed.ofList [("tag", .string v.tag), ("name", .string v.name),
    ("attributes", .array (v.attributes.map Attribute.toJson))]
  have tag : Json.required ms "tag" Json.string? = some v.tag := Json.required_string (by simp [ms])
  have name : Json.required ms "name" Json.string? = some v.name :=
    Json.required_string (by simp [ms])
  have attributes : Json.defaulted ms "attributes" [] (Json.listOf? Attribute.ofJson?) =
      some v.attributes :=
    Json.defaulted_eq (j := .array (v.attributes.map Attribute.toJson)) (by simp [ms]) read
  have record : v.toJson.recordOf? ["tag", "name", "attributes"] = some ms := rfl
  rw [ofJson?, record, Option.bind_eq_bind, Option.bind_some, tag, name, attributes]
  rfl

theorem noNullMembers_of_ofJson? (j : Json) (v : ResourceVariant) (h : ofJson? j = some v) :
    v.NoNullMembers := by
  obtain ⟨ms, -, h⟩ := Option.bind_eq_some_iff.mp h
  obtain ⟨tag, -, h⟩ := Option.bind_eq_some_iff.mp h
  obtain ⟨name, -, h⟩ := Option.bind_eq_some_iff.mp h
  obtain ⟨attributes, read, h⟩ := Option.bind_eq_some_iff.mp h
  cases h
  intro a ha
  obtain ⟨j, hj⟩ := Json.exists_of_mem_defaulted_listOf? read ha
  exact Attribute.noNullMembers_of_ofJson? j a hj

end ResourceVariant

namespace Resource

theorem ofJson?_toJson (r : Resource) (spoken : r.NoNullMembers) :
    ofJson? r.toJson = some r := by
  let ms : Keyed Json := Keyed.ofList ([("name", .string r.name),
    ("attributes", .array (r.attributes.map Attribute.toJson)),
    ("associations", .array (r.associations.map Association.toJson)),
    ("discriminator", .string r.discriminator)] ++
    Json.present "root_key" (r.rootKey?.map RootKey.toJson) ++
    Json.flagged "accepts_nested_writes" r.acceptsNestedWrites ++
    (if r.variants.isEmpty then []
      else [("variants", .array (r.variants.map ResourceVariant.toJson))]) ++
    Json.present "description" (r.description.map .string))
  have varied : ms.get? "variants" = if r.variants.isEmpty then none
      else some (.array (r.variants.map ResourceVariant.toJson)) := by
    simp [ms]
  have name : Json.required ms "name" Json.string? = some r.name :=
    Json.required_string (by simp [ms])
  have attributes : Json.defaulted ms "attributes" [] (Json.listOf? Attribute.ofJson?) =
      some r.attributes :=
    Json.defaulted_eq (j := .array (r.attributes.map Attribute.toJson)) (by simp [ms])
      (Json.listOf?_map fun a ha => a.ofJson?_toJson (spoken.1 a ha))
  have associations : Json.defaulted ms "associations" [] (Json.listOf? Association.ofJson?) =
      some r.associations :=
    Json.defaulted_eq (j := .array (r.associations.map Association.toJson)) (by simp [ms])
      (Json.listOf?_map fun a _ => a.ofJson?_toJson)
  have keys : ms.get? "root_key" = r.rootKey?.map RootKey.toJson := by simp [ms]
  have rootKey : Json.optional ms "root_key" RootKey.ofJson? = some r.rootKey? :=
    Json.optional_map keys (fun k _ => k.ofJson?_toJson)
      fun _ _ => by simp [RootKey.toJson, Json.ofMembers]
  have accepts : Json.defaulted ms "accepts_nested_writes" false Json.bool? =
      some r.acceptsNestedWrites :=
    Json.defaulted_flag (by simp [ms])
  have discriminator : Json.defaulted ms "discriminator" defaultDiscriminator Json.string? =
      some r.discriminator :=
    Json.defaulted_eq (j := .string r.discriminator) (by simp [ms]) rfl
  have «variants» : Json.defaulted ms "variants" [] (Json.listOf? ResourceVariant.ofJson?) =
      some r.variants := by
    cases none : r.variants.isEmpty with
    | true =>
      rw [none, if_pos rfl] at varied
      rw [Json.defaulted, varied, List.isEmpty_iff.mp none]
    | false =>
      rw [none, if_neg (by decide)] at varied
      exact Json.defaulted_eq varied
        (Json.listOf?_map fun v hv => v.ofJson?_toJson (spoken.2 v hv))
  have description : Json.optional ms "description" Json.string? = some r.description :=
    Json.optional_string (by simp [ms])
  have record : r.toJson.recordOf? ["name", "attributes", "associations", "root_key",
      "accepts_nested_writes", "discriminator", "variants", "description"] = some ms := rfl
  rw [ofJson?, record, Option.bind_eq_bind, Option.bind_some, name, attributes, associations,
    rootKey, accepts, discriminator, «variants», description]
  rfl

theorem noNullMembers_of_ofJson? (j : Json) (r : Resource) (h : ofJson? j = some r) :
    r.NoNullMembers := by
  obtain ⟨ms, -, h⟩ := Option.bind_eq_some_iff.mp h
  obtain ⟨name, -, h⟩ := Option.bind_eq_some_iff.mp h
  obtain ⟨attributes, read, h⟩ := Option.bind_eq_some_iff.mp h
  obtain ⟨associations, -, h⟩ := Option.bind_eq_some_iff.mp h
  obtain ⟨rootKey, -, h⟩ := Option.bind_eq_some_iff.mp h
  obtain ⟨accepts, -, h⟩ := Option.bind_eq_some_iff.mp h
  obtain ⟨discriminator, -, h⟩ := Option.bind_eq_some_iff.mp h
  obtain ⟨forms, readForms, h⟩ := Option.bind_eq_some_iff.mp h
  obtain ⟨description, -, h⟩ := Option.bind_eq_some_iff.mp h
  cases h
  refine ⟨fun a ha => ?_, fun v hv => ?_⟩
  · obtain ⟨j, hj⟩ := Json.exists_of_mem_defaulted_listOf? read ha
    exact a.noNullMembers_of_ofJson? j hj
  · obtain ⟨j, hj⟩ := Json.exists_of_mem_defaulted_listOf? readForms hv
    exact v.noNullMembers_of_ofJson? j hj

end Resource

namespace NamespaceConfig

theorem ofJson?_toJson (c : NamespaceConfig) : ofJson? c.toJson = some c := by
  let ms : Keyed Json := Keyed.ofList ([("name", .string c.name), ("key_case", c.keyCase.toJson),
    ("locale", .string c.locale)] ++
    Json.present "input_key_case" (c.inputKeyCase.map KeyCase.toJson) ++
    Json.present "output_key_case" (c.outputKeyCase.map KeyCase.toJson))
  have back (case : KeyCase) : KeyCase.ofJson? case.toJson = some case := KeyCase.ofName?_name case
  have name : Json.defaulted ms "name" "" Json.string? = some c.name :=
    Json.defaulted_eq (j := .string c.name) (by simp [ms]) rfl
  have keyCase : Json.defaulted ms "key_case" .preserve KeyCase.ofJson? = some c.keyCase :=
    Json.defaulted_eq (j := c.keyCase.toJson) (by simp [ms]) (back _)
  have override (key : String) (case : Option KeyCase)
      (h : ms.get? key = case.map KeyCase.toJson) :
      Json.optional ms key KeyCase.ofJson? = some case :=
    Json.optional_map h (fun case _ => back case) nofun
  have input := override "input_key_case" c.inputKeyCase (by simp [ms])
  have output := override "output_key_case" c.outputKeyCase (by simp [ms])
  have locale : Json.defaulted ms "locale" "en" Json.string? = some c.locale :=
    Json.defaulted_eq (j := .string c.locale) (by simp [ms]) rfl
  have record : c.toJson.recordOf? ["name", "key_case", "input_key_case", "output_key_case",
      "locale"] = some ms := rfl
  rw [ofJson?, record, Option.bind_eq_bind, Option.bind_some, name, keyCase,
    input, output, locale]
  rfl

end NamespaceConfig

/-! ### All documents -/

/-- Whatever a contract document is made of survives being written and read again. What was built
must not have a default or an example that is `null`; what was read never has one. -/
theorem contract_documents_round_trip :
    RoundTrips Definition.toJson Definition.ofJson? Definition.NoNullMembers ∧
      RoundTrips Field.toJson Field.ofJson? (·.definition.NoNullMembers) ∧
      RoundTrips Variant.toJson Variant.ofJson? (·.definition.NoNullMembers) ∧
      RoundTrips NamedType.toJson NamedType.ofJson? (·.definition.NoNullMembers) ∧
      RoundTrips Attribute.toJson Attribute.ofJson? (·.definition.NoNullMembers) ∧
      RoundTrips Association.toJson Association.ofJson? (fun _ => True) ∧
      RoundTrips Resource.toJson Resource.ofJson? Resource.NoNullMembers ∧
      RoundTrips NamespaceConfig.toJson NamespaceConfig.ofJson? (fun _ => True) :=
  ⟨.of_sound Definition.ofJson?_toJson Definition.noNullMembers_of_ofJson?,
    .of_sound Field.ofJson?_toJson Field.noNullMembers_of_ofJson?,
    .of_sound Variant.ofJson?_toJson Variant.noNullMembers_of_ofJson?,
    .of_sound NamedType.ofJson?_toJson NamedType.noNullMembers_of_ofJson?,
    .of_sound Attribute.ofJson?_toJson Attribute.noNullMembers_of_ofJson?,
    .of_sound (fun a _ => a.ofJson?_toJson) fun _ _ _ => trivial,
    .of_sound Resource.ofJson?_toJson Resource.noNullMembers_of_ofJson?,
    .of_sound (fun c _ => c.ofJson?_toJson) fun _ _ _ => trivial⟩

def consignment : Resource where
  name := "Consignment"
  attributes := [
    { name := "goes_to", writable := .on true false, sortable := true
      definition :=
        { Definition.taggedUnion "kind" [
            { tag := some "door", definition := .object [] },
            { tag := some "locker", definition := .object [
              { name := "code", rename := some "CODE"
                definition := { Definition.scalar .string with max := Binary64.ofInt? 6 } }] }]
          with default? := some (.object [("kind", .string "door")]) } }]
  associations := [{ name := "sender", cardinality := .belongsTo }]

theorem consignment_survives : Resource.ofJson? consignment.toJson = some consignment := by
  obtain ⟨-, -, -, -, -, -, resources, -⟩ := contract_documents_round_trip
  refine resources.built consignment ⟨fun a ha => ?_, nofun⟩
  obtain rfl := List.mem_singleton.mp ha
  simp [Definition.NoNullMembers, Kind.NoNullMembers, Variant.ListNoNullMembers,
    Field.ListNoNullMembers, Definition.taggedUnion, Definition.object, Definition.scalar]

end ApiContract
