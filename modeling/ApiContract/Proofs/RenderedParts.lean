import ApiContract.Output.Target

/-!
# How the parts of a definition are rendered

The members of a generated object are those of its fields one by one, and the alternatives of a
generated union are those of its variants. Putting tags into variants changes nothing else: fields
keep their names, and definitions keep whether they may be missing or `null` and what stands for
them.
-/

namespace ApiContract

namespace Definition

theorem kind_withTags (d : Definition) : d.withTags.kind = d.kind.withTags := by
  cases d
  rw [withTags]

@[simp] theorem nullable_withTags (d : Definition) : d.withTags.nullable = d.nullable := by
  cases d
  rw [withTags]

@[simp] theorem optional_withTags (d : Definition) : d.withTags.optional = d.optional := by
  cases d
  rw [withTags]

@[simp] theorem default?_withTags (d : Definition) : d.withTags.default? = d.default? := by
  cases d
  rw [withTags]

@[simp] theorem nullable_asVariant (discriminator tag : Option String) (d : Definition) :
    (d.asVariant discriminator tag).nullable = d.nullable := by
  unfold asVariant
  split
  · unfold withTag
    split
    · split <;> rfl
    · rfl
  · rfl

/-- Only objects change when a tag is put into a variant. -/
theorem asVariant_of_not_object (discriminator tag : Option String) {d : Definition}
    (h : ∀ shape, d.kind ≠ .object shape) : d.asVariant discriminator tag = d := by
  unfold asVariant
  split
  · unfold withTag
    split
    · rename_i shape hk
      exact absurd hk (h shape)
    · rfl
  · rfl

end Definition

namespace Field

def withTags (f : Field) : Field := { f with definition := f.definition.withTags }

@[simp] theorem name_withTags (f : Field) : f.withTags.name = f.name := rfl

@[simp] theorem wireName_withTags (case : KeyCase) (f : Field) :
    f.withTags.wireName case = f.wireName case := rfl

@[simp] theorem definition_withTags (f : Field) :
    f.withTags.definition = f.definition.withTags := rfl

theorem listWithTags_eq (shape : List Field) : listWithTags shape = shape.map withTags := by
  induction shape with
  | nil => rfl
  | cons f rest ih =>
    cases f
    rw [listWithTags, ih]
    rfl

def ofTag (discriminator tag : String) : Field :=
  { name := discriminator, definition := .literal (.string tag) }

/-- The fields of a variant with its tag: the tag stands in front of them unless one of them has the
discriminator's name. -/
def tagged (discriminator tag : String) (shape : List Field) : List Field :=
  if shape.any fun f => f.name == discriminator then shape
  else ofTag discriminator tag :: shape

end Field

theorem Field.tagged_map_withTags (discriminator tag : String) (shape : List Field) :
    tagged discriminator tag (shape.map withTags) =
      (tagged discriminator tag shape).map withTags := by
  rw [tagged, tagged, List.any_map]
  split
  · rename_i declared
    rw [if_pos (by simpa using declared)]
  · rename_i undeclared
    rw [if_neg (by simpa using undeclared)]
    rfl

theorem Definition.kind_withTags_of_object {d : Definition} {shape : List Field}
    (hk : d.kind = .object shape) : d.withTags.kind = .object (shape.map Field.withTags) := by
  rw [kind_withTags, hk, Kind.withTags, Field.listWithTags_eq]

theorem Definition.withTag_of_object (discriminator tag : String) {d : Definition}
    {shape : List Field} (hk : d.kind = .object shape) :
    d.withTag discriminator tag =
      { d with kind := .object (Field.tagged discriminator tag shape) } := by
  cases d
  cases hk
  dsimp only [withTag]
  rw [Field.tagged]
  split <;> rfl

namespace Variant

/-- A variant with its tag, and with the tags inside it. -/
def withTags (discriminator : Option String) (v : Variant) : Variant :=
  { v with definition := v.definition.withTags.asVariant discriminator v.tag }

theorem listWithTags_eq (discriminator : Option String) (variants : List Variant) :
    listWithTags discriminator variants = variants.map (withTags discriminator) := by
  induction variants with
  | nil => rfl
  | cons v rest ih =>
    cases v
    rw [listWithTags, ih]
    rfl

/-- A variant that is an object has the tag among its fields, and the tags inside them. -/
theorem kind_withTags (discriminator : String) {tag : String} {v : Variant} {shape : List Field}
    (ht : v.tag = some tag) (hk : v.definition.kind = .object shape) :
    (v.withTags (some discriminator)).definition.kind =
      .object ((Field.tagged discriminator tag shape).map Field.withTags) := by
  rw [withTags, ht, Definition.asVariant,
    Definition.withTag_of_object discriminator tag (Definition.kind_withTags_of_object hk),
    Field.tagged_map_withTags]

end Variant

namespace SchemaExpr

variable (c : OutputContext) (current : String)

theorem ofDefinition_eq (d : Definition) :
    ofDefinition c current d =
      withNull d.nullable (ofKind c current d.format d.min d.max d.allowed d.kind) := by
  cases d
  rw [ofDefinition]

def ofField (f : Field) : SchemaMember :=
  { key := f.wireName c.settings.keyCase
    schema := ofDefinition c current f.definition
    optional := f.definition.optional
    default? := f.definition.default?
    description := if c.settings.docs then f.definition.docs.description else none }

theorem ofFields_eq (shape : List Field) :
    ofFields c current shape = shape.map (ofField c current) := by
  induction shape with
  | nil => rfl
  | cons f rest ih =>
    cases f
    rw [ofFields, ih]
    rfl

theorem ofVariants_eq (variants : List Variant) :
    ofVariants c current variants = variants.map fun v => ofDefinition c current v.definition := by
  induction variants with
  | nil => rfl
  | cons v rest ih =>
    cases v
    rw [ofVariants, ih]
    rfl

/-- A union is looked up by tag where all variants are objects. Otherwise it is its only schema, or
one of several. -/
theorem ofUnion_cases {P : SchemaExpr → Prop} {discriminator : Option String}
    {variants : List Variant} {schemas : List SchemaExpr}
    (tagged : ∀ key, discriminator = some key → variants.all (isObjectVariant c current) = true →
      P (byTag (c.settings.keyCase.apply key) schemas))
    (none : schemas = [] → P never) (only : ∀ schema, schemas = [schema] → P schema)
    (several : P (oneOf schemas)) : P (ofUnion c current discriminator variants schemas) := by
  by_cases objects : variants.all (isObjectVariant c current) = true
  · rcases schemas with _ | ⟨first, _ | ⟨second, rest⟩⟩ <;> rcases discriminator with _ | key <;>
      simp only [ofUnion, objects]
    · exact none rfl
    · exact none rfl
    · exact only first rfl
    · exact tagged key rfl objects
    · exact several
    · exact tagged key rfl objects
  · rcases schemas with _ | ⟨first, _ | ⟨second, rest⟩⟩ <;> rcases discriminator with _ | key <;>
      simp only [ofUnion, objects]
    · exact none rfl
    · exact none rfl
    · exact only first rfl
    · exact only first rfl
    · exact several
    · exact several

end SchemaExpr

namespace TypeExpr

def ofField (s : OutputSettings) (f : Field) : TypeMember :=
  { docs := if s.docs then f.definition.docs else {}
    key := f.wireName s.keyCase
    optional := f.definition.optional
    type := ofDefinition s f.definition }

theorem ofFields_eq (s : OutputSettings) (shape : List Field) :
    ofFields s shape = shape.map (ofField s) := by
  induction shape with
  | nil => rfl
  | cons f rest ih =>
    cases f
    rw [ofFields, ih]
    rfl

end TypeExpr

namespace OpenApi

theorem required_eq (s : OutputSettings) (shape : List Field) :
    required s shape =
      (shape.filter fun f => !f.definition.optional).map (Field.wireName s.keyCase) := by
  induction shape with
  | nil => rfl
  | cons f rest ih =>
    obtain ⟨name, rename, definition⟩ := f
    rw [required, ih]
    cases h : definition.optional <;> simp [h]

theorem properties_eq (s : OutputSettings) (shape : List Field) :
    properties s shape =
      shape.map fun f => (f.wireName s.keyCase, ofDefinition s f.definition) := by
  induction shape with
  | nil => rfl
  | cons f rest ih =>
    cases f
    rw [properties, ih]
    rfl

theorem ofVariants_eq (s : OutputSettings) (variants : List Variant) :
    ofVariants s variants = variants.map fun v => ofDefinition s v.definition := by
  induction variants with
  | nil => rfl
  | cons v rest ih =>
    cases v
    rw [ofVariants, ih]
    rfl

end OpenApi

end ApiContract
