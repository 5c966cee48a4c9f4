import ApiContract.Proofs.DerivedReferences
import ApiContract.Proofs.GeneratedFiles
import ApiContract.Proofs.RenderedParts

/-!
# Unions that are looked up by tag

A tagged union becomes a schema that looks its alternative up by tag where every variant is known to
be an object. The alternatives are then objects written in place, or schemas declared before. That
such an object has its tag as a literal under the discriminator is seen to for fields in place,
which get the tag put in front; a type that is referred to has to declare it.
-/

namespace ApiContract

open Relation (ReflTransGen)

/-! ### What an alternative comes to -/

namespace SchemaExpr

mutual

/-- The unions that are looked up by tag in a schema, each with its key, in order. -/
def taggedUnions : SchemaExpr → List (String × List SchemaExpr)
  | never | unknown | boolean | string _ | number _ | enumeration _ | literal _ | declared _
  | deferred _ => []
  | array element _ => taggedUnions element
  | object members => taggedUnionsOfMembers members
  | oneOf alternatives => taggedUnionsOfList alternatives
  | byTag key alternatives => (key, alternatives) :: taggedUnionsOfList alternatives
  | orNull e => taggedUnions e

def taggedUnionsOfList : List SchemaExpr → List (String × List SchemaExpr)
  | [] => []
  | e :: rest => taggedUnions e ++ taggedUnionsOfList rest

def taggedUnionsOfMembers : List SchemaMember → List (String × List SchemaExpr)
  | [] => []
  | { schema, .. } :: rest => taggedUnions schema ++ taggedUnionsOfMembers rest

end

/-- A schema is an object with some members, in place or through schemas declared before it. It is
not `null` then, and not deferred. -/
inductive ComesTo : List SchemaDeclaration → SchemaExpr → List SchemaMember → Prop where
  | object {ds members} : ComesTo ds (.object members) members
  | declared {ds earlier d later name members} (split : ds = earlier ++ d :: later)
    (called : d.name = name) (next : ComesTo earlier d.schema members) :
    ComesTo ds (.declared name) members

def SaysTag (key tag : String) (members : List SchemaMember) : Prop :=
  (∃ m ∈ members, m.key = key) ∧
    ∀ m ∈ members, m.key = key →
      m.schema = .literal (.string tag) ∧ m.optional = false ∧ m.default? = none

end SchemaExpr

/-! ### What a variant declares -/

/-- A field says a tag: it is that literal, and is always there. -/
structure Field.IsTag (tag : String) (f : Field) : Prop where
  kind : f.definition.kind = .literal (.string tag)
  nullable : f.definition.nullable = false
  optional : f.definition.optional = false
  default? : f.definition.default? = none

def DeclaresTag (case : KeyCase) (discriminator tag : String) (shape : List Field) : Prop :=
  (∃ f ∈ shape, f.wireName case = case.apply discriminator) ∧
    ∀ f ∈ shape, f.wireName case = case.apply discriminator → f.IsTag tag

/-- Fields that stand in place leave the discriminator to the tag: one of its name, or under it,
says the tag there. -/
def LeavesTag (case : KeyCase) (discriminator tag : String) (shape : List Field) : Prop :=
  ∀ f ∈ shape, f.name = discriminator ∨ f.wireName case = case.apply discriminator →
    f.wireName case = case.apply discriminator ∧ f.IsTag tag

/-- Among types in order, a name leads to an object that declares a tag: by references and second
names that come after what they mention, none of which may be `null`. -/
inductive ListsTagged (case : KeyCase) (discriminator tag : String) :
    List Registry.OrderedType → String → Prop where
  | object {types before t after type shape} (split : types = before ++ t :: after)
    (listed : t.listing = .defined type) (hk : type.definition.kind = .object shape)
    (solid : type.definition.nullable = false) (tells : DeclaresTag case discriminator tag shape) :
    ListsTagged case discriminator tag types t.name
  | reference {types before t after type target} (split : types = before ++ t :: after)
    (listed : t.listing = .defined type) (hk : type.definition.kind = .reference target)
    (solid : type.definition.nullable = false)
    (next : ListsTagged case discriminator tag before target) :
    ListsTagged case discriminator tag types t.name
  | aliasOf {types before t after target} (split : types = before ++ t :: after)
    (listed : t.listing = .aliasOf target)
    (next : ListsTagged case discriminator tag before target) :
    ListsTagged case discriminator tag types t.name

/-- The type of a variant declares its tag, among the types that are listed before. -/
structure Variant.Declares (case : KeyCase) (before : List Registry.OrderedType)
    (discriminator tag : String) (v : Variant) : Prop where
  inPlace : ∀ shape, v.definition.kind = .object shape → LeavesTag case discriminator tag shape
  referred : ∀ target, v.definition.kind = .reference target →
    ListsTagged case discriminator tag before target

variable {case : KeyCase} {discriminator tag : String}

theorem Field.IsTag.withTags {f : Field} (h : f.IsTag tag) : f.withTags.IsTag tag where
  kind := by
    rw [definition_withTags, Definition.kind_withTags, h.kind, Kind.withTags]
  nullable := by simpa using h.nullable
  optional := by simpa using h.optional
  default? := by simpa using h.default?

theorem DeclaresTag.withTags {shape : List Field}
    (h : DeclaresTag case discriminator tag shape) :
    DeclaresTag case discriminator tag (shape.map Field.withTags) := by
  obtain ⟨⟨f, hf, under⟩, tells⟩ := h
  refine ⟨⟨f.withTags, List.mem_map_of_mem hf, under⟩, ?_⟩
  intro g hg under
  obtain ⟨f, hf, rfl⟩ := List.mem_map.mp hg
  exact (tells f hf under).withTags

/-- With the tag in front where it is missing, fields that leave it declare it. -/
theorem LeavesTag.tagged {shape : List Field} (h : LeavesTag case discriminator tag shape) :
    DeclaresTag case discriminator tag (Field.tagged discriminator tag shape) := by
  have tells (f : Field) (hf : f ∈ shape) (under : f.wireName case = case.apply discriminator) :
      f.IsTag tag := (h f hf (.inr under)).2
  rw [Field.tagged]
  split
  · rename_i named
    obtain ⟨f, hf, called⟩ := List.any_eq_true.mp named
    exact ⟨⟨f, hf, (h f hf (.inl (beq_iff_eq.mp called))).1⟩, tells⟩
  · refine ⟨⟨Field.ofTag discriminator tag, List.mem_cons_self, rfl⟩, ?_⟩
    intro f hf under
    rcases List.mem_cons.mp hf with rfl | hf
    · exact ⟨rfl, rfl, rfl, rfl⟩
    · exact tells f hf under

namespace SchemaExpr

variable {c : OutputContext} {current : String}

/-- The object of fields that declare a tag says it. -/
theorem saysTag_ofFields (current : String) {shape : List Field}
    (h : DeclaresTag c.settings.keyCase discriminator tag shape) :
    SaysTag (c.settings.keyCase.apply discriminator) tag (ofFields c current shape) := by
  obtain ⟨⟨f, hf, under⟩, tells⟩ := h
  rw [ofFields_eq]
  refine ⟨⟨ofField c current f, List.mem_map_of_mem hf, under⟩, ?_⟩
  intro m hm under
  obtain ⟨g, hg, rfl⟩ := List.mem_map.mp hm
  have tag := tells g hg under
  refine ⟨?_, tag.optional, tag.default?⟩
  have schema : (ofField c current g).schema = ofDefinition c current g.definition := rfl
  rw [schema, ofDefinition_eq, tag.kind, tag.nullable]
  rfl

/-! ### Unions in a schema -/

theorem taggedUnions_withNull (nullable : Bool) (e : SchemaExpr) :
    (withNull nullable e).taggedUnions = e.taggedUnions := by
  cases nullable <;> simp [withNull, taggedUnions]

theorem taggedUnions_mention (current name : String) :
    (mention c current name).taggedUnions = [] := by
  rw [mention]
  split <;> rfl

/-- A scalar has no union in it. -/
theorem taggedUnions_ofScalar (kind : ScalarKind) (format : Option StringFormat)
    (lower upper : Option Binary64) (allowed : Option Allowed) :
    (ofScalar c current kind format lower upper allowed).taggedUnions = [] := by
  unfold ofScalar
  dsimp only
  split
  · rw [ofStrings]
    split <;> rfl
  · exact taggedUnions_mention _ _
  all_goals rfl

/-- A tag that is put into an object brings no union with it. -/
theorem taggedUnions_asVariant (key tag : Option String) (d : Definition) :
    (ofDefinition c current (d.asVariant key tag)).taggedUnions =
      (ofDefinition c current d).taggedUnions := by
  unfold Definition.asVariant
  split
  · rename_i key tag
    unfold Definition.withTag
    split
    · rename_i shape hk
      split
      · rfl
      · rw [ofDefinition_eq, ofDefinition_eq, hk, taggedUnions_withNull, taggedUnions_withNull,
          ofKind, ofKind, taggedUnions, taggedUnions]
        rfl
    · rfl
  · rfl

/-- A union is looked up by tag under a key, with some alternatives. -/
def ByTag (c : OutputContext) (current : String) (u : Definition)
    (p : String × List SchemaExpr) : Prop :=
  ∃ discriminator variants, u.kind = .union (some discriminator) variants ∧
    p.1 = c.settings.keyCase.apply discriminator ∧
    p.2 = variants.map (fun v =>
      ofDefinition c current (v.withTags (some discriminator)).definition) ∧
    ∀ v ∈ variants, isObjectVariant c current (v.withTags (some discriminator)) = true

def ByTagInside (c : OutputContext) (current : String) (d : Definition)
    (p : String × List SchemaExpr) : Prop :=
  ∃ u, ReflTransGen Definition.Part u d ∧ ByTag c current u p

theorem ByTagInside.up {e d : Definition} {p : String × List SchemaExpr}
    (h : ByTagInside c current e p) (part : Definition.Part e d) : ByTagInside c current d p := by
  obtain ⟨u, inside, byTag⟩ := h
  exact ⟨u, inside.tail part, byTag⟩

/-- A union becomes a look-up by tag, or has only those of its alternatives. -/
theorem byTag_of_mem_ofUnion {d : Definition} {key : Option String} {variants : List Variant}
    (hk : d.kind = .union key variants) {p : String × List SchemaExpr}
    (h : p ∈ (ofUnion c current key (Variant.listWithTags key variants)
      (ofVariants c current (Variant.listWithTags key variants))).taggedUnions) :
    ByTag c current d p ∨
      p ∈ taggedUnionsOfList (ofVariants c current (Variant.listWithTags key variants)) := by
  revert h
  refine ofUnion_cases c current (P := fun e => p ∈ e.taggedUnions → _) ?_ ?_ ?_ ?_
  · rintro discriminator rfl objects h
    rw [taggedUnions] at h
    rcases List.mem_cons.mp h with rfl | h
    · refine .inl ⟨discriminator, variants, hk, rfl, ?_, ?_⟩
      · rw [ofVariants_eq, Variant.listWithTags_eq, List.map_map]
        rfl
      · intro v hv
        rw [Variant.listWithTags_eq] at objects
        exact List.all_eq_true.mp objects _ (List.mem_map_of_mem hv)
    · exact .inr h
  · intro _ h
    rw [taggedUnions] at h
    cases h
  · intro schema only h
    rw [only, taggedUnionsOfList, taggedUnionsOfList, List.append_nil]
    exact .inr h
  · intro h
    rw [taggedUnions] at h
    exact .inr h

mutual

theorem byTagInside_ofDefinition {p : String × List SchemaExpr} : ∀ d : Definition,
    p ∈ (ofDefinition c current d.withTags).taggedUnions → ByTagInside c current d p
  | { kind, nullable, optional, format, min, max, allowed, default?, decode, encode, docs }, h => by
    rw [Definition.withTags, ofDefinition, taggedUnions_withNull] at h
    exact byTagInside_ofKind format min max allowed kind
      { kind, nullable, optional, format, min, max, allowed, default?, decode, encode, docs } rfl h

/-- Every tagged union in a schema comes from one in the definition, part by part. -/
theorem byTagInside_ofKind {p : String × List SchemaExpr} (format : Option StringFormat)
    (lower upper : Option Binary64) (allowed : Option Allowed) :
    ∀ (kind : Kind) (d : Definition), d.kind = kind →
      p ∈ (ofKind c current format lower upper allowed kind.withTags).taggedUnions →
        ByTagInside c current d p
  | .scalar _, _, _, h => by
    rw [Kind.withTags, ofKind, taggedUnions_ofScalar] at h
    cases h
  | .literal _, _, _, h => by
    rw [Kind.withTags, ofKind, taggedUnions] at h
    cases h
  | .reference _, _, _, h => by
    rw [Kind.withTags, ofKind, taggedUnions_mention] at h
    cases h
  | .array items, d, hk, h => by
    rw [Kind.withTags, ofKind, taggedUnions] at h
    exact byTagInside_ofItems items d hk h
  | .object shape, d, hk, h => by
    rw [Kind.withTags, ofKind, taggedUnions] at h
    obtain ⟨f, hf, inside⟩ := byTagInside_ofFields shape h
    exact inside.up (.field hk hf)
  | .union key variants, d, hk, h => by
    rw [Kind.withTags, ofKind] at h
    rcases byTag_of_mem_ofUnion hk h with byTag | h
    · exact ⟨d, .refl, byTag⟩
    · obtain ⟨v, hv, inside⟩ := byTagInside_ofVariants key variants h
      exact inside.up (.variant hk hv)

theorem byTagInside_ofItems {p : String × List SchemaExpr} :
    ∀ (items : Items) (d : Definition), d.kind = .array items →
      p ∈ (ofItems c current items.withTags).taggedUnions → ByTagInside c current d p
  | .of element, d, hk, h => by
    rw [Items.withTags, ofItems] at h
    exact (byTagInside_ofDefinition element h).up (.element hk)
  | .shape fields, d, hk, h => by
    rw [Items.withTags, ofItems, taggedUnions] at h
    obtain ⟨f, hf, inside⟩ := byTagInside_ofFields fields h
    exact inside.up (.shapeField hk hf)

theorem byTagInside_ofFields {p : String × List SchemaExpr} :
    ∀ shape : List Field,
      p ∈ taggedUnionsOfMembers (ofFields c current (Field.listWithTags shape)) →
        ∃ f ∈ shape, ByTagInside c current f.definition p
  | [], h => nomatch h
  | { name, rename, definition } :: rest, h => by
    rw [Field.listWithTags, ofFields, taggedUnionsOfMembers, List.mem_append] at h
    rcases h with h | h
    · exact ⟨_, List.mem_cons_self, byTagInside_ofDefinition definition h⟩
    · obtain ⟨f, hf, inside⟩ := byTagInside_ofFields rest h
      exact ⟨f, List.mem_cons_of_mem _ hf, inside⟩

theorem byTagInside_ofVariants {p : String × List SchemaExpr} (key : Option String) :
    ∀ variants : List Variant,
      p ∈ taggedUnionsOfList (ofVariants c current (Variant.listWithTags key variants)) →
        ∃ v ∈ variants, ByTagInside c current v.definition p
  | [], h => nomatch h
  | { tag, definition } :: rest, h => by
    rw [Variant.listWithTags, ofVariants, taggedUnionsOfList, List.mem_append,
      taggedUnions_asVariant] at h
    rcases h with h | h
    · exact ⟨_, List.mem_cons_self, byTagInside_ofDefinition definition h⟩
    · obtain ⟨v, hv, inside⟩ := byTagInside_ofVariants key rest h
      exact ⟨v, List.mem_cons_of_mem _ hv, inside⟩

end

/-! ### The alternatives -/

theorem mention_of_emitted {name : String} (other : name ≠ current) (h : name ∈ c.emitted) :
    mention c current name = .declared name := by
  have emitted : c.isEmitted name = true := List.contains_iff_mem.mpr h
  rw [mention, if_pos (by simp [other, emitted])]

/-- The alternative of a variant that is known to be an object: that object with its tag, or the
schema of a type that is declared before. -/
def IsAlternative (c : OutputContext) (current discriminator : String) (v : Variant)
    (e : SchemaExpr) : Prop :=
  (∃ shape fields, v.definition.kind = .object shape ∧
    (v.withTags (some discriminator)).definition.kind = .object fields ∧
    e = .object (ofFields c current fields)) ∨
  ∃ target, v.definition.kind = .reference target ∧ e = .declared target ∧
    target ∈ c.emitted ∧ c.isObject target = true

/-- A variant that is known to be an object has no `null`, and its alternative is that object. -/
theorem isAlternative_of_isObjectVariant {v : Variant}
    (h : isObjectVariant c current (v.withTags (some discriminator)) = true) :
    v.definition.nullable = false ∧ IsAlternative c current discriminator v
      (ofDefinition c current (v.withTags (some discriminator)).definition) := by
  have rendered : (v.withTags (some discriminator)).definition =
      v.definition.withTags.asVariant (some discriminator) v.tag := rfl
  obtain ⟨solid, known⟩ := Bool.and_eq_true_iff.mp h
  have solid : v.definition.nullable = false := by simpa [rendered] using solid
  refine ⟨solid, ?_⟩
  have nullable : (v.withTags (some discriminator)).definition.nullable = false := by
    simpa [rendered] using solid
  have kind := v.definition.kind_withTags
  rw [ofDefinition_eq, nullable]
  cases hk : v.definition.kind with
  | object shape =>
    obtain ⟨fields, hf⟩ : ∃ fields,
        (v.withTags (some discriminator)).definition.kind = .object fields := by
      cases ht : v.tag with
      | none =>
        rw [rendered, ht]
        exact ⟨_, Definition.kind_withTags_of_object hk⟩
      | some tag => exact ⟨_, Variant.kind_withTags discriminator ht hk⟩
    rw [hf, ofKind]
    exact .inl ⟨shape, fields, hk, hf, rfl⟩
  | reference target =>
    rw [hk, Kind.withTags] at kind
    rw [rendered, Definition.asVariant_of_not_object _ _ (by simp [kind]), kind] at known ⊢
    obtain ⟨known, object⟩ := Bool.and_eq_true_iff.mp known
    obtain ⟨other, emitted⟩ := Bool.and_eq_true_iff.mp known
    have emitted : target ∈ c.emitted := List.contains_iff_mem.mp emitted
    refine .inr ⟨target, hk, ?_, emitted, object⟩
    rw [ofKind, mention_of_emitted (by simpa using other) emitted]
    rfl
  | _ =>
    rw [hk, Kind.withTags] at kind
    rw [rendered, Definition.asVariant_of_not_object _ _ (by simp [kind]), kind] at known
    cases known

end SchemaExpr

/-! ### Types that are referred to -/

theorem ListsTagged.mem {types : List Registry.OrderedType} {name : String}
    (h : ListsTagged case discriminator tag types name) : name ∈ types.map (·.name) := by
  cases h with
  | object split => simp [split]
  | reference split => simp [split]
  | aliasOf split => simp [split]

open Target

namespace SchemaExpr

variable {c : OutputContext} {before after : List Registry.OrderedType}
  {t : Registry.OrderedType} {members : List SchemaMember}

theorem comesTo_declared (nodup : ((before ++ t :: after).map (·.name)).Nodup)
    (own : Registry.OwnNames (before ++ t :: after))
    (h : ComesTo (schemaDeclarations c before) (schemaAfter c before t).schema members) :
    ComesTo (schemaDeclarations c (before ++ t :: after)) (.declared t.name) members := by
  obtain ⟨rest, split⟩ := schemaDeclarations_append (c := c) nodup
  exact .declared split (declared_eq own (by simp)).2 h

/-- A type that may not be `null` is declared as the schema of its kind. -/
theorem schema_schemaAfter (before : List Registry.OrderedType) {type : NamedType}
    (listed : t.listing = .defined type)
    (solid : type.definition.nullable = false) :
    ∃ lower upper format allowed, (schemaAfter c before t).schema =
      ofKind { c with emitted := (before.map (·.name)).reverse } type.name format lower upper
        allowed type.definition.kind.withTags := by
  have schema : (schemaAfter c before t).schema =
      ofDefinition { c with emitted := (before.map (·.name)).reverse } type.name
        type.definition.withTags := by
    rw [schemaAfter, listed]
    rfl
  rw [schema, ofDefinition_eq, Definition.nullable_withTags, solid, Definition.kind_withTags]
  exact ⟨_, _, _, _, rfl⟩

end SchemaExpr

/-- Types before another one have other names, and their own. -/
theorem names_before {before after : List Registry.OrderedType} {t : Registry.OrderedType}
    (nodup : ((before ++ t :: after).map (·.name)).Nodup)
    (own : Registry.OwnNames (before ++ t :: after)) :
    (before.map (·.name)).Nodup ∧ Registry.OwnNames before ∧
      ∀ name ∈ before.map (·.name), name ≠ t.name := by
  rw [List.map_append, List.map_cons] at nodup
  obtain ⟨front, -, apart⟩ := List.nodup_append.mp nodup
  exact ⟨front, fun u hu => own u (List.mem_append_left _ hu),
    fun name hn => apart name hn _ List.mem_cons_self⟩

/-- A name that leads to an object that declares its tag has a schema that comes to one. -/
theorem ListsTagged.comesTo {c : OutputContext} {types : List Registry.OrderedType} {name : String}
    (h : ListsTagged c.settings.keyCase discriminator tag types name)
    (nodup : (types.map (·.name)).Nodup) (own : Registry.OwnNames types) :
    ∃ members, SchemaExpr.ComesTo (schemaDeclarations c types) (.declared name) members ∧
      SchemaExpr.SaysTag (c.settings.keyCase.apply discriminator) tag members := by
  induction h with
  | @object types before t after type shape split listed hk solid tells =>
    subst split
    obtain ⟨lower, upper, format, allowed, schema⟩ :=
      SchemaExpr.schema_schemaAfter (c := c) before listed solid
    rw [hk, Kind.withTags, Field.listWithTags_eq, SchemaExpr.ofKind] at schema
    refine ⟨_, SchemaExpr.comesTo_declared nodup own ?_,
      SchemaExpr.saysTag_ofFields (c := { c with emitted := (before.map (·.name)).reverse })
        type.name tells.withTags⟩
    rw [schema]
    exact .object
  | @reference types before t after type target split listed hk solid next ih =>
    subst split
    obtain ⟨front, ownFront, apart⟩ := names_before nodup own
    obtain ⟨members, comes, tells⟩ := ih front ownFront
    have emitted : target ∈ (before.map (·.name)).reverse := List.mem_reverse.mpr next.mem
    have other : target ≠ type.name := own t (by simp) type listed ▸ apart target next.mem
    obtain ⟨lower, upper, format, allowed, schema⟩ :=
      SchemaExpr.schema_schemaAfter (c := c) before listed solid
    rw [hk, Kind.withTags, SchemaExpr.ofKind, SchemaExpr.mention_of_emitted other emitted] at schema
    refine ⟨members, SchemaExpr.comesTo_declared nodup own ?_, tells⟩
    rwa [schema]
  | @aliasOf types before t after target split listed next ih =>
    subst split
    obtain ⟨front, ownFront, apart⟩ := names_before nodup own
    obtain ⟨members, comes, tells⟩ := ih front ownFront
    have emitted : target ∈ (before.map (·.name)).reverse := List.mem_reverse.mpr next.mem
    have schema : (schemaAfter c before t).schema = .declared target := by
      rw [schemaAfter, listed]
      exact SchemaExpr.mention_of_emitted (apart target next.mem) emitted
    refine ⟨members, SchemaExpr.comesTo_declared nodup own ?_, tells⟩
    rwa [schema]

/-! ### Files -/

/-- An alternative is that of a variant which may not be `null`: an object in place, or a schema
declared before, of a name that resolves to an object. -/
def IsAlternativeOf (c : OutputContext) (earlier : List SchemaDeclaration) (v : Variant)
    (e : SchemaExpr) : Prop :=
  v.definition.nullable = false ∧
    ((∃ shape members, v.definition.kind = .object shape ∧ e = .object members) ∨
      ∃ target, v.definition.kind = .reference target ∧ e = .declared target ∧
        target ∈ earlier.map (·.name) ∧ c.isObject target = true)

/-- An alternative is an object that has the tag of its variant under a key, if the variant's type
declares that tag. -/
def SaysTagOf (s : OutputSettings) (earlier : List SchemaDeclaration)
    (before : List Registry.OrderedType) (discriminator : String) (v : Variant)
    (e : SchemaExpr) : Prop :=
  ∀ tag, v.tag = some tag → v.Declares s.keyCase before discriminator tag →
    ∃ members, SchemaExpr.ComesTo earlier e members ∧
      SchemaExpr.SaysTag (s.keyCase.apply discriminator) tag members

/-- What stands in place or was declared before is the alternative of the variant. -/
theorem alternative_of_variant {c : OutputContext} {before : List Registry.OrderedType}
    {current : String} (nodup : (before.map (·.name)).Nodup) (own : Registry.OwnNames before)
    {v : Variant} (object : SchemaExpr.isObjectVariant
      { c with emitted := (before.map (·.name)).reverse } current
      (v.withTags (some discriminator)) = true) :
    let e := SchemaExpr.ofDefinition { c with emitted := (before.map (·.name)).reverse } current
      (v.withTags (some discriminator)).definition
    IsAlternativeOf c (schemaDeclarations c before) v e ∧
      SaysTagOf c.settings (schemaDeclarations c before) before discriminator v e := by
  intro e
  obtain ⟨solid, inPlace | referred⟩ := SchemaExpr.isAlternative_of_isObjectVariant object
  · obtain ⟨shape, fields, hk, hf, he⟩ := inPlace
    refine ⟨⟨solid, .inl ⟨shape, _, hk, he⟩⟩, ?_⟩
    intro tag ht declares
    obtain rfl : (Field.tagged discriminator tag shape).map Field.withTags = fields := by
      simpa using (Variant.kind_withTags discriminator ht hk).symm.trans hf
    have tells := SchemaExpr.saysTag_ofFields
      (c := { c with emitted := (before.map (·.name)).reverse }) current
      (declares.inPlace shape hk).tagged.withTags
    refine ⟨_, ?_, tells⟩
    rw [show e = _ from he]
    exact .object
  · obtain ⟨target, hk, he, emitted, known⟩ := referred
    have names := map_name_schemaDeclarations (c := c) nodup own
    refine ⟨⟨solid, .inr ⟨target, hk, he, ?_, known⟩⟩, ?_⟩
    · rw [names]
      exact List.mem_reverse.mp emitted
    · intro tag _ declares
      have comes := (declares.referred target hk).comesTo (c := c) nodup own
      rwa [show e = _ from he]

/-- In a file, a schema that looks its alternative up by tag is that of a tagged union, under the
discriminator in the case of keys, with one alternative for each variant: an object in place, or a
schema declared before. If the type of the variant declares its tag, the alternative is an object
that has the tag as a literal under that key. -/
theorem alternatives_say_tags (r : Registry) (scope : Scope) (s : OutputSettings)
    (types : List Registry.OrderedType) (ordered : r.ordered scope = .ok types)
    (named : r.Named) :
    let c : OutputContext := { settings := s, view := ⟨r, scope⟩ }
    zod.file c.view s = .ok (s.lineEnding.apply (zod.preamble c ++
        String.intercalate "\n" ((schemaDeclarations c types).map (SchemaDeclaration.text s)))) ∧
    ∀ before t after, types = before ++ t :: after →
      (∃ later, schemaDeclarations c types =
        schemaDeclarations c before ++ schemaAfter c before t :: later) ∧
      ∀ key alternatives, (key, alternatives) ∈ (schemaAfter c before t).schema.taggedUnions →
        ∃ type u discriminator variants, t.listing = .defined type ∧
          ReflTransGen Definition.Part u type.definition ∧
          u.kind = .union (some discriminator) variants ∧
          key = s.keyCase.apply discriminator ∧
          List.Forall₂ (fun v e => IsAlternativeOf c (schemaDeclarations c before) v e ∧
            SaysTagOf s (schemaDeclarations c before) before discriminator v e)
            variants alternatives := by
  intro c
  have lists := Registry.lists_of_ordered ordered
  refine ⟨?_, ?_⟩
  · rw [file_of_ordered zod c.view s ordered, assemble_zod]
    rfl
  · rintro before t after rfl
    obtain ⟨front, own, -⟩ := names_before lists.nodup (lists.ownNames named)
    refine ⟨schemaDeclarations_append lists.nodup, ?_⟩
    intro key alternatives h
    cases listing : t.listing with
    | aliasOf target =>
      rw [schemaAfter, listing] at h
      have none := SchemaExpr.taggedUnions_mention
        (c := { c with emitted := (before.map (·.name)).reverse }) t.name target
      exact absurd h (none ▸ List.not_mem_nil)
    | defined type =>
      rw [schemaAfter, listing] at h
      obtain ⟨u, inside, discriminator, variants, hk, hkey, he, objects⟩ :=
        SchemaExpr.byTagInside_ofDefinition type.definition h
      refine ⟨type, u, discriminator, variants, rfl, inside, hk, hkey, ?_⟩
      simp only at he
      rw [he, List.forall₂_map_right_iff, List.forall₂_same]
      exact fun v hv => alternative_of_variant front own (objects v hv)

/-- In the market, payments are looked up by their type, and cards declare theirs. -/
theorem market_alternatives :
    let c : OutputContext := { settings := {}, view := ⟨market, .api "market"⟩ }
    ∃ before t after alternatives variants,
      market.ordered (.api "market") = .ok (before ++ t :: after) ∧
      ("type", alternatives) ∈ (schemaAfter c before t).schema.taggedUnions ∧
      List.Forall₂ (fun v e => IsAlternativeOf c (schemaDeclarations c before) v e ∧
        SaysTagOf {} (schemaDeclarations c before) before "type" v e) variants alternatives ∧
      Variant.Declares .preserve before "type" "card"
        { tag := some "card", definition := .reference "Card" } := by
  intro c
  obtain ⟨-, each⟩ := alternatives_say_tags market (.api "market") {} _ rfl market_named
  obtain ⟨-, tells⟩ := each [_, _, _, _, _] _ [] rfl
  obtain ⟨type, u, discriminator, variants, -, -, -, key, alternatives⟩ :=
    tells "type" _ (.head _)
  obtain rfl : "type" = discriminator := by simpa using key
  refine ⟨[_, _, _, _, _], _, [], _, variants, rfl, .head _, alternatives, nofun, ?_⟩
  rintro _ ⟨⟩
  refine @ListsTagged.object .preserve "type" "card" _ [_, _] _ [_, _] _ _ rfl rfl rfl rfl ?_
  refine ⟨⟨_, List.mem_cons_self, rfl⟩, ?_⟩
  intro f hf under
  rcases List.mem_cons.mp hf with rfl | hf
  · exact ⟨rfl, rfl, rfl, rfl⟩
  · obtain rfl := List.mem_singleton.mp hf
    exact absurd under (by decide +kernel)

def till : Registry :=
  { tables := [(.api "till",
      [typeOf "Card" (.object [{ name := "number", definition := .scalar .string }]),
        typeOf "Cash" (.object [{ name := "type", definition := .literal (.string "cash") }]),
        typeOf "Payment" (.taggedUnion "type"
          [{ tag := some "card", definition := .reference "Card" },
            { tag := some "cash", definition := .reference "Cash" }])])] }

/-- The till looks payments up by their type among cards, which have none. -/
theorem till_cards_untagged :
    let c : OutputContext := { settings := {}, view := ⟨till, .api "till"⟩ }
    ∃ before t members, till.ordered (.api "till") = .ok (before ++ [t]) ∧
      schemaDeclarations c (before ++ [t]) =
        schemaDeclarations c before ++ [schemaAfter c before t] ∧
      (schemaAfter c before t).schema = .byTag "type" [.declared "Card", .declared "Cash"] ∧
      SchemaExpr.ComesTo (schemaDeclarations c before) (.declared "Card") members ∧
      ∀ m ∈ members, m.key ≠ "type" := by
  intro c
  refine ⟨[_, _], _, _, rfl, rfl, rfl, @SchemaExpr.ComesTo.declared _ [] _ [_] _ _ rfl rfl .object,
    ?_⟩
  intro m hm
  obtain rfl := List.mem_singleton.mp hm
  decide +kernel

end ApiContract
