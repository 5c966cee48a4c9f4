import ApiContract.Output.Target
import ApiContract.Proofs.ConsultedNames
import ApiContract.Proofs.DependencyGraph
import ApiContract.Proofs.RenderedParts

/-!
# The names that generated declarations mention

Declarations are generated from a definition after tags were put into its variants. The names that
a declared type or schema mentions are names that its definition mentions; a schema mentions a name
directly if that is another one that is declared further up, and through a deferred look-up
otherwise.
-/

namespace ApiContract

/-! ### Tags mention nothing -/

namespace Definition

/-- A tag is a literal and mentions nothing. -/
theorem mentions_withTag (discriminator tag : String) (d : Definition) :
    (d.withTag discriminator tag).mentions = d.mentions := by
  rw [withTag]
  split
  · rename_i shape hk
    split
    · rfl
    · rw [mentions_eq, mentions_eq d, hk]
      simp [Kind.mentions, Field.listMentions, literal, mentions]
  · rfl

theorem mentions_asVariant (discriminator tag : Option String) (d : Definition) :
    (d.asVariant discriminator tag).mentions = d.mentions := by
  unfold asVariant
  split
  · exact mentions_withTag _ _ d
  · rfl

end Definition

mutual

theorem Definition.mentions_withTags : ∀ d : Definition, d.withTags.mentions = d.mentions
  | { kind, allowed, .. } => by
    rw [Definition.mentions_eq, Definition.mentions_eq]
    simp only [Definition.withTags, Kind.mentions_withTags kind]

theorem Kind.mentions_withTags : ∀ kind : Kind, kind.withTags.mentions = kind.mentions
  | .scalar _ | .reference _ | .literal _ => rfl
  | .array items => by
    rw [Kind.withTags, Kind.mentions, Kind.mentions, Items.mentions_withTags items]
  | .object shape => by
    rw [Kind.withTags, Kind.mentions, Kind.mentions, Field.listMentions_listWithTags shape]
  | .union discriminator variants => by
    rw [Kind.withTags, Kind.mentions, Kind.mentions,
      Variant.listMentions_listWithTags discriminator variants]

theorem Items.mentions_withTags : ∀ items : Items, items.withTags.mentions = items.mentions
  | .of element => by
    rw [Items.withTags, Items.mentions, Items.mentions, Definition.mentions_withTags element]
  | .shape fields => by
    rw [Items.withTags, Items.mentions, Items.mentions, Field.listMentions_listWithTags fields]

theorem Field.listMentions_listWithTags : ∀ shape : List Field,
    Field.listMentions (Field.listWithTags shape) = Field.listMentions shape
  | [] => rfl
  | { definition, .. } :: rest => by
    rw [Field.listWithTags, Field.listMentions, Field.listMentions,
      Definition.mentions_withTags definition, Field.listMentions_listWithTags rest]

theorem Variant.listMentions_listWithTags (discriminator : Option String) :
    ∀ variants : List Variant,
      Variant.listMentions (Variant.listWithTags discriminator variants) =
        Variant.listMentions variants
  | [] => rfl
  | { definition, .. } :: rest => by
    rw [Variant.listWithTags, Variant.listMentions, Variant.listMentions,
      Definition.mentions_asVariant, Definition.mentions_withTags definition,
      Variant.listMentions_listWithTags discriminator rest]

end

/-! ### Types -/

namespace TypeExpr

theorem names_withNull (nullable : Bool) (e : TypeExpr) :
    (withNull nullable e).names = e.names := by
  cases nullable <;> simp [withNull, names]

theorem namesOfList_literals (values : List String) :
    namesOfList (values.map fun v => literal (.string v)) = [] := by
  induction values with
  | nil => rfl
  | cons v rest ih => rw [List.map_cons, namesOfList, ih, names, List.append_nil]

theorem names_ofStrings (values : List String) : (ofStrings values).names = [] := by
  rw [ofStrings]
  split
  · rfl
  · rw [names, namesOfList_literals]

/-- A scalar's type mentions a name only where an enumeration has its values from a type. -/
theorem allowed_of_mem_names {kind : ScalarKind} {allowed : Option Allowed} {x : String}
    (h : x ∈ (ofScalar kind allowed).names) : allowed = some (.named x) := by
  unfold ofScalar at h
  split at h
  · simp [names_ofStrings] at h
  · rename_i type
    obtain rfl : x = type := by simpa [names] using h
    rfl
  all_goals simp [names] at h

mutual

theorem names_ofDefinition_subset (s : OutputSettings) :
    ∀ d : Definition, (ofDefinition s d).names ⊆ d.mentions
  | { kind, nullable, allowed, .. } => by
    intro x hx
    rw [ofDefinition, names_withNull] at hx
    rw [Definition.mentions_eq, List.mem_append]
    rcases names_ofKind s allowed kind hx with rfl | hx
    · exact .inl List.mem_cons_self
    · exact .inr hx

/-- The type of a kind mentions what the kind does, or the enumeration that lists the values. -/
theorem names_ofKind (s : OutputSettings) (allowed : Option Allowed) {x : String} :
    ∀ kind : Kind, x ∈ (ofKind s allowed kind).names →
      allowed = some (.named x) ∨ x ∈ kind.mentions
  | .scalar _, hx => .inl (allowed_of_mem_names hx)
  | .literal _, hx => by simp [ofKind, names] at hx
  | .reference target, hx => .inr (by simpa [ofKind, names, Kind.mentions] using hx)
  | .array items, hx => by
    rw [ofKind, names] at hx
    exact .inr (names_ofItems_subset s items hx)
  | .object shape, hx => by
    rw [ofKind, names] at hx
    exact .inr (namesOfMembers_subset s shape hx)
  | .union _ variants, hx => by
    rw [ofKind, names] at hx
    exact .inr (namesOfList_subset s variants hx)

theorem names_ofItems_subset (s : OutputSettings) :
    ∀ items : Items, (ofItems s items).names ⊆ items.mentions
  | .of element => by
    rw [ofItems, Items.mentions]
    exact names_ofDefinition_subset s element
  | .shape fields => by
    rw [ofItems, names, Items.mentions]
    exact namesOfMembers_subset s fields

theorem namesOfMembers_subset (s : OutputSettings) :
    ∀ shape : List Field, namesOfMembers (ofFields s shape) ⊆ Field.listMentions shape
  | [] => List.nil_subset _
  | { definition, .. } :: rest => by
    rw [ofFields, namesOfMembers, Field.listMentions]
    exact List.append_subset.mpr
      ⟨List.subset_append_of_subset_left _ (names_ofDefinition_subset s definition),
        List.subset_append_of_subset_right _ (namesOfMembers_subset s rest)⟩

theorem namesOfList_subset (s : OutputSettings) :
    ∀ variants : List Variant, namesOfList (ofVariants s variants) ⊆ Variant.listMentions variants
  | [] => List.nil_subset _
  | { definition, .. } :: rest => by
    rw [ofVariants, namesOfList, Variant.listMentions]
    exact List.append_subset.mpr
      ⟨List.subset_append_of_subset_left _ (names_ofDefinition_subset s definition),
        List.subset_append_of_subset_right _ (namesOfList_subset s rest)⟩

end

end TypeExpr

namespace TypeDeclaration

def declared : TypeDeclaration → String
  | equation name _ | interface name _ => name

def names : TypeDeclaration → List String
  | equation _ type => type.names
  | interface _ members => TypeExpr.namesOfMembers members

end TypeDeclaration

theorem NamedType.declared_declaration (s : OutputSettings) (t : NamedType) :
    (t.declaration s).declared = t.name := by
  unfold declaration
  split
  · rfl
  · dsimp only
    split <;> rfl

/-- A declared type mentions no other names than its definition. -/
theorem NamedType.names_declaration_subset (s : OutputSettings) (t : NamedType) :
    (t.declaration s).names ⊆ t.definition.mentions := by
  unfold declaration
  split
  · rename_i target h
    rw [aliasTarget?] at h
    split at h
    · have hk : t.definition.kind = .reference target := by
        rw [Definition.target?] at h
        split at h
        · rename_i hk
          rw [hk, Option.some.inj h]
        · cases h
      intro x hx
      obtain rfl : x = target := by
        simpa [TypeDeclaration.ofAlias, TypeDeclaration.names, TypeExpr.names] using hx
      exact (Definition.LooksUp.target hk).mem_mentions
    · cases h
  · rw [← Definition.mentions_withTags]
    dsimp only
    split
    · rename_i shape hs _
      have hk : t.definition.withTags.kind = .object shape := by
        rw [Definition.shape?] at hs
        split at hs
        · rename_i hk
          rw [hk, Option.some.inj hs]
        · cases hs
      intro x hx
      refine Definition.mem_mentions_of_kind ?_
      rw [hk]
      exact TypeExpr.namesOfMembers_subset s shape hx
    · exact TypeExpr.names_ofDefinition_subset s _

/-! ### Schemas -/

/-- A mention of a type in a schema. -/
structure SchemaMention where
  type : String
  /-- The schema is looked up when it is used. -/
  deferred : Bool
  deriving DecidableEq

namespace SchemaExpr

mutual

/-- The registered types a schema mentions, in order of mention. -/
def mentions : SchemaExpr → List SchemaMention
  | never | unknown | boolean | string _ | number _ | enumeration _ | literal _ => []
  | array element _ => mentions element
  | object members => mentionsOfMembers members
  | oneOf alternatives | byTag _ alternatives => mentionsOfList alternatives
  | declared type => [⟨type, false⟩]
  | deferred type => [⟨type, true⟩]
  | orNull e => mentions e

def mentionsOfList : List SchemaExpr → List SchemaMention
  | [] => []
  | e :: rest => mentions e ++ mentionsOfList rest

def mentionsOfMembers : List SchemaMember → List SchemaMention
  | [] => []
  | { schema, .. } :: rest => mentions schema ++ mentionsOfMembers rest

end

/-- The mention of a name in the schema of `current`: direct if it is another name that is declared
further up. -/
def mentionOf (c : OutputContext) (current name : String) : SchemaMention :=
  ⟨name, name == current || !c.isEmitted name⟩

variable (c : OutputContext) (current : String)

theorem mentions_mention (name : String) :
    (mention c current name).mentions = [mentionOf c current name] := by
  rw [mention, mentionOf]
  cases h : name != current <;> cases c.isEmitted name <;> simp_all [mentions]

theorem mentions_withNull (nullable : Bool) (e : SchemaExpr) :
    (withNull nullable e).mentions = e.mentions := by
  cases nullable <;> simp [withNull, mentions]

theorem mentions_ofStrings (values : List String) : (ofStrings values).mentions = [] := by
  rw [ofStrings]
  split <;> rfl

/-- A union mentions what its alternatives do, tagged or not. -/
theorem mentions_ofUnion (discriminator : Option String) (variants : List Variant)
    (schemas : List SchemaExpr) :
    (ofUnion c current discriminator variants schemas).mentions = mentionsOfList schemas := by
  refine ofUnion_cases c current (P := fun e => e.mentions = mentionsOfList schemas) ?_ ?_ ?_ ?_
  · intro key _ _
    rw [mentions]
  · rintro rfl
    rw [mentions, mentionsOfList]
  · rintro schema rfl
    simp [mentionsOfList]
  · rw [mentions]

/-- A scalar mentions a type only where that lists its values. -/
theorem mem_mentions_ofScalar {kind : ScalarKind} {format : Option StringFormat}
    {lower upper : Option Binary64} {allowed : Option Allowed} {m : SchemaMention}
    (h : m ∈ (ofScalar c current kind format lower upper allowed).mentions) :
    ∃ name, allowed = some (.named name) ∧ m = mentionOf c current name := by
  unfold ofScalar at h
  dsimp only at h
  split at h
  · simp [mentions_ofStrings] at h
  · rename_i type
    rw [mentions_mention] at h
    exact ⟨type, rfl, List.mem_singleton.mp h⟩
  all_goals simp [mentions] at h

mutual

theorem mem_mentions_ofDefinition {m : SchemaMention} :
    ∀ d : Definition, m ∈ (ofDefinition c current d).mentions →
      ∃ name ∈ d.mentions, m = mentionOf c current name
  | { kind, nullable, format, min, max, allowed, .. }, h => by
    rw [ofDefinition, mentions_withNull] at h
    simp only [Definition.mentions_eq, List.mem_append]
    rcases mem_mentions_ofKind format min max allowed kind h with ⟨name, rfl, hm⟩ | ⟨name, hn, hm⟩
    · exact ⟨name, .inl List.mem_cons_self, hm⟩
    · exact ⟨name, .inr hn, hm⟩

/-- What the schema of a kind mentions, the kind does or its list of values. -/
theorem mem_mentions_ofKind {m : SchemaMention} (format : Option StringFormat)
    (lower upper : Option Binary64) (allowed : Option Allowed) :
    ∀ kind : Kind, m ∈ (ofKind c current format lower upper allowed kind).mentions →
      (∃ name, allowed = some (.named name) ∧ m = mentionOf c current name) ∨
        ∃ name ∈ kind.mentions, m = mentionOf c current name
  | .scalar _, h => .inl (mem_mentions_ofScalar c current h)
  | .literal _, h => by simp [ofKind, mentions] at h
  | .reference target, h => by
    rw [ofKind, mentions_mention] at h
    exact .inr ⟨target, List.mem_singleton_self _, List.mem_singleton.mp h⟩
  | .array items, h => by
    rw [ofKind, mentions] at h
    exact .inr (mem_mentions_ofItems items h)
  | .object shape, h => by
    rw [ofKind, mentions] at h
    exact .inr (mem_mentions_ofFields shape h)
  | .union discriminator variants, h => by
    rw [ofKind, mentions_ofUnion] at h
    exact .inr (mem_mentions_ofVariants variants h)

theorem mem_mentions_ofItems {m : SchemaMention} :
    ∀ items : Items, m ∈ (ofItems c current items).mentions →
      ∃ name ∈ items.mentions, m = mentionOf c current name
  | .of element, h => mem_mentions_ofDefinition element h
  | .shape fields, h => mem_mentions_ofFields fields h

theorem mem_mentions_ofFields {m : SchemaMention} :
    ∀ shape : List Field, m ∈ mentionsOfMembers (ofFields c current shape) →
      ∃ name ∈ Field.listMentions shape, m = mentionOf c current name
  | [], h => nomatch h
  | { definition, .. } :: rest, h => by
    rw [ofFields, mentionsOfMembers, List.mem_append] at h
    simp only [Field.listMentions, List.mem_append]
    rcases h with h | h
    · obtain ⟨name, hn, hm⟩ := mem_mentions_ofDefinition definition h
      exact ⟨name, .inl hn, hm⟩
    · obtain ⟨name, hn, hm⟩ := mem_mentions_ofFields rest h
      exact ⟨name, .inr hn, hm⟩

theorem mem_mentions_ofVariants {m : SchemaMention} :
    ∀ variants : List Variant, m ∈ mentionsOfList (ofVariants c current variants) →
      ∃ name ∈ Variant.listMentions variants, m = mentionOf c current name
  | [], h => nomatch h
  | { definition, .. } :: rest, h => by
    rw [ofVariants, mentionsOfList, List.mem_append] at h
    simp only [Variant.listMentions, List.mem_append]
    rcases h with h | h
    · obtain ⟨name, hn, hm⟩ := mem_mentions_ofDefinition definition h
      exact ⟨name, .inl hn, hm⟩
    · obtain ⟨name, hn, hm⟩ := mem_mentions_ofVariants rest h
      exact ⟨name, .inr hn, hm⟩

end

end SchemaExpr

namespace Registry.Listing

def declaration (s : OutputSettings) (name : String) : Listing → TypeDeclaration
  | .defined t => t.declaration s
  | .aliasOf target => .ofAlias name target

def docs (s : OutputSettings) : Listing → Documentation
  | .defined t => if s.docs then t.definition.docs else {}
  | .aliasOf _ => {}

theorem declarationText_eq (s : OutputSettings) (name : String) (l : Listing) :
    l.declarationText s name = (l.docs s).comment "" ++ (l.declaration s name).text s := by
  cases l with
  | defined t =>
    rw [declarationText, docs, declaration]
    split <;> rfl
  | aliasOf target =>
    rw [declarationText, docs, declaration]
    exact (String.empty_append).symm

/-- The type of a name mentions what the name depends on. -/
theorem names_declaration_subset (s : OutputSettings) (name : String) (l : Listing) :
    (l.declaration s name).names ⊆ l.dependencies := by
  cases l with
  | defined t =>
    intro x hx
    exact mem_sortedNames.mpr (t.names_declaration_subset s hx)
  | aliasOf target => exact List.Subset.refl _

/-- So does its schema, directly as far as other names are declared further up. -/
theorem mem_mentions_schemaDeclaration {c : OutputContext} {name : String} {recursive : Bool}
    {l : Listing} {m : SchemaMention}
    (h : m ∈ (l.schemaDeclaration c name recursive).schema.mentions) :
    ∃ dep ∈ l.dependencies,
      m = SchemaExpr.mentionOf c (l.schemaDeclaration c name recursive).name dep := by
  cases l with
  | defined t =>
    obtain ⟨dep, hd, hm⟩ := SchemaExpr.mem_mentions_ofDefinition c t.name t.definition.withTags h
    rw [Definition.mentions_withTags] at hd
    exact ⟨dep, mem_sortedNames.mpr hd, hm⟩
  | aliasOf target =>
    have hm : m ∈ (SchemaExpr.mention c name target).mentions := h
    rw [SchemaExpr.mentions_mention] at hm
    exact ⟨target, List.mem_singleton_self _, List.mem_singleton.mp hm⟩

end Registry.Listing

end ApiContract
