import ApiContract.Proofs.CheckedReferences
import ApiContract.Proofs.DerivedTypes

/-!
# References of derived types

Derived types are put together from the definitions of attributes, from references to other derived
types and from definitions that mention no name. Every name that is referred to in this way is
registered in the same run. So all names that derived types mention stand for types, save
those that attributes declare.
-/

namespace ApiContract

/-! ### Definitions put together -/

namespace Definition

/-- A definition mentions a name itself, be it looked up or not: as what it refers to, or as the
type whose values it takes. -/
inductive Names : Definition → String → Prop where
  | target {d : Definition} {name : String} (hk : d.kind = .reference name) : Names d name
  | values {d : Definition} {name : String} (ha : d.allowed = some (.named name)) : Names d name

/-- A definition is a part of another one, right below it. -/
inductive Part : Definition → Definition → Prop where
  | element {d e : Definition} (hk : d.kind = .array (.of e)) : Part e d
  | shapeField {d : Definition} {fields : List Field} {f : Field}
    (hk : d.kind = .array (.shape fields)) (hf : f ∈ fields) : Part f.definition d
  | field {d : Definition} {shape : List Field} {f : Field}
    (hk : d.kind = .object shape) (hf : f ∈ shape) : Part f.definition d
  | variant {d : Definition} {key : Option String} {variants : List Variant} {v : Variant}
    (hk : d.kind = .union key variants) (hv : v ∈ variants) : Part v.definition d

/-- A definition is put together from those of attributes: it describes the values of one of them,
or it mentions only known names itself and its parts are put together likewise. -/
inductive BuiltFrom (attributes : List Attribute) (known : String → Prop) : Definition → Prop where
  | declared {d : Definition} {a : Attribute} (ha : a ∈ attributes)
    (hk : d.kind = a.definition.kind) (hv : d.allowed = a.definition.allowed) :
    BuiltFrom attributes known d
  | node {d : Definition} (names : ∀ x, d.Names x → known x)
    (parts : ∀ e, Part e d → BuiltFrom attributes known e) : BuiltFrom attributes known d

/-- What a shape mentions, one of its fields does. -/
theorem exists_field_of_mem_listMentions {shape : List Field} {x : String}
    (h : x ∈ Field.listMentions shape) : ∃ f ∈ shape, x ∈ f.definition.mentions := by
  induction shape with
  | nil => simp [Field.listMentions] at h
  | cons f rest ih =>
    obtain ⟨name, rename, definition⟩ := f
    rw [Field.listMentions, List.mem_append] at h
    rcases h with h | h
    · exact ⟨_, List.mem_cons_self, h⟩
    · obtain ⟨f, hf, hx⟩ := ih h
      exact ⟨f, List.mem_cons_of_mem _ hf, hx⟩

/-- What a union mentions, one of its variants does. -/
theorem exists_variant_of_mem_listMentions {variants : List Variant} {x : String}
    (h : x ∈ Variant.listMentions variants) : ∃ v ∈ variants, x ∈ v.definition.mentions := by
  induction variants with
  | nil => simp [Variant.listMentions] at h
  | cons v rest ih =>
    obtain ⟨tag, definition⟩ := v
    rw [Variant.listMentions, List.mem_append] at h
    rcases h with h | h
    · exact ⟨_, List.mem_cons_self, h⟩
    · obtain ⟨v, hv, hx⟩ := ih h
      exact ⟨v, List.mem_cons_of_mem _ hv, hx⟩

/-- What a definition mentions it mentions itself, or one of its parts does. -/
theorem names_or_part_of_mem_mentions {d : Definition} {x : String} (h : x ∈ d.mentions) :
    d.Names x ∨ ∃ e, Part e d ∧ x ∈ e.mentions := by
  rw [mentions_eq, List.mem_append] at h
  rcases h with h | h
  · cases ha : d.allowed with
    | none => simp [ha] at h
    | some allowed =>
      cases allowed with
      | inline values => simp [ha] at h
      | named name =>
        obtain rfl : x = name := by simpa [ha] using h
        exact .inl (.values ha)
  · cases hk : d.kind with
    | scalar kind => simp [hk, Kind.mentions] at h
    | literal value => simp [hk, Kind.mentions] at h
    | reference target =>
      obtain rfl : x = target := by simpa [hk, Kind.mentions] using h
      exact .inl (.target hk)
    | array items =>
      cases items with
      | of element =>
        have below : x ∈ element.mentions := by simpa [hk, Kind.mentions, Items.mentions] using h
        exact .inr ⟨element, .element hk, below⟩
      | shape fields =>
        have below : x ∈ Field.listMentions fields := by
          simpa [hk, Kind.mentions, Items.mentions] using h
        obtain ⟨f, hf, hx⟩ := exists_field_of_mem_listMentions below
        exact .inr ⟨_, .shapeField hk hf, hx⟩
    | object shape =>
      have below : x ∈ Field.listMentions shape := by simpa [hk, Kind.mentions] using h
      obtain ⟨f, hf, hx⟩ := exists_field_of_mem_listMentions below
      exact .inr ⟨_, .field hk hf, hx⟩
    | union key variants =>
      have below : x ∈ Variant.listMentions variants := by simpa [hk, Kind.mentions] using h
      obtain ⟨v, hv, hx⟩ := exists_variant_of_mem_listMentions below
      exact .inr ⟨_, .variant hk hv, hx⟩

namespace BuiltFrom

variable {attributes : List Attribute} {known known' : String → Prop} {d e : Definition}

theorem mono (h : d.BuiltFrom attributes known) (more : ∀ x, known x → known' x) :
    d.BuiltFrom attributes known' := by
  induction h with
  | declared ha hk hv => exact .declared ha hk hv
  | node names _ ih => exact .node (fun x hx => more x (names x hx)) ih

/-- A definition that is put together from others mentions known names and those that they do. -/
theorem mem_mentions (h : d.BuiltFrom attributes known) {x : String} (hx : x ∈ d.mentions) :
    known x ∨ ∃ a ∈ attributes, x ∈ a.definition.mentions := by
  induction h with
  | @declared d a ha hk hv =>
    rw [mentions_eq, hk, hv, ← mentions_eq] at hx
    exact .inr ⟨a, ha, hx⟩
  | node names _ ih =>
    rcases names_or_part_of_mem_mentions hx with here | ⟨e, part, below⟩
    · exact .inl (names x here)
    · exact ih e part below

/-- Only the kind of a definition and the values it allows matter. -/
theorem congr (h : d.BuiltFrom attributes known) (hk : e.kind = d.kind)
    (hv : e.allowed = d.allowed) : e.BuiltFrom attributes known := by
  cases h with
  | declared ha hk' hv' => exact .declared ha (hk.trans hk') (hv.trans hv')
  | node names parts =>
    refine .node (fun x hx => names x ?_) fun f hf => parts f ?_
    · cases hx with
      | target h => exact .target (hk ▸ h)
      | values h => exact .values (hv ▸ h)
    · cases hf with
      | element h => exact .element (hk ▸ h)
      | shapeField h hf => exact .shapeField (hk ▸ h) hf
      | field h hf => exact .field (hk ▸ h) hf
      | variant h hv => exact .variant (hk ▸ h) hv

/-- A definition that is no reference and allows every value mentions no name itself. -/
theorem not_names (hk : d.kind.isReference = false) (hv : d.allowed = none) (x : String) :
    ¬ d.Names x := by
  rintro (h | h)
  · simp [h, Kind.isReference] at hk
  · simp [h] at hv

theorem scalar {kind : ScalarKind} (hk : d.kind = .scalar kind)
    (hv : ∀ name, d.allowed ≠ some (.named name)) : d.BuiltFrom attributes known := by
  refine .node (fun x hx => ?_) fun e he => ?_
  · cases hx with
    | target h => simp [hk] at h
    | values h => exact absurd h (hv x)
  · cases he <;> simp_all

theorem literal (value : Json) : (Definition.literal value).BuiltFrom attributes known := by
  refine .node (fun x hx => absurd hx (not_names rfl rfl x)) fun e he => ?_
  cases he with
  | element h | shapeField h | field h | variant h => cases h

/-- A reference to a known name is built from known names. -/
theorem reference {name : String} (h : known name) :
    (Definition.reference name).BuiltFrom attributes known := by
  refine .node (fun x hx => ?_) fun e he => ?_
  · cases hx with
    | target hk =>
      cases hk
      exact h
    | values h => cases h
  · cases he with
    | element h | shapeField h | field h | variant h => cases h

theorem arrayOf (h : d.BuiltFrom attributes known) :
    (Definition.arrayOf d).BuiltFrom attributes known := by
  refine .node (fun x hx => absurd hx (not_names rfl rfl x)) fun e he => ?_
  cases he with
  | element hk =>
    cases hk
    exact h
  | shapeField h | field h | variant h => cases h

theorem object {shape : List Field} (h : ∀ f ∈ shape, f.definition.BuiltFrom attributes known) :
    (Definition.object shape).BuiltFrom attributes known := by
  refine .node (fun x hx => absurd hx (not_names rfl rfl x)) fun e he => ?_
  cases he with
  | field hk hf =>
    cases hk
    exact h _ hf
  | element h | shapeField h | variant h => cases h

theorem taggedUnion {key : String} {variants : List Variant}
    (h : ∀ v ∈ variants, v.definition.BuiltFrom attributes known) :
    (Definition.taggedUnion key variants).BuiltFrom attributes known := by
  refine .node (fun x hx => absurd hx (not_names rfl rfl x)) fun e he => ?_
  cases he with
  | variant hk hv =>
    cases hk
    exact h _ hv
  | element h | shapeField h | field h => cases h

end BuiltFrom

end Definition

/-! ### Catalogs -/

namespace Catalog

variable {catalog : Catalog} {scope : Scope} {r : Resource} {a : Association}

/-- The attributes that resources and their variants declare. -/
def attributes (catalog : Catalog) : List Attribute :=
  (Keyed.values catalog).flatMap fun r => r.attributes ++ r.variants.flatMap (·.attributes)

def Knows (catalog : Catalog) (scope : Scope) (name : String) : Prop :=
  ∃ s t, catalog.Derives scope s t ∧ t.name = name

/-- A definition is put together from what attributes declare, and it refers to derived types. -/
def Builds (catalog : Catalog) (scope : Scope) (d : Definition) : Prop :=
  d.BuiltFrom catalog.attributes (catalog.Knows scope)

theorem knows (hr : r ∈ Keyed.values catalog) {s : Scope} {t : NamedType}
    (h : r.Derives catalog scope s t) : catalog.Knows scope t.name := ⟨s, t, ⟨r, hr, h⟩, rfl⟩

theorem mem_values_of_get? {name : String} (h : Keyed.get? catalog name = some r) :
    r ∈ Keyed.values catalog := List.mem_map_of_mem (Keyed.mem_of_get? h)

/-- A target that is found is a resource of the catalog. -/
theorem mem_values_of_target? (h : catalog.target? a = some r) : r ∈ Keyed.values catalog := by
  rw [target?] at h
  split at h
  · rename_i resource _
    cases hd : resource >>= fun name => Keyed.get? catalog name with
    | none =>
      rw [hd] at h
      exact mem_values_of_get? h
    | some named =>
      rw [hd] at h
      cases h
      obtain ⟨name, -, found⟩ := Option.bind_eq_some_iff.mp hd
      exact mem_values_of_get? found
  · exact mem_values_of_get? h
  · cases h

theorem mem_values_of_targets? {targets : List (String × Resource)}
    (h : catalog.targets? a = some targets) {p : String × Resource} (hp : p ∈ targets) :
    p.2 ∈ Keyed.values catalog := by
  rw [targets?] at h
  split at h
  · obtain ⟨q, -, found⟩ := exists_of_mem_mapM h hp
    obtain ⟨target, ht, rfl⟩ := Option.map_eq_some_iff.mp found
    exact mem_values_of_get? ht
  · cases h

/-! ### What resources declare -/

theorem mem_attributes (hr : r ∈ Keyed.values catalog) {attr : Attribute}
    (ha : attr ∈ r.attributes) : attr ∈ catalog.attributes :=
  List.mem_flatMap.mpr ⟨r, hr, List.mem_append_left _ ha⟩

theorem mem_attributes_of_variant (hr : r ∈ Keyed.values catalog) {v : ResourceVariant}
    (hv : v ∈ r.variants) {attr : Attribute} (ha : attr ∈ v.attributes) :
    attr ∈ catalog.attributes :=
  List.mem_flatMap.mpr ⟨r, hr, List.mem_append_right _ (List.mem_flatMap_of_mem hv ha)⟩

theorem builds_readDefinition {attr : Attribute} (h : attr ∈ catalog.attributes) :
    catalog.Builds scope attr.readDefinition := .declared h rfl rfl

theorem builds_writeDefinition {attr : Attribute} (h : attr ∈ catalog.attributes)
    (context : WriteContext) : catalog.Builds scope (attr.writeDefinition context) := by
  rw [Attribute.writeDefinition]
  split <;> exact .declared h rfl rfl

theorem builds_idDefinition (hr : r ∈ Keyed.values catalog) :
    catalog.Builds scope r.idDefinition := by
  rw [Resource.idDefinition]
  split
  · rename_i attr found
    exact .declared (mem_attributes hr (List.mem_of_find?_eq_some found)) rfl rfl
  · exact .scalar rfl nofun

theorem builds_enumeration (values : List String) :
    catalog.Builds scope (.enumeration values) := .scalar rfl nofun

/-! ### What is read -/

theorem builds_union {α : Type} {key : String} {xs : List α} {tag name : α → String}
    (h : ∀ x ∈ xs, catalog.Knows scope (name x)) :
    catalog.Builds scope (.taggedUnion key (xs.map fun x => .naming (tag x) (name x))) := by
  refine .taggedUnion fun v hv => ?_
  obtain ⟨x, hx, rfl⟩ := List.mem_map.mp hv
  exact .reference (h x hx)

/-- What an association is read as refers to derived types only. -/
theorem builds_readTarget? (hr : r ∈ Keyed.values catalog) (ha : a ∈ r.associations)
    {d : Definition} (h : a.readTarget? catalog = some d) : catalog.Builds scope d := by
  have single (h : (catalog.target? a).map (fun target => Definition.reference target.name) =
      some d) : catalog.Builds scope d := by
    obtain ⟨target, ht, rfl⟩ := Option.map_eq_some_iff.mp h
    exact .reference (knows (mem_values_of_target? ht) .record)
  rw [Association.readTarget?] at h
  split at h
  · obtain ⟨targets, ht, rfl⟩ := Option.map_eq_some_iff.mp h
    refine builds_union fun p hp => ?_
    have form : a.form p.1 p.2 ∈ a.forms catalog := by
      rw [Association.forms, ht]
      exact List.mem_map_of_mem hp
    exact knows hr (.form ha form)
  · obtain ⟨target, ht, h⟩ := Option.bind_eq_some_iff.mp h
    obtain ⟨variants, hv, h⟩ := Option.bind_eq_some_iff.mp h
    cases h
    refine .taggedUnion fun w hw => ?_
    obtain ⟨tag, -, found⟩ := exists_of_mem_mapM hv hw
    obtain ⟨v, hv, rfl⟩ := Option.map_eq_some_iff.mp found
    exact .reference (knows (mem_values_of_target? ht) (.variant (List.mem_of_find?_eq_some hv)))
  · exact single h

theorem builds_readField {d : Definition} (h : catalog.Builds scope d) (a : Association) :
    catalog.Builds scope (a.readField d).definition := by
  rw [Association.readField]
  split
  · exact h.arrayOf.congr rfl rfl
  · exact h.congr rfl rfl

theorem builds_readFields (hr : r ∈ Keyed.values catalog) {f : Field}
    (hf : f ∈ r.readFields catalog) : catalog.Builds scope f.definition := by
  rw [Resource.readFields, List.mem_append] at hf
  rcases hf with hf | hf
  · obtain ⟨attr, ha, rfl⟩ := List.mem_map.mp hf
    exact builds_readDefinition (mem_attributes hr ha)
  · obtain ⟨a, ha, found⟩ := List.mem_filterMap.mp hf
    obtain ⟨d, hd, rfl⟩ := Option.map_eq_some_iff.mp found
    exact builds_readField (builds_readTarget? hr ha hd) a

/-- The form of a target refers to the record of the target. -/
theorem builds_form {t : NamedType} (ht : t ∈ a.forms catalog) :
    catalog.Builds scope t.definition := by
  rw [Association.forms] at ht
  cases hs : catalog.targets? a with
  | none => simp [hs] at ht
  | some targets =>
    rw [hs] at ht
    obtain ⟨p, hp, rfl⟩ := List.mem_map.mp ht
    refine .object fun f hf => ?_
    rcases List.mem_cons.mp hf with rfl | hf
    · exact .literal _
    · obtain ⟨attr, hattr, rfl⟩ := List.mem_map.mp hf
      exact builds_readDefinition
        (mem_attributes (mem_values_of_targets? hs hp) (List.mem_of_mem_filter hattr))

theorem builds_variantType (hr : r ∈ Keyed.values catalog) {v : ResourceVariant}
    (hv : v ∈ r.variants) : catalog.Builds scope (r.variantType catalog v).definition := by
  refine .object fun f hf => ?_
  rcases List.mem_append.mp hf with hf | hf
  · rcases List.mem_cons.mp hf with rfl | hf
    · exact .literal _
    · exact builds_readFields hr (List.mem_of_mem_filter hf)
  · obtain ⟨attr, ha, rfl⟩ := List.mem_map.mp hf
    exact builds_readDefinition (mem_attributes_of_variant hr hv ha)

/-- Records are built from attributes and from what their associations are read as. -/
theorem builds_recordType (hr : r ∈ Keyed.values catalog) :
    catalog.Builds scope (r.recordType catalog).definition := by
  rw [Resource.recordType]
  split
  · have fields : catalog.Builds scope (.object (r.readFields catalog)) :=
      .object fun f hf => builds_readFields hr hf
    exact fields.congr rfl rfl
  · have union : catalog.Builds scope
        (.taggedUnion r.discriminator (r.variants.map fun v => .naming v.tag v.name)) :=
      builds_union fun v hv => knows hr (.variant hv)
    exact union.congr rfl rfl

/-! ### What is written -/

/-- An id and a tag refer to nothing but what attributes mention. -/
theorem builds_tagFields {targets : List (String × Resource)}
    (ht : catalog.targets? a = some targets) (resources : Keyed String) (optional : Bool)
    {f : Field} (hf : f ∈ a.tagFields resources targets optional) :
    catalog.Builds scope f.definition := by
  simp only [Association.tagFields, List.mem_cons, List.not_mem_nil, or_false] at hf
  rcases hf with rfl | rfl
  · cases targets with
    | nil => exact .scalar rfl nofun
    | cons p rest =>
      exact (builds_idDefinition (mem_values_of_targets? ht List.mem_cons_self)).congr rfl rfl
  · exact (builds_enumeration resources.keys).congr rfl rfl

theorem builds_idField {target : Resource} (ht : target ∈ Keyed.values catalog)
    (optional : Bool) : catalog.Builds scope (a.idField target optional).definition := by
  rw [Association.idField]
  split
  · exact (builds_idDefinition ht).arrayOf.congr rfl rfl
  · exact (builds_idDefinition ht).congr rfl rfl

/-- A nested record is written by the operation or the payload of its target. -/
theorem builds_recordField {target : Resource} (ht : target ∈ Keyed.values catalog)
    (accepts : target.acceptsNestedWrites = true) (context : WriteContext) (optional : Bool) :
    catalog.Builds scope (a.recordField context target optional).definition := by
  have operation : catalog.Builds scope (.reference target.nestedOperationName) :=
    .reference (knows ht (.nestedOperation accepts))
  have payload (context : WriteContext) :
      catalog.Builds scope (.reference (target.payloadName context)) :=
    .reference (knows ht (.payload context))
  rw [Association.recordField.eq_def]
  split
  · exact operation.arrayOf.congr rfl rfl
  · cases context with
    | create => exact (payload .create).congr rfl rfl
    | update => exact (payload .update).congr rfl rfl

/-- Whatever way an association is written, its fields refer to derived types. -/
theorem builds_written {context : WriteContext} {fields : List Field}
    (h : a.written catalog r context = .ok fields) {f : Field} (hf : f ∈ fields) :
    catalog.Builds scope f.definition := by
  rw [Association.written] at h
  -- what cannot be written has no fields, so that the target is there in each case that is left
  split at h
  · rw [Association.writtenTagged] at h
    split at h
    · cases h
    · split at h
      · cases h
      · rename_i targets ht
        cases h
        exact builds_tagFields ht _ _ hf
  · split at h
    · cases h
    · rename_i target ht
      rw [Association.writtenSingle] at h
      split at h
      · cases h
        obtain rfl := List.mem_singleton.mp hf
        exact builds_idField (mem_values_of_target? ht) _
      · split at h
        · cases h
        · rename_i accepts
          cases h
          obtain rfl := List.mem_singleton.mp hf
          exact builds_recordField (mem_values_of_target? ht) (by simpa using accepts) context _

/-- So the fields of a write refer to derived types. -/
theorem builds_writtenFields (hr : r ∈ Keyed.values catalog) {context : WriteContext} {f : Field}
    (hf : f ∈ r.writtenFields catalog context) : catalog.Builds scope f.definition := by
  rw [Resource.writtenFields, List.mem_append] at hf
  rcases hf with hf | hf
  · obtain ⟨attr, ha, rfl⟩ := List.mem_map.mp hf
    exact builds_writeDefinition (mem_attributes hr (List.mem_of_mem_filter ha)) context
  · obtain ⟨a, -, hf⟩ := List.mem_flatMap.mp hf
    cases h : a.written catalog r context with
    | ok fields =>
      rw [h] at hf
      exact builds_written h hf
    | error e =>
      rw [h] at hf
      cases hf

/-- The operations of a resource are built from the fields of its writes. -/
theorem builds_nestedOperationType (hr : r ∈ Keyed.values catalog) :
    catalog.Builds scope (r.nestedOperationType catalog).definition := by
  have operation (tag : String) : catalog.Builds scope (.literal (.string tag)) := .literal _
  have id : catalog.Builds scope r.idDefinition := builds_idDefinition hr
  have others (context : WriteContext) :
      ∀ f ∈ (r.writtenFields catalog context).filter (·.name != "id"),
        catalog.Builds scope f.definition :=
    fun f hf => builds_writtenFields hr (List.mem_of_mem_filter hf)
  refine .taggedUnion fun v hv => ?_
  simp only [List.mem_cons, List.not_mem_nil, or_false] at hv
  rcases hv with rfl | rfl | rfl
  · exact .object (List.forall_mem_cons.mpr ⟨operation _, others .create⟩)
  · exact .object (List.forall_mem_cons.mpr
      ⟨operation _, List.forall_mem_cons.mpr ⟨id, others .update⟩⟩)
  · exact .object (List.forall_mem_cons.mpr ⟨operation _, List.forall_mem_singleton.mpr id⟩)

/-! ### Filters, orders and responses -/

/-- A filter refers to itself only. -/
theorem builds_filterType (hr : r ∈ Keyed.values catalog) (nonempty : r.filterable ≠ []) :
    catalog.Builds scope r.filterType.definition := by
  have this : catalog.Builds scope (.reference r.filterName) :=
    .reference (knows hr (.filter nonempty))
  refine .object fun f hf => ?_
  rcases List.mem_append.mp hf with hf | hf
  · obtain ⟨attr, ha, rfl⟩ := List.mem_map.mp hf
    exact .declared (mem_attributes hr (List.mem_of_mem_filter ha)) rfl rfl
  · simp only [List.mem_cons, List.not_mem_nil, or_false] at hf
    rcases hf with rfl | rfl | rfl
    · exact this.arrayOf.congr rfl rfl
    · exact this.arrayOf.congr rfl rfl
    · exact this.congr rfl rfl

theorem builds_sortType (hr : r ∈ Keyed.values catalog) (nonempty : r.sortable ≠ []) :
    catalog.Builds scope r.sortType.definition := by
  have direction : catalog.Builds scope (.reference Resource.sortDirectionName) :=
    .reference (knows hr (.sortDirection nonempty))
  refine .object (List.forall_mem_cons.mpr ⟨.reference (knows hr (.sortField nonempty)), ?_⟩)
  exact List.forall_mem_singleton.mpr (direction.congr rfl rfl)

theorem builds_paginationMetaType :
    catalog.Builds scope Resource.paginationMetaType.definition := by
  have number (least : Nat) : catalog.Builds scope (Resource.atLeast least) := .scalar rfl nofun
  refine .object fun f hf => ?_
  simp only [List.mem_cons, List.not_mem_nil, or_false] at hf
  rcases hf with rfl | rfl | rfl | rfl | rfl
  · exact number 1
  · exact (number 1).congr rfl rfl
  · exact (number 1).congr rfl rfl
  · exact number 0
  · exact number 0

theorem builds_collectionResponseType (hr : r ∈ Keyed.values catalog) :
    catalog.Builds scope r.collectionResponseType.definition := by
  have record : catalog.Builds scope (.reference r.name) := .reference (knows hr .record)
  refine .object (List.forall_mem_cons.mpr ⟨record.arrayOf, List.forall_mem_singleton.mpr ?_⟩)
  exact .reference (knows hr .paginationMeta)

/-- Every derived type is put together from what attributes declare and refers to derived types. -/
theorem Derives.builds {s : Scope} {t : NamedType} (h : catalog.Derives scope s t) :
    catalog.Builds scope t.definition := by
  obtain ⟨r, hr, derived⟩ := h
  cases derived with
  | form ha ht => exact builds_form ht
  | variant hv => exact builds_variantType hr hv
  | record => exact builds_recordType hr
  | payload context => exact .object fun f hf => builds_writtenFields hr hf
  | nestedOperation => exact builds_nestedOperationType hr
  | filter nonempty => exact builds_filterType hr nonempty
  | sortDirection => exact builds_enumeration _
  | sortField => exact builds_enumeration _
  | sort nonempty => exact builds_sortType hr nonempty
  | paginationMeta => exact builds_paginationMetaType
  | response => exact .object (List.forall_mem_singleton.mpr (.reference (knows hr .record)))
  | collectionResponse => exact builds_collectionResponseType hr

end Catalog

/-! ### Loading without an error -/

namespace Registry

variable {r : Registry}

def AllDefined (r : Registry) : Prop :=
  ∀ s n e, r.entry? s n = some e → ∃ t, e = .defined t

/-- Where every entry is a type, a name that is seen stands for one. -/
theorem AllDefined.resolves (h : r.AllDefined) {scope : Scope} {name : String}
    (seen : r.contains scope name = true) : r.Resolves scope name := by
  obtain ⟨found, e, hl⟩ := contains_iff.mp seen
  obtain ⟨t, rfl⟩ := h found name e (entry_of_lookup hl)
  refine ⟨t, ?_⟩
  rw [resolve, maxHops, resolveWithin, hl]

end Registry

namespace Catalog

variable {catalog : Catalog} {scope : Scope} {r : Registry}

/-- Derived types are registered in scopes that are seen from the one loaded into. -/
theorem Derives.mem_chain {s : Scope} {t : NamedType} (h : catalog.Derives scope s t) :
    s ∈ scope.chain := by
  have own : scope ∈ scope.chain := by
    rw [Scope.chain_eq]
    exact List.mem_cons_self
  have outer : Scope.global ∈ scope.chain := by cases scope <;> simp [Scope.chain]
  obtain ⟨_, -, derived⟩ := h
  cases derived <;> assumption

/-- What an entry is after loading into an empty registry without an error. -/
theorem derives_of_entry (h : LoadStep.run .raise (catalog.steps scope) .empty = (.ok (), r))
    {s : Scope} {n : String} {e : Entry} (he : r.entry? s n = some e) :
    ∃ t, catalog.Derives scope s t ∧ t.name = n ∧ e = .defined t := by
  rcases LoadStep.entry_of_run h he with before | ⟨t, ht, found⟩
  · cases before
  · exact ⟨t, (catalog.mem_types_iff scope s t).mp ht, found⟩

/-- After loading into an empty registry without an error, derived names stand for types. -/
theorem Knows.resolves (h : LoadStep.run .raise (catalog.steps scope) .empty = (.ok (), r))
    {name : String} (known : catalog.Knows scope name) : r.Resolves scope name := by
  have defined : r.AllDefined := by
    intro s n e he
    obtain ⟨t, -, -, ht⟩ := derives_of_entry h he
    exact ⟨t, ht⟩
  obtain ⟨s, t, derived, rfl⟩ := known
  obtain ⟨t', here, -⟩ := LoadStep.defined_of_run h ((catalog.mem_types_iff scope s t).mpr derived)
  exact defined.resolves (Registry.contains_iff_entry.mpr ⟨s, derived.mem_chain, _, here⟩)

end Catalog

/-- Where a catalog is loaded into an empty registry without an error, every entry is a type that is
put together from what attributes declare, and otherwise refers to names that stand for types of the
same run. So each name it mentions stands for a type or is mentioned by an attribute. -/
theorem registerAll_closed (catalog : Catalog) (scope : Scope) (r : Registry)
    (loaded : (catalog.registerAll scope).runOn .raise .empty = (.ok (), r)) (s : Scope)
    (n : String) (e : Entry) (he : r.entry? s n = some e) :
    ∃ t, e = .defined t ∧ catalog.Derives scope s t ∧
      t.definition.BuiltFrom catalog.attributes (r.Resolves scope) ∧
      ∀ x ∈ t.definition.references, r.Resolves scope x ∨
        ∃ a ∈ catalog.attributes, x ∈ a.definition.references := by
  rw [(catalog.follows_registerAll scope).runOn_eq] at loaded
  obtain ⟨t, derived, -, ht⟩ := Catalog.derives_of_entry loaded he
  have built := derived.builds.mono fun x hx => Catalog.Knows.resolves loaded hx
  refine ⟨t, ht, derived, built, fun x hx => ?_⟩
  rcases built.mem_mentions (mem_sortedNames.mp hx) with resolved | ⟨a, ha, mentioned⟩
  · exact .inl resolved
  · exact .inr ⟨a, ha, mem_sortedNames.mpr mentioned⟩

def library : Catalog :=
  [("Copy",
    { name := "Copy"
      attributes := [
        { name := "branch", definition := .reference "Branch", writable := .flag true }]
      acceptsNestedWrites := true }),
    ("Loan",
    { name := "Loan"
      attributes := [{ name := "due", definition := .scalar .date, filterable := true }]
      associations := [
        { name := "copies", cardinality := .many, target := .direct (some "Copy"),
          writable := .flag true, nested := true },
        { name := "borrower", cardinality := .one,
          target := .polymorphic [("reader", "Reader"), ("school", "School")] }] }),
    ("Reader", { name := "Reader" }),
    ("School", { name := "School" })]

def libraryTypes : Registry :=
  ((library.registerAll (.api "library")).runOn .raise .empty).2

/-- The types that a loan refers to are derived with it. -/
theorem library_closed :
    (library.registerAll (.api "library")).runOn .raise .empty = (.ok (), libraryTypes) ∧
      ∃ t, libraryTypes.entry? (.api "library") "Loan" = some (.defined t) ∧
        t.definition.references = ["BorrowerReader", "BorrowerSchool", "Copy"] ∧
        libraryTypes.Resolves (.api "library") "BorrowerSchool" := by
  obtain ⟨outcome, mentions⟩ :
      ((library.registerAll (.api "library")).runOn .raise .empty).1.isOk = true ∧
      ((libraryTypes.entry? (.api "library") "Loan").map fun
        | .defined t => t.definition.references
        | _ => []) = some ["BorrowerReader", "BorrowerSchool", "Copy"] := by decide +kernel
  have loaded : (library.registerAll (.api "library")).runOn .raise .empty =
      (.ok (), libraryTypes) := by
    rw [libraryTypes]
    cases h : (library.registerAll (.api "library")).runOn .raise .empty with
    | mk result r =>
      rw [h] at outcome
      cases result with
      | ok _ => rfl
      | error e => cases outcome
  cases he : libraryTypes.entry? (.api "library") "Loan" with
  | none => simp [he] at mentions
  | some e =>
    obtain ⟨t, rfl, -, -, closed⟩ :=
      registerAll_closed library (.api "library") libraryTypes loaded (.api "library") "Loan" e he
    have references : t.definition.references = ["BorrowerReader", "BorrowerSchool", "Copy"] := by
      simpa [he] using mentions
    refine ⟨loaded, t, rfl, references, ?_⟩
    rcases closed "BorrowerSchool" (by simp [references]) with resolved | ⟨a, ha, hx⟩
    · exact resolved
    · have none : ∀ a ∈ library.attributes, "BorrowerSchool" ∉ a.definition.references := by
        decide +kernel
      exact absurd hx (none a ha)

end ApiContract
