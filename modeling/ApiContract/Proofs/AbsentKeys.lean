import ApiContract.Proofs.IssuePlacement
import ApiContract.Proofs.RenderedParts
import ApiContract.Proofs.SchemaPointers

/-!
# Keys that may be missing

The generated schemas and types go by whether a field is optional, for they describe values with
all their parts. The server goes by its default as well, and fills it in where the key is missing.
So the three agree about every field that has no default or is optional; a field with a default that
is not optional may be missing from a payload and from nothing else.
-/

namespace ApiContract

open Validation

/-! ### What is told about a key -/

def OpenApi.Requires (schema : Json) (key : String) : Prop :=
  ∃ keys, schema.get? "required" = some (.array keys) ∧ .string key ∈ keys

/-- The members of a type of objects, which may be `null` as well. -/
def TypeExpr.members : TypeExpr → List TypeMember
  | record members | orNull (record members) => members
  | _ => []

def TypeDeclaration.type : TypeDeclaration → TypeExpr
  | equation _ type => type
  | interface _ members => .record members

/-- A type of objects has a key that is marked as optional. -/
def TypeExpr.MarksOptional (type : TypeExpr) (key : String) : Prop :=
  ∃ m ∈ type.members, m.key = key ∧ m.optional = true

def ReportsMissing (issues : List Issue) (path : Path) : Prop :=
  ∃ i ∈ issues, i.code = .required ∧ i.path = path

/-- A schema, a type and the issues about an object that lacks a key agree about the field that the
key is for, unless the field has a default and is not optional: then the key is demanded of values
and not of payloads. -/
structure AgreesOnAbsence (schema : Json) (type : TypeExpr) (issues : List Issue) (path : Path)
    (key : String) (f : Field) : Prop where
  has_key : ∃ m ∈ type.members, m.key = key
  listed : f.definition.optional = true ∨ f.definition.default? = none →
    (OpenApi.Requires schema key ↔ ReportsMissing issues (path ++ [.key key]))
  marked : f.definition.optional = true ∨ f.definition.default? = none →
    (type.MarksOptional key ↔ ¬ ReportsMissing issues (path ++ [.key key]))
  filled : f.definition.optional = false → f.definition.default?.isSome →
    OpenApi.Requires schema key ∧ ¬ type.MarksOptional key ∧
      ¬ ReportsMissing issues (path ++ [.key key])

/-! ### Schemas -/

namespace OpenApi

variable {s : OutputSettings} {shape : List Field} {schema schema' : Keyed Json} {key : String}

theorem requires_congr
    (same : Keyed.get? schema' "required" = Keyed.get? schema "required") :
    Requires (.object schema') key ↔ Requires (.object schema) key := by
  simp only [Requires, Json.get?_object, same]

theorem requires_ofProperties (properties : List (String × Json)) (required : List String) :
    Requires (.object (ofProperties properties required)) key ↔ key ∈ required := by
  cases required with
  | nil => simp [Requires, ofProperties]
  | cons first rest => simp [Requires, ofProperties]

/-- Exactly the keys of fields that may not be left out are required. -/
theorem mem_required {f : Field} (distinct : (shape.map (Field.wireName s.keyCase)).Nodup)
    (hf : f ∈ shape) : f.wireName s.keyCase ∈ required s shape ↔ f.definition.optional = false := by
  rw [required_eq, List.mem_map]
  constructor
  · rintro ⟨g, hg, same⟩
    obtain ⟨hg, kept⟩ := List.mem_filter.mp hg
    obtain rfl := List.inj_on_of_nodup_map distinct hg hf same
    simpa using kept
  · intro kept
    exact ⟨f, List.mem_filter.mpr ⟨hf, by simpa using kept⟩, rfl⟩

/-- `null` and annotations leave alone what is required of an object. -/
theorem requires_ofDefinition {d : Definition} (hk : d.kind = .object shape) :
    Requires (ofDefinition s d) key ↔ key ∈ required s shape := by
  obtain ⟨kind, nullable, optional, format, min, max, allowed, default?, decode, encode, docs⟩ := d
  cases hk
  rw [ofDefinition, ofKind, ← requires_ofProperties (properties s shape)]
  apply requires_congr
  rw [get?_finish s nullable default? docs (by decide)]
  cases nullable with
  | false => rfl
  | true =>
    have typed : Keyed.get? (ofProperties (properties s shape) (required s shape)) "type" =
        some (.string "object") := by simp [ofProperties]
    exact get?_allowNull_of_typed typed (by decide) (by decide)

end OpenApi

/-! ### Types -/

namespace TypeExpr

variable {s : OutputSettings} {shape : List Field}

theorem members_ofDefinition {d : Definition} (hk : d.kind = .object shape) :
    (ofDefinition s d).members = ofFields s shape := by
  obtain ⟨kind, nullable, optional, format, min, max, allowed, default?, decode, encode, docs⟩ := d
  cases hk
  rw [ofDefinition, ofKind]
  cases nullable <;> rfl

theorem mem_ofFields {f : Field} (hf : f ∈ shape) : ofField s f ∈ ofFields s shape := by
  rw [ofFields_eq]
  exact List.mem_map_of_mem hf

/-- Exactly the keys of fields that may be left out are marked. -/
theorem marksOptional_iff {type : TypeExpr} (hm : type.members = ofFields s shape) {f : Field}
    (distinct : (shape.map (Field.wireName s.keyCase)).Nodup) (hf : f ∈ shape) :
    type.MarksOptional (f.wireName s.keyCase) ↔ f.definition.optional = true := by
  rw [MarksOptional, hm]
  constructor
  · rintro ⟨m, hm, same, marked⟩
    rw [ofFields_eq] at hm
    obtain ⟨g, hg, rfl⟩ := List.mem_map.mp hm
    obtain rfl := List.inj_on_of_nodup_map distinct hg hf same
    exact marked
  · intro marked
    exact ⟨_, mem_ofFields hf, rfl, marked⟩

end TypeExpr

/-! ### The server -/

namespace Validation

variable {next : Judge} {case : KeyCase} {path : Path} {shape : List Field}
  {members : Keyed Json}

/-- What is wrong with a field is wrong at its key or below. -/
theorem path_of_mem_field (hn : Placed next) {f : Field} {i : Issue}
    (hi : i ∈ (field case next path members f).issues) :
    ∃ rest, i.path = path ++ .key (f.wireName case) :: rest := by
  cases present : members.get? (f.wireName case) with
  | some j =>
    simp only [field, present] at hi
    rw [hn.at_path] at hi
    obtain ⟨i, -, rfl⟩ := List.mem_map.mp hi
    exact ⟨i.path, by simp⟩
  | none =>
    cases hd : f.definition.default? with
    | some j => simp [field, present, hd] at hi
    | none =>
      simp only [field, present, hd] at hi
      split at hi
      · cases hi
      · obtain rfl := List.mem_singleton.mp hi
        exact ⟨[], rfl⟩

/-- A key is reported missing just where its field has no default and is not optional. -/
theorem reportsMissing_object (hn : Placed next) {f : Field}
    (distinct : (shape.map (Field.wireName case)).Nodup) (hf : f ∈ shape)
    (lacks : members.get? (f.wireName case) = none) :
    ReportsMissing (object case next path shape (.object members)).issues
        (path ++ [.key (f.wireName case)]) ↔
      f.definition.optional = false ∧ f.definition.default? = none := by
  simp only [object, List.flatMap_map]
  constructor
  · rintro ⟨i, hi, code, place⟩
    rcases List.mem_append.mp hi with hi | hi
    · obtain ⟨g, hg, hi⟩ := List.mem_flatMap.mp hi
      obtain ⟨rest, at_key⟩ := path_of_mem_field hn hi
      have same : g.wireName case = f.wireName case := by
        rw [at_key, List.append_cancel_left_eq] at place
        simpa using (List.cons.inj place).1
      obtain rfl := List.inj_on_of_nodup_map distinct hg hf same
      simp only [field, lacks] at hi
      cases hd : g.definition.default? with
      | some j => simp [hd] at hi
      | none => cases ho : g.definition.optional <;> simp [hd, ho] at hi ⊢
    · obtain ⟨key, -, rfl⟩ := List.mem_map.mp hi
      cases code
  · rintro ⟨kept, bare⟩
    refine ⟨.required (path ++ [.key (f.wireName case)]), ?_, rfl, rfl⟩
    refine List.mem_append_left _ (List.mem_flatMap.mpr ⟨f, hf, ?_⟩)
    simp [field, lacks, kept, bare]

theorem judge_object {c : Context} {levels : Nat} {d : Definition}
    (hk : d.kind = .object shape) :
    judge c (levels + 1) path d (.object members) =
      object c.case (judge c levels) path shape (.object members) := by
  simp [judge_succ, step, Json.isNull, hk]

/-- The verdict of an object is told under the path where it stands. -/
theorem path_of_mem_object (hn : Placed next) {j : Json} {i : Issue}
    (hi : i ∈ (object case next path shape j).issues) : ∃ rest, i.path = path ++ rest := by
  have moved := object_under case hn path [] shape j
  rw [List.append_nil] at moved
  rw [moved] at hi
  obtain ⟨i, -, rfl⟩ := List.mem_map.mp hi
  exact ⟨i.path, rfl⟩

theorem code_of_mem_countIssues {d : Definition} {count : Nat} {i : Issue}
    (hi : i ∈ countIssues path d count) : i.code = .valueInvalid := by
  simp only [countIssues, boundIssues, List.mem_append, Option.mem_toList,
    Option.map_eq_some_iff] at hi
  rcases hi with ⟨x, -, rfl⟩ | ⟨x, -, rfl⟩ <;> rfl

/-- An array reports a key missing from an element if the element does. -/
theorem reportsMissing_array (hn : Placed next) {d : Definition} {elements : List Json} {i : Nat}
    {j : Json} {rest : Path} (hi : elements[i]? = some j) :
    ReportsMissing
        (array (fun path => object case next path shape) path d (.array elements)).issues
        (path ++ [.index i] ++ rest) ↔
      ReportsMissing (object case next (path ++ [.index i]) shape j).issues
        (path ++ [.index i] ++ rest) := by
  obtain ⟨bound, rfl⟩ := List.getElem?_eq_some_iff.mp hi
  simp only [array]
  constructor
  · rintro ⟨issue, hmem, code, place⟩
    rcases List.mem_append.mp hmem with hmem | hmem
    · rw [code_of_mem_countIssues hmem] at code
      cases code
    · obtain ⟨v, hv, hmem⟩ := List.mem_flatMap.mp hmem
      obtain ⟨k, hk, rfl⟩ := List.mem_mapIdx.mp hv
      obtain ⟨below, under⟩ := path_of_mem_object hn hmem
      have same : k = i := by
        rw [under, List.append_assoc, List.append_assoc, List.append_cancel_left_eq] at place
        simpa using (List.cons.inj place).1
      subst same
      exact ⟨issue, hmem, code, place⟩
  · rintro ⟨issue, hmem, code, place⟩
    refine ⟨issue, List.mem_append_right _ (List.mem_flatMap.mpr ⟨_, ?_, hmem⟩), code, place⟩
    exact List.mem_mapIdx.mpr ⟨i, bound, rfl⟩

theorem judge_array {c : Context} {levels : Nat} {d : Definition} {elements : List Json}
    (hk : d.kind = .array (.shape shape)) :
    judge c (levels + 1) path d (.array elements) =
      array (fun path => object c.case (judge c (levels - 1)) path shape) path d
        (.array elements) := by
  simp [judge_succ, step, Json.isNull, hk]

theorem judge_union {c : Context} {levels : Nat} {d : Definition} {discriminator : String}
    {variants : List Variant} (hk : d.kind = .union (some discriminator) variants) :
    judge c (levels + 1) path d (.object members) =
      taggedUnion c.case (judge c levels) path discriminator variants (.object members) := by
  simp [judge_succ, step, Json.isNull, hk]

/-- A union reports a key missing if the variant does that the tag chooses. -/
theorem reportsMissing_taggedUnion {discriminator tag : String} {variants : List Variant}
    {v : Variant} {place : Path}
    (tagged : members.get? (case.apply discriminator) = some (.string tag))
    (hv : Variant.tagged? variants tag = some v) :
    ReportsMissing (taggedUnion case next path discriminator variants (.object members)).issues
        place ↔
      ReportsMissing (next path v.definition (.object members)).issues place := by
  have chosen : (Json.string tag).string? >>= Variant.tagged? variants = some v := hv
  simp only [taggedUnion, tagged, chosen, ReportsMissing, List.mem_filter]
  constructor
  · rintro ⟨i, ⟨hi, -⟩, code, at_place⟩
    exact ⟨i, hi, code, at_place⟩
  · rintro ⟨i, hi, code, at_place⟩
    exact ⟨i, ⟨hi, by simp [code]⟩, code, at_place⟩

theorem reportsMissing_tag {discriminator : String} {variants : List Variant}
    (lacks : members.get? (case.apply discriminator) = none) :
    ReportsMissing (taggedUnion case next path discriminator variants (.object members)).issues
      (path ++ [.key (case.apply discriminator)]) := by
  simp only [taggedUnion, lacks]
  exact ⟨_, List.mem_singleton_self _, rfl, rfl⟩

end Validation

/-! ### Where objects stand -/

/-- Fields stand somewhere in what is generated and in what is judged: with a schema and a type, and
with the issues about a payload that has an object there which lacks a key. They are those of an
object, of a registered type, of the elements of an array, or of a variant with its tag; there the
tag has chosen the variant, unless it is the tag itself that is missing. -/
inductive ObjectAt (view : View) (s : OutputSettings) :
    List Field → Json → TypeExpr → List Issue → Path → String → Prop where
  | definition {d : Definition} {shape levels path members key} (hk : d.kind = .object shape)
    (lacks : Keyed.get? members key = none) :
    ObjectAt view s shape (OpenApi.ofDefinition s d.withTags) (TypeExpr.ofDefinition s d.withTags)
      (judge ⟨view, s.keyCase⟩ (levels + 1) path d (.object members)).issues path key
  | registered {t : NamedType} {shape members key} (hk : t.definition.kind = .object shape)
    (lacks : Keyed.get? members key = none) :
    ObjectAt view s shape (OpenApi.ofListing s (.defined t)) (t.declaration s).type
      (Context.validate ⟨view, s.keyCase⟩ t.definition (.object members)).issues [] key
  | element {d : Definition} {fields levels path elements i members key}
    (hk : d.kind = .array (.shape fields)) (hi : elements[i]? = some (.object members))
    (lacks : Keyed.get? members key = none) :
    ObjectAt view s fields (OpenApi.ofItems s (Items.shape fields).withTags)
      (TypeExpr.ofItems s (Items.shape fields).withTags)
      (judge ⟨view, s.keyCase⟩ (levels + 1) path d (.array elements)).issues (path ++ [.index i])
      key
  | variant {d : Definition} {discriminator variants tag v shape levels path members key}
    (hk : d.kind = .union (some discriminator) variants)
    (hv : Variant.tagged? variants tag = some v) (hs : v.definition.kind = .object shape)
    (tagged : Keyed.get? members (s.keyCase.apply discriminator) = some (.string tag))
    (lacks : Keyed.get? members key = none) :
    ObjectAt view s (Field.tagged discriminator tag shape)
      (OpenApi.ofDefinition s (v.withTags (some discriminator)).definition)
      (TypeExpr.ofDefinition s (v.withTags (some discriminator)).definition)
      (judge ⟨view, s.keyCase⟩ (levels + 2) path d (.object members)).issues path key
  | tag {d : Definition} {discriminator variants tag v shape levels path members}
    (hk : d.kind = .union (some discriminator) variants)
    (hv : Variant.tagged? variants tag = some v) (hs : v.definition.kind = .object shape)
    (undeclared : ∀ f ∈ shape, f.name ≠ discriminator)
    (lacks : Keyed.get? members (s.keyCase.apply discriminator) = none) :
    ObjectAt view s (Field.tagged discriminator tag shape)
      (OpenApi.ofDefinition s (v.withTags (some discriminator)).definition)
      (TypeExpr.ofDefinition s (v.withTags (some discriminator)).definition)
      (judge ⟨view, s.keyCase⟩ (levels + 2) path d (.object members)).issues path
      (s.keyCase.apply discriminator)

/-! ### Agreement -/

/-- What a schema, a type and the issues tell about a field on its own terms settles that they
agree. -/
theorem agreesOnAbsence_of {schema : Json} {type : TypeExpr} {issues : List Issue} {path : Path}
    {key : String} {f : Field} (has_key : ∃ m ∈ type.members, m.key = key)
    (listed : OpenApi.Requires schema key ↔ f.definition.optional = false)
    (marked : type.MarksOptional key ↔ f.definition.optional = true)
    (reported : ReportsMissing issues (path ++ [.key key]) ↔
      f.definition.optional = false ∧ f.definition.default? = none) :
    AgreesOnAbsence schema type issues path key f where
  has_key := has_key
  listed plain := by
    rw [listed, reported]
    rcases plain with optional | bare
    · simp [optional]
    · simp [bare]
  marked plain := by
    rw [marked, reported]
    rcases plain with optional | bare
    · simp [optional]
    · simp [bare]
  filled kept default? := by
    rw [listed, marked, reported]
    obtain ⟨j, hd⟩ := Option.isSome_iff_exists.mp default?
    simp [kept, hd]

/-- An object that a type is registered for is declared with the members of its fields. -/
theorem NamedType.members_declaration (s : OutputSettings) {t : NamedType} {shape : List Field}
    (hk : t.definition.kind = .object shape) :
    (t.declaration s).type.members = TypeExpr.ofFields s (shape.map Field.withTags) := by
  have kind := Definition.kind_withTags_of_object hk
  have primary : t.aliasTarget? = none := by
    simp [aliasTarget?, Definition.target?, hk]
  have fields : t.definition.withTags.shape? = some (shape.map Field.withTags) := by
    simp [Definition.shape?, kind]
  rw [declaration, primary]
  simp only [fields]
  cases t.definition.withTags.nullable with
  | false => rfl
  | true => exact TypeExpr.members_ofDefinition kind

namespace ObjectAt

variable {view : View} {s : OutputSettings} {shape : List Field} {schema : Json} {type : TypeExpr}
  {issues : List Issue} {path : Path} {key : String}

/-- Wherever fields stand, the schema and the type there are theirs, with tags put in. -/
theorem rendered (h : ObjectAt view s shape schema type issues path key) :
    (∀ key, OpenApi.Requires schema key ↔ key ∈ OpenApi.required s (shape.map Field.withTags)) ∧
      type.members = TypeExpr.ofFields s (shape.map Field.withTags) := by
  cases h with
  | definition hk =>
    have kind := Definition.kind_withTags_of_object hk
    exact ⟨fun _ => OpenApi.requires_ofDefinition kind, TypeExpr.members_ofDefinition kind⟩
  | registered hk =>
    have kind := Definition.kind_withTags_of_object hk
    exact ⟨fun _ => OpenApi.requires_ofDefinition kind, NamedType.members_declaration s hk⟩
  | element =>
    rw [Items.withTags, Field.listWithTags_eq, OpenApi.ofItems]
    exact ⟨fun _ => OpenApi.requires_ofProperties _ _, rfl⟩
  | @variant _ discriminator _ _ _ _ _ _ _ _ _ hv hs =>
    have kind := Variant.kind_withTags discriminator (Variant.tag_of_tagged? hv) hs
    exact ⟨fun _ => OpenApi.requires_ofDefinition kind, TypeExpr.members_ofDefinition kind⟩
  | @tag _ discriminator _ _ _ _ _ _ _ _ hv hs =>
    have kind := Variant.kind_withTags discriminator (Variant.tag_of_tagged? hv) hs
    exact ⟨fun _ => OpenApi.requires_ofDefinition kind, TypeExpr.members_ofDefinition kind⟩

/-- Wherever fields stand, a key is reported missing just where its field has no default and is not
optional. -/
theorem reported (h : ObjectAt view s shape schema type issues path key) {f : Field}
    (distinct : (shape.map (Field.wireName s.keyCase)).Nodup) (hf : f ∈ shape)
    (stands : f.wireName s.keyCase = key) :
    ReportsMissing issues (path ++ [.key key]) ↔
      f.definition.optional = false ∧ f.definition.default? = none := by
  cases h with
  | definition hk lacks =>
    subst stands
    rw [judge_object hk]
    exact reportsMissing_object (placed_judge _ _) distinct hf lacks
  | registered hk lacks =>
    subst stands
    rw [Context.validate, judge_object hk]
    exact reportsMissing_object (placed_judge _ _) distinct hf lacks
  | element hk hi lacks =>
    subst stands
    rw [judge_array hk, reportsMissing_array (placed_judge _ _) hi]
    exact reportsMissing_object (placed_judge _ _) distinct hf lacks
  | @variant _ discriminator _ tag v shape _ _ members _ hk hv hs tagged lacks =>
    subst stands
    rw [judge_union hk, reportsMissing_taggedUnion tagged hv, judge_object hs]
    -- The field is one of the variant itself: under the discriminator there is a tag.
    have own : f ∈ shape := by
      rw [Field.tagged] at hf
      split at hf
      · exact hf
      · rcases List.mem_cons.mp hf with rfl | hf
        · cases tagged.symm.trans lacks
        · exact hf
    have apart : (shape.map (Field.wireName s.keyCase)).Nodup := by
      rw [Field.tagged] at distinct
      split at distinct
      · exact distinct
      · exact (List.nodup_cons.mp distinct).2
    exact reportsMissing_object (placed_judge _ _) apart own lacks
  | @tag _ discriminator _ tag v shape _ _ members hk hv hs undeclared lacks =>
    rw [judge_union hk]
    have leading : Field.tagged discriminator tag shape =
        Field.ofTag discriminator tag :: shape := by
      rw [Field.tagged, if_neg (by simpa using undeclared)]
    rw [leading] at distinct hf
    obtain rfl : f = Field.ofTag discriminator tag :=
      List.inj_on_of_nodup_map distinct hf List.mem_cons_self stands
    exact iff_of_true (reportsMissing_tag lacks) ⟨rfl, rfl⟩

end ObjectAt

/-- Wherever fields with distinct keys stand, the generated schema, the generated type and the
server agree about each key that is absent, unless its field has a default and is not optional. -/
theorem absence_agreed (view : View) (s : OutputSettings) {shape : List Field} {schema : Json}
    {type : TypeExpr} {issues : List Issue} {path : Path} {f : Field} (hf : f ∈ shape)
    (distinct : (shape.map (Field.wireName s.keyCase)).Nodup)
    (stands : ObjectAt view s shape schema type issues path (f.wireName s.keyCase)) :
    AgreesOnAbsence schema type issues path (f.wireName s.keyCase) f := by
  obtain ⟨listed, members⟩ := stands.rendered
  have rendered : f.withTags ∈ shape.map Field.withTags := List.mem_map_of_mem hf
  have apart : ((shape.map Field.withTags).map (Field.wireName s.keyCase)).Nodup := by
    simpa [Function.comp_def] using distinct
  refine agreesOnAbsence_of ?_ ?_ ?_ (stands.reported distinct hf rfl)
  · rw [members]
    exact ⟨_, TypeExpr.mem_ofFields rendered, rfl⟩
  · rw [listed]
    simpa using OpenApi.mem_required apart rendered
  · simpa using TypeExpr.marksOptional_iff members apart rendered

def refund : List Field :=
  [{ name := "amount", definition := .scalar .integer },
    { name := "note", definition := (Definition.scalar .string).orAbsent }]

/-- A refund under a kind that it has from its union: the amount and the kind are missed. -/
theorem refund_absence :
    let v : Variant := { tag := some "part", definition := .object refund }
    let d := Definition.taggedUnion "kind" [v]
    let schema := OpenApi.ofDefinition {} (v.withTags (some "kind")).definition
    let type := TypeExpr.ofDefinition {} (v.withTags (some "kind")).definition
    let issues (members : Keyed Json) :=
      (Context.validate ⟨⟨{}, .global⟩, .preserve⟩ d (.object members)).issues
    AgreesOnAbsence schema type (issues [("kind", .string "part")]) [] "amount"
        { name := "amount", definition := .scalar .integer } ∧
      AgreesOnAbsence schema type (issues []) [] "kind" (Field.ofTag "kind" "part") := by
  intro v d schema type issues
  constructor
  · exact absence_agreed ⟨{}, .global⟩ {} (.tail _ (.head _)) (by decide +kernel)
      (@ObjectAt.variant _ _ d "kind" _ "part" v _ _ _ _ _ rfl rfl rfl rfl rfl)
  · exact absence_agreed ⟨{}, .global⟩ {} (.head _) (by decide +kernel)
      (@ObjectAt.tag _ _ d "kind" _ "part" v _ _ _ _ rfl rfl rfl (by decide +kernel) rfl)

def paging : Definition :=
  .object [{ name := "page",
             definition := { kind := .scalar .integer, default? := some (.int 1) } }]

/-- The page is demanded of values and may be missing from payloads. -/
theorem paging_demands_page :
    OpenApi.Requires (OpenApi.ofDefinition {} paging.withTags) "page" ∧
      ¬ (TypeExpr.ofDefinition {} paging.withTags).MarksOptional "page" ∧
      (Context.validate ⟨⟨{}, .global⟩, .preserve⟩ paging (.object [])).issues = [] := by
  refine ⟨⟨[.string "page"], rfl, List.mem_singleton_self _⟩, ?_, rfl⟩
  rintro ⟨m, hm, -, marked⟩
  obtain rfl := List.mem_singleton.mp hm
  cases marked

end ApiContract
