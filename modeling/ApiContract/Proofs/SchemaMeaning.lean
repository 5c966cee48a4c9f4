import ApiContract.Proofs.GeneratedFiles
import ApiContract.Proofs.ListedNames
import Mathlib.Order.Filter.AtTopBot.Basic
import Mathlib.Order.Filter.Finite

/-!
# What a schema means

Which values satisfy a schema of a document: of the alternatives under `oneOf` exactly one has to
hold, a pointer under `$ref` leads to a schema of the document, and a property that is not declared
is judged by `additionalProperties`. What limits on numbers, texts and lists say is left to the
reader. `holdsAt` is one step, given what holds of the schemas below, and `holds` closes it over
some levels. A schema that does not point to itself settles on an answer: it is the same from some
level on.
-/

namespace ApiContract

namespace Json

mutual

/-- Whole numbers are one value, however they are written. -/
def wholeNumbers : Json → Json
  | float x => (x.toInt?.map int).getD (float x)
  | array xs => array (wholeElements xs)
  | object ms => object (wholeMembers ms)
  | j => j

def wholeElements : List Json → List Json
  | [] => []
  | x :: xs => wholeNumbers x :: wholeElements xs

def wholeMembers : List (String × Json) → List (String × Json)
  | [] => []
  | (k, x) :: ms => (k, wholeNumbers x) :: wholeMembers ms

end

def equals (i j : Json) : Bool := i.wholeNumbers.sameValue j.wholeNumbers

def elements : Json → List Json
  | array xs => xs
  | _ => []

def entries : Json → Keyed Json
  | object ms => ms
  | _ => []

theorem isNull_eq_false_iff {j : Json} : j.isNull = false ↔ j ≠ .null := by
  cases j <;> simp [isNull]

theorem equals_null {j : Json} : equals j .null = j.isNull := by
  cases j with
  | float x => cases hx : x.toInt? <;> simp [equals, wholeNumbers, sameValue, isNull, hx]
  | _ => simp [equals, wholeNumbers, sameValue, isNull]

theorem null_equals {j : Json} : null.equals j = j.isNull := by
  cases j with
  | float x => cases hx : x.toInt? <;> simp [equals, wholeNumbers, sameValue, isNull, hx]
  | _ => simp [equals, wholeNumbers, sameValue, isNull]

theorem equals_string {s : String} {j : Json} : j.equals (.string s) = true ↔ j = .string s := by
  cases j with
  | float x => cases hx : x.toInt? <;> simp [equals, wholeNumbers, sameValue, hx]
  | _ => simp [equals, wholeNumbers, sameValue]

end Json

namespace OpenApi

/-! ### One step -/

/-- What a reader takes a limit to mean: the keyword, what stands under it, and the value. -/
abbrev Reading := String → Json → Json → Bool

def unlimited : Reading := fun _ _ _ => true

def hasType (type : String) : Json → Bool
  | .null => type == "null"
  | .bool _ => type == "boolean"
  | .int _ => type == "integer" || type == "number"
  | .float x => type == "number" || (type == "integer" && x.toInt?.isSome)
  | .string _ => type == "string"
  | .array _ => type == "array"
  | .object _ => type == "object"

theorem hasType_null (value : Json) : hasType "null" value = value.isNull := by
  cases value <;> rfl

def meetsType (value : Json) : Json → Bool
  | .string type => hasType type value
  | j => j.elements.any fun type => (type.string?).any fun type => hasType type value

/-- The limits, each with the type of the values that it limits. -/
def limits : List (String × String) :=
  [("minimum", "number"), ("maximum", "number"), ("minLength", "string"), ("maxLength", "string"),
    ("pattern", "string"), ("format", "string"), ("minItems", "array"), ("maxItems", "array")]

/-- Where a reference leads in a document. Its fragment is the pointer as it stands, percent signs
included. -/
def target? (document : Json) (reference : Json) : Option Json :=
  match reference with
  | .string text =>
    match text.toList with
    | '#' :: pointer => document.follow? (Pointer.parse (String.ofList pointer))
    | _ => none
  | _ => none

/-- What a schema says under a keyword is so; a keyword that it does not have says nothing. -/
def asks (schema : Keyed Json) (keyword : String) (so : Json → Bool) : Bool :=
  (Keyed.get? schema keyword).all so

def declared (schema : Keyed Json) : Keyed Json :=
  ((Keyed.get? schema "properties").map Json.entries).getD []

variable (reading : Reading) (document : Json)

/-- A value keeps the limits of a schema, as far as they are about such values. -/
def keepsLimits (schema : Keyed Json) (value : Json) : Bool :=
  limits.all fun p => asks schema p.1 fun j => !hasType p.2 value || reading p.1 j value

/-- What a schema asks of the parts of a value. -/
def holdsInside (next : Json → Json → Bool) (schema : Keyed Json) : Json → Bool
  | .array elements => asks schema "items" fun j => elements.all (next j)
  | .object members =>
    ((declared schema).all fun p => (Keyed.get? members p.1).all (next p.2)) &&
    asks schema "required" (fun j =>
      j.elements.all fun key => (key.string?).any (Keyed.contains members)) &&
    asks schema "additionalProperties" (fun j =>
      members.all fun p => Keyed.contains (declared schema) p.1 || next j p.2)
  | _ => true

/-- Whether a value satisfies a schema, given which values satisfy the schemas in it. -/
def holdsAt (next : Json → Json → Bool) (schema : Keyed Json) (value : Json) : Bool :=
  asks schema "type" (meetsType value) &&
  asks schema "enum" (fun j => j.elements.any value.equals) &&
  asks schema "const" value.equals &&
  asks schema "oneOf" (fun j => j.elements.countP (next · value) == 1) &&
  asks schema "$ref" (fun j => (target? document j).any (next · value)) &&
  keepsLimits reading schema value && holdsInside next schema value

/-- Whether a value satisfies a schema, as far as some levels show. -/
def holds : Nat → Json → Json → Bool
  | 0, _, _ => false
  | n + 1, .object schema, value => holdsAt reading document (holds n) schema value
  | _ + 1, .bool b, _ => b
  | _ + 1, _, _ => false

/-- From some level on there is one answer. -/
def Settles (schema value : Json) (answer : Bool) : Prop :=
  ∀ᶠ n in Filter.atTop, holds reading document n schema value = answer

variable {reading document}

/-! ### Answers -/

theorem holds_object (n : Nat) (schema : Keyed Json) (value : Json) :
    holds reading document (n + 1) (.object schema) value =
      holdsAt reading document (holds reading document n) schema value := rfl

/-- One more level makes no difference to the answer. -/
theorem settles_iff {schema value : Json} {answer : Bool} :
    Settles reading document schema value answer ↔
      ∀ᶠ n in Filter.atTop, holds reading document (n + 1) schema value = answer := by
  simp only [Settles, Filter.eventually_atTop]
  constructor
  · rintro ⟨level, h⟩
    exact ⟨level, fun n hn => h (n + 1) (by omega)⟩
  · rintro ⟨level, h⟩
    refine ⟨level + 1, fun n hn => ?_⟩
    obtain ⟨m, rfl⟩ := Nat.exists_eq_succ_of_ne_zero (show n ≠ 0 by omega)
    exact h m (by omega)

theorem Settles.unique {schema value : Json} {answer answer' : Bool}
    (h : Settles reading document schema value answer)
    (h' : Settles reading document schema value answer') : answer = answer' := by
  obtain ⟨n, hn, hn'⟩ := (h.and h').exists
  exact hn.symm.trans hn'

/-! ### What is added to a schema -/

variable {next : Json → Json → Bool} {schema schema' : Keyed Json} {value : Json} {answer : Bool}

def assertions : List String :=
  ["type", "enum", "const", "oneOf", "$ref", "items", "properties", "required",
    "additionalProperties"] ++ limits.map (·.1)

/-- It is enough that two schemas say the same about types and values, and have the same members
under the other keywords. -/
theorem holdsAt_of_same
    (types : asks schema' "type" (meetsType value) = asks schema "type" (meetsType value))
    (values : asks schema' "enum" (fun j => j.elements.any value.equals) =
      asks schema "enum" fun j => j.elements.any value.equals)
    (same : ∀ key ∈ assertions, key ≠ "type" → key ≠ "enum" →
      Keyed.get? schema' key = Keyed.get? schema key) :
    holdsAt reading document next schema' value = holdsAt reading document next schema value := by
  have key (key : String) (h : key ∈ assertions ∧ key ≠ "type" ∧ key ≠ "enum")
      (so : Json → Bool) : asks schema' key so = asks schema key so := by
    rw [asks, asks, same key h.1 h.2.1 h.2.2]
  have limit : keepsLimits reading schema' value = keepsLimits reading schema value := by
    have known : ∀ p ∈ limits, p.1 ∈ assertions ∧ p.1 ≠ "type" ∧ p.1 ≠ "enum" := by decide
    rw [keepsLimits, keepsLimits, Bool.eq_iff_iff, List.all_eq_true, List.all_eq_true]
    exact forall₂_congr fun p hp => by rw [key p.1 (known p hp)]
  have inside : holdsInside next schema' value = holdsInside next schema value := by
    have properties : OpenApi.declared schema' = OpenApi.declared schema := by
      rw [OpenApi.declared, OpenApi.declared, same _ (by decide) (by decide) (by decide)]
    cases value with
    | array elements => exact key "items" (by decide) _
    | object members =>
      rw [holdsInside, holdsInside, properties, key "required" (by decide),
        key "additionalProperties" (by decide)]
    | _ => rfl
  rw [holdsAt, holdsAt, types, values, key "const" (by decide), key "oneOf" (by decide),
    key "$ref" (by decide), limit, inside]

/-- Members that only document play no part. -/
theorem holdsAt_congr
    (same : ∀ key ∉ annotationKeys, Keyed.get? schema' key = Keyed.get? schema key) :
    holdsAt reading document next schema' value = holdsAt reading document next schema value := by
  have plain : ∀ key ∈ assertions, key ∉ annotationKeys := by decide
  exact holdsAt_of_same (by rw [asks, asks, same _ (by decide)])
    (by rw [asks, asks, same _ (by decide)]) fun key h _ _ => same key (plain key h)

theorem ofDefinition_eq (s : OutputSettings) (d : Definition) :
    ofDefinition s d = .object (finish s d.nullable d.default? d.docs
      (ofKind s d.format d.min d.max d.allowed d.kind)) := by
  cases d
  rw [ofDefinition]

theorem ofDefinition_withTags (s : OutputSettings) (d : Definition) :
    ofDefinition s d.withTags = .object (finish s d.nullable d.default? d.docs
      (ofKind s d.format d.min d.max d.allowed d.kind.withTags)) := by
  cases d
  rw [Definition.withTags, ofDefinition]

theorem settles_finish (s : OutputSettings) (nullable : Bool) (default? : Option Json)
    (docs : Documentation) :
    Settles reading document (.object (finish s nullable default? docs schema)) value answer ↔
      Settles reading document (.object (if nullable then allowNull schema else schema)) value
        answer := by
  simp only [settles_iff, holds_object]
  exact Filter.eventually_congr (.of_forall fun n => by
    rw [holdsAt_congr fun key h => get?_finish s nullable default? docs h])

/-! ### Schemas with one keyword -/

/-- A schema that only says something under one keyword. -/
theorem holdsAt_of_only (keyword : String)
    (only : ∀ key ∈ assertions, key ≠ keyword → Keyed.get? schema key = none)
    (free : keyword ∈ ["const", "oneOf", "$ref"]) :
    holdsAt reading document next schema value =
      (asks schema "const" value.equals &&
        asks schema "oneOf" (fun j => j.elements.countP (next · value) == 1) &&
        asks schema "$ref" fun j => (target? document j).any (next · value)) := by
  have silent (key : String) (known : key ∈ assertions) (bound : key ∉ ["const", "oneOf", "$ref"])
      (so : Json → Bool) : asks schema key so = true := by
    rw [asks, only key known fun same => bound (same ▸ free)]
    rfl
  have limit : keepsLimits reading schema value = true := by
    have known : ∀ p ∈ limits, p.1 ∈ assertions ∧ p.1 ∉ ["const", "oneOf", "$ref"] := by decide
    exact List.all_eq_true.mpr fun p hp => silent p.1 (known p hp).1 (known p hp).2 _
  have inside : holdsInside next schema value = true := by
    have properties : OpenApi.declared schema = [] := by
      rw [OpenApi.declared, only "properties" (by decide) fun same => by simp [← same] at free]
      rfl
    cases value with
    | array elements => exact silent "items" (by decide) (by decide) _
    | object members =>
      rw [holdsInside, properties, silent "required" (by decide) (by decide),
        silent "additionalProperties" (by decide) (by decide)]
      rfl
    | _ => rfl
  rw [holdsAt, silent "type" (by decide) (by decide), silent "enum" (by decide) (by decide), limit,
    inside, Bool.true_and, Bool.true_and, Bool.and_true, Bool.and_true]

theorem holdsAt_mention (name : String) :
    holdsAt reading document next (mention name) value =
      (target? document (pointerTo name)).any (next · value) := by
  rw [holdsAt_of_only "$ref" ?_ (by decide)]
  · simp [mention, asks, Keyed.get?_cons]
  · intro key _ other
    simp [mention, Keyed.get?_cons, other]

theorem holdsAt_const (v : Json) :
    holdsAt reading document next [("const", v)] value = value.equals v := by
  rw [holdsAt_of_only "const" ?_ (by decide)]
  · simp [asks, Keyed.get?_cons]
  · intro key _ other
    simp [Keyed.get?_cons, other]

theorem holdsAt_ofUnion (case : KeyCase) (discriminator : Option String) (variants : List Variant)
    (alternatives : List Json) :
    holdsAt reading document next (ofUnion case discriminator variants alternatives) value =
      (alternatives.countP (next · value) == 1) := by
  rw [holdsAt_of_only "oneOf" ?_ (by decide)]
  · cases discriminator <;> simp [ofUnion, asks, Keyed.get?_cons, Json.elements]
  · intro key known other
    have plain : key ≠ "discriminator" := by rintro rfl; exact absurd known (by decide)
    cases discriminator <;> simp [ofUnion, Keyed.get?_cons, other, plain]

theorem mention_untyped (name type : String) :
    Keyed.get? (mention name) "type" ≠ some (.string type) := by
  simp [mention, Keyed.get?_cons]

theorem ofUnion_untyped (case : KeyCase) (discriminator : Option String) (variants : List Variant)
    (alternatives : List Json) (type : String) :
    Keyed.get? (ofUnion case discriminator variants alternatives) "type" ≠ some (.string type) := by
  cases discriminator <;> simp [ofUnion, Keyed.get?_cons]

/-- A schema of alternatives is satisfied where one of them is. -/
theorem settles_ofUnion {α : Type} {xs : List α} {alternative : α → Json} {answer : α → Bool}
    (h : ∀ x ∈ xs, Settles reading document (alternative x) value (answer x)) (case : KeyCase)
    (discriminator : Option String) (variants : List Variant) :
    Settles reading document
      (.object (ofUnion case discriminator variants (xs.map alternative))) value
      (xs.countP answer == 1) := by
  have all : ∀ᶠ n in Filter.atTop, ∀ x ∈ xs,
      holds reading document n (alternative x) value = answer x :=
    (Filter.eventually_all_finite (List.finite_toSet xs)).mpr h
  refine settles_iff.mpr (all.mono fun n each => ?_)
  rw [holds_object, holdsAt_ofUnion, List.countP_map]
  congr 1
  exact List.countP_congr fun x hx => by rw [Function.comp_apply, each x hx]

/-- A pointer is satisfied by what satisfies the schema that it leads to. -/
theorem settles_mention {name : String} {j : Json}
    (found : target? document (pointerTo name) = some j)
    (h : Settles reading document j value answer) :
    Settles reading document (.object (mention name)) value answer := by
  refine settles_iff.mpr (h.mono fun n hn => ?_)
  rw [holds_object, holdsAt_mention, found]
  exact hn

theorem target?_pointerTo {name : String} (plain : Plain name) :
    target? document (pointerTo name) = document.follow? ["components", "schemas", name] := by
  have text : ("#/components/schemas/" ++ name).toList =
      '#' :: ("/components/schemas/" ++ name).toList := by
    simp only [String.toList_append]
    rfl
  rw [pointerTo, target?, text]
  change document.follow? (Pointer.parse (String.ofList _)) = _
  rw [String.ofList_toList, parse_pointerTo plain]

/-! ### Null -/

theorem keepsLimits_null (schema : Keyed Json) : keepsLimits reading schema .null = true := by
  have otherwise : ∀ p ∈ limits, hasType p.2 .null = false := by decide
  exact List.all_eq_true.mpr fun p hp => by simp [asks, otherwise p hp]

/-- A schema says the type of its values, and may list them. -/
structure Typed (schema : Keyed Json) (type : String) : Prop where
  named : Keyed.get? schema "type" = some (.string type)
  notNull : type ≠ "null"
  values : ∀ j, Keyed.get? schema "enum" = some j → ∃ js, j = .array js
  silent : ∀ key ∈ ["const", "oneOf", "$ref"], Keyed.get? schema key = none

namespace Typed

variable {type : String}

/-- Bounds change neither the type nor the values. -/
theorem bounded (typed : Typed schema type) {lowerKey upperKey : String}
    (hl : lowerKey ∉ ["type", "enum", "const", "oneOf", "$ref"])
    (hu : upperKey ∉ ["type", "enum", "const", "oneOf", "$ref"]) (lower upper : Option Binary64) :
    Typed (OpenApi.bounded lowerKey upperKey lower upper schema) type := by
  have same (key : String) (h : key ∈ ["type", "enum", "const", "oneOf", "$ref"]) :
      Keyed.get? (OpenApi.bounded lowerKey upperKey lower upper schema) key =
        Keyed.get? schema key :=
    get?_bounded (ne_of_mem_of_not_mem h hl) (ne_of_mem_of_not_mem h hu)
  refine ⟨?_, typed.notNull, ?_, ?_⟩
  · rw [same _ (by decide), typed.named]
  · rw [same _ (by decide)]
    exact typed.values
  · intro key h
    rw [same _ (by revert key; decide), typed.silent key h]

/-- A type under its key and nothing that decides by itself. -/
theorem of_members {members : Keyed Json} (named : Keyed.get? members "type" = some (.string type))
    (notNull : type ≠ "null")
    (silent : ∀ key ∈ ["enum", "const", "oneOf", "$ref"], Keyed.get? members key = none) :
    Typed members type where
  named := named
  notNull := notNull
  values j h := by
    rw [silent "enum" (by decide)] at h
    cases h
  silent key h := silent key (List.mem_cons_of_mem _ h)

theorem of_typed (h : type ≠ "null") : Typed (OpenApi.typed type) type :=
  of_members (by simp [OpenApi.typed, Keyed.get?_cons]) h fun key h => by
    have plain : key ≠ "type" := by revert key; decide
    simp [OpenApi.typed, Keyed.get?_cons, plain]

theorem of_ofProperties (properties : List (String × Json)) (required : List String) :
    Typed (ofProperties properties required) "object" := by
  refine of_members (by simp [ofProperties]) (by decide) fun key h => ?_
  have plain : key ≠ "type" ∧ key ≠ "properties" ∧ key ≠ "additionalProperties" ∧
      key ≠ "required" := by revert key; decide
  simp [ofProperties, plain]

theorem of_items (items : Json) : Typed [("items", items), ("type", .string "array")] "array" := by
  refine of_members (by simp [Keyed.get?_cons]) (by decide) fun key h => ?_
  have plain : key ≠ "type" ∧ key ≠ "items" := by revert key; decide
  simp [Keyed.get?_cons, plain]

/-- A string says its type, unless its values are named. -/
theorem of_ofString (format : Option StringFormat) (lower upper : Option Binary64)
    {allowed : Option Allowed} (unnamed : ∀ name, allowed ≠ some (.named name)) :
    Typed (ofString format lower upper allowed) "string" := by
  rcases allowed with _ | values | name
  · have plainly (key : String) (plain : key ≠ "format" ∧ key ≠ "pattern") :
        Keyed.get? (Keyed.union (typed "string") (format.map formatMember).toList) key =
          Keyed.get? (typed "string") key := by
      rw [Keyed.get?_union]
      rcases format with _ | format
      · simp
      · cases format <;> simp [formatMember, plain]
    refine Typed.bounded (of_members ?_ (by decide) fun key h => ?_) (by decide) (by decide) _ _
    · rw [plainly "type" (by decide)]
      rfl
    · have plain : key ≠ "type" ∧ key ≠ "format" ∧ key ≠ "pattern" := by revert key; decide
      rw [plainly key plain.2, typed, Keyed.get?_cons, if_neg plain.1]
      rfl
  · refine ⟨by simp [ofString, Keyed.get?_cons], by decide, ?_, ?_⟩
    · intro j h
      exact ⟨_, (by simpa [ofString, Keyed.get?_cons, eq_comm] using h)⟩
    · intro key h
      have plain : key ≠ "type" ∧ key ≠ "enum" := by revert key; decide
      simp [ofString, Keyed.get?_cons, plain]
  · exact absurd rfl (unnamed name)

/-- The schemas of scalars say their type, unless anything is allowed or the values are those of a
registered type. -/
theorem of_ofScalar (kind : ScalarKind) (format : Option StringFormat)
    (lower upper : Option Binary64) {allowed : Option Allowed} (known : kind ≠ .unknown)
    (unnamed : kind = .string → ∀ name, allowed ≠ some (.named name)) :
    ∃ type, Typed (ofScalar kind format lower upper allowed) type := by
  have formatted (format : String) : Typed (OpenApi.formatted format) "string" :=
    of_members (by simp [OpenApi.formatted, Keyed.get?_cons]) (by decide) fun key h => by
      have plain : key ≠ "type" ∧ key ≠ "format" := by revert key; decide
      simp [OpenApi.formatted, Keyed.get?_cons, plain]
  cases kind with
  | string => exact ⟨_, of_ofString format lower upper (unnamed rfl)⟩
  | integer => exact ⟨_, (of_typed (by decide)).bounded (by decide) (by decide) _ _⟩
  | float => exact ⟨_, (of_typed (by decide)).bounded (by decide) (by decide) _ _⟩
  | decimal => exact ⟨_, (of_typed (by decide)).bounded (by decide) (by decide) _ _⟩
  | boolean => exact ⟨"boolean", of_typed (by decide)⟩
  | date => exact ⟨_, formatted _⟩
  | datetime => exact ⟨_, formatted _⟩
  | time => exact ⟨_, formatted _⟩
  | uuid => exact ⟨_, formatted _⟩
  | unknown => exact absurd rfl known

theorem holdsAt_null (typed : Typed schema type) :
    holdsAt reading document next schema .null = false := by
  have other : asks schema "type" (meetsType .null) = false := by
    rw [asks, typed.named]
    simpa [meetsType, hasType] using typed.notNull
  rw [holdsAt, other]
  rfl

/-- The members of the schema with `null` added. -/
theorem get?_allowNull (typed : Typed schema type) (key : String) :
    Keyed.get? (allowNull schema) key =
      if key = "type" then some (.array [.string type, .string "null"])
      else if key = "enum" then
        (Keyed.get? schema "enum").map fun j => .array (j.elements ++ [.null])
      else Keyed.get? schema key := by
  rw [allowNull_of_typed typed.named, Keyed.get?_insert, Keyed.get?_modify]
  split
  · rfl
  · split
    · rename_i same
      subst same
      cases h : Keyed.get? schema "enum" with
      | none => rfl
      | some j =>
        obtain ⟨js, rfl⟩ := typed.values j h
        rfl
    · rfl

/-- A second type lets `null` through. -/
theorem holdsAt_allowNull_null (typed : Typed schema type) :
    holdsAt reading document next (allowNull schema) .null = true := by
  have named : asks (allowNull schema) "type" (meetsType .null) = true := by
    rw [asks, typed.get?_allowNull, if_pos rfl]
    simp [meetsType, Json.elements, Json.string?, hasType]
  have values :
      asks (allowNull schema) "enum" (fun j => j.elements.any Json.null.equals) = true := by
    rw [asks, typed.get?_allowNull]
    cases Keyed.get? schema "enum" with
    | none => rfl
    | some j => simp [Json.elements, Json.equals_null, Json.isNull]
  have silent (key : String) (h : key ∈ ["const", "oneOf", "$ref"]) (so : Json → Bool) :
      asks (allowNull schema) key so = true := by
    have plain : key ≠ "type" ∧ key ≠ "enum" := by revert key; decide
    rw [asks, typed.get?_allowNull, if_neg plain.1, if_neg plain.2, typed.silent key h]
    rfl
  rw [holdsAt, named, values, silent "const" (by decide), silent "oneOf" (by decide),
    silent "$ref" (by decide), keepsLimits_null]
  rfl

/-- To other values adding `null` makes no difference. -/
theorem holdsAt_allowNull (typed : Typed schema type) (notNull : value ≠ .null) :
    holdsAt reading document next (allowNull schema) value =
      holdsAt reading document next schema value := by
  have other : hasType "null" value = false := by
    rw [hasType_null, Json.isNull_eq_false_iff.mpr notNull]
  refine holdsAt_of_same ?_ ?_ fun key _ plain plain' => ?_
  · rw [asks, asks, typed.get?_allowNull, if_pos rfl, typed.named]
    simp [meetsType, Json.elements, Json.string?, other]
  · rw [asks, asks, typed.get?_allowNull]
    cases Keyed.get? schema "enum" with
    | none => rfl
    | some j =>
      simp [Json.elements, Json.equals_null, Json.isNull_eq_false_iff.mpr notNull]
  · rw [typed.get?_allowNull, if_neg plain, if_neg plain']

/-- The schema takes `null` if that was added. -/
theorem settles_null (typed : Typed schema type) (nullable : Bool) :
    Settles reading document (.object (if nullable then allowNull schema else schema)) .null
      nullable := by
  refine settles_iff.mpr (.of_forall fun n => ?_)
  cases nullable with
  | false => exact typed.holdsAt_null
  | true => exact typed.holdsAt_allowNull_null

/-- Other values are judged as without `null`. -/
theorem settles_notNull (typed : Typed schema type) (notNull : value ≠ .null)
    (h : Settles reading document (.object schema) value answer) (nullable : Bool) :
    Settles reading document (.object (if nullable then allowNull schema else schema)) value
      answer := by
  cases nullable with
  | false => exact h
  | true =>
    refine settles_iff.mpr ((settles_iff.mp h).mono fun n hn => ?_)
    exact (typed.holdsAt_allowNull notNull).trans hn

end Typed

theorem settles_unknown : Settles reading document (.object []) value true := by
  refine settles_iff.mpr (.of_forall fun n => ?_)
  rw [holds_object]
  cases value <;> simp [holdsAt, keepsLimits, limits, holdsInside, declared, asks]

theorem settles_typed (type : String) :
    Settles reading document (.object (typed type)) value (hasType type value) := by
  refine settles_iff.mpr (.of_forall fun n => ?_)
  rw [holds_object]
  cases value <;> simp [holdsAt, keepsLimits, limits, holdsInside, declared, asks, typed,
    Keyed.get?_cons, meetsType]

theorem settles_typed_null :
    Settles reading document (.object (typed "null")) value value.isNull :=
  hasType_null value ▸ settles_typed "null"

/-- Beside a schema that says no type, `null` is an alternative: where the schema takes it too,
nothing is left of it. -/
theorem settles_allowNull_of_untyped
    (untyped : ∀ type, Keyed.get? schema "type" ≠ some (.string type))
    (h : Settles reading document (.object schema) value answer) :
    Settles reading document (.object (allowNull schema)) value (answer != value.isNull) := by
  have each : ∀ p ∈ [(Json.object schema, answer), (.object (typed "null"), value.isNull)],
      Settles reading document p.1 value p.2 := by
    intro p hp
    rcases List.mem_cons.mp hp with rfl | hp
    · exact h
    · obtain rfl := List.mem_singleton.mp hp
      exact settles_typed_null
  have one (a b : Bool) : ([(Json.object schema, a), (.object (typed "null"), b)].countP
      Prod.snd == 1) = (a != b) := by
    cases a <;> cases b <;> rfl
  have both := settles_ofUnion each .preserve none []
  rw [one] at both
  rw [allowNull_of_untyped untyped]
  exact both

theorem settles_nullable_of_untyped
    (untyped : ∀ type, Keyed.get? schema "type" ≠ some (.string type))
    (h : Settles reading document (.object schema) value answer) (nullable : Bool) :
    Settles reading document (.object (if nullable then allowNull schema else schema)) value
      (answer != (nullable && value.isNull)) := by
  cases nullable with
  | false => simpa using h
  | true => exact settles_allowNull_of_untyped untyped h

theorem settles_notNull_of_untyped
    (untyped : ∀ type, Keyed.get? schema "type" ≠ some (.string type)) (notNull : value ≠ .null)
    (h : Settles reading document (.object schema) value answer) (nullable : Bool) :
    Settles reading document (.object (if nullable then allowNull schema else schema)) value
      answer := by
  have settled := settles_nullable_of_untyped untyped h nullable
  rwa [Json.isNull_eq_false_iff.mpr notNull, Bool.and_false, Bool.bne_false] at settled

/-! ### Documents -/

variable {types : List Registry.OrderedType} {o : OutputContext} {apiVersion : String}

/-- What a document has under a name is satisfied by what satisfies the schema of its type. -/
def Represents (reading : Reading) (document : Json) (s : OutputSettings) (view : View) : Prop :=
  ∀ name e value answer, view.definition? name = some e →
    Settles reading document (ofDefinition s e.withTags) value answer →
    Settles reading document (.object (mention name)) value answer

/-- The pointer to a name leads to the schema of what the name is listed as. -/
theorem target?_of_listedAs (nodup : (types.map (·.name)).Nodup) {name : String}
    (plain : Plain name) {l : Registry.Listing} (h : Registry.listedAs types name = some l) :
    target? (Target.draft o apiVersion types) (pointerTo name) =
      some (ofListing o.settings l) := by
  obtain ⟨t, found, rfl⟩ := Option.map_eq_some_iff.mp h
  have named : t.name = name := by simpa using List.find?_some found
  rw [target?_pointerTo plain, Target.draft, follow?_document,
    Target.get?_components nodup]
  exact ⟨t, List.mem_of_find?_eq_some found, named, rfl⟩

/-- A pointer through second names says what the type says. -/
theorem settles_of_standsFor (nodup : (types.map (·.name)).Nodup)
    (plain : ∀ t ∈ types, Plain t.name) {name : String} {t : NamedType}
    (stands : Registry.StandsFor types name t)
    (h : Settles reading (Target.draft o apiVersion types)
      (ofDefinition o.settings t.definition.withTags) value answer) :
    Settles reading (Target.draft o apiVersion types) (.object (mention name)) value
      answer := by
  have listed {name : String} {l : Registry.Listing} (h : Registry.listedAs types name = some l) :
      Plain name := by
    obtain ⟨u, found, -⟩ := Option.map_eq_some_iff.mp h
    have named : u.name = name := by simpa using List.find?_some found
    exact named ▸ plain u (List.mem_of_find?_eq_some found)
  induction stands with
  | defined h' => exact settles_mention (target?_of_listedAs nodup (listed h') h') h
  | aliasOf h' _ ih => exact settles_mention (target?_of_listedAs nodup (listed h') h') (ih h)

/-- Before it is printed a document represents all types that it lists. -/
theorem represents_draft (s : OutputSettings) (view : View)
    (nodup : (types.map (·.name)).Nodup) (plain : ∀ t ∈ types, Plain t.name)
    (listed : ∀ name t, view.resolve name = .ok t → Registry.StandsFor types name t) :
    Represents reading (Target.draft { settings := s, view } apiVersion types) s view := by
  intro name e value answer he h
  rw [View.definition?] at he
  split at he
  · rename_i t resolved
    cases he
    exact settles_of_standsFor nodup plain (listed name t resolved) h
  · cases he

end OpenApi

end ApiContract
