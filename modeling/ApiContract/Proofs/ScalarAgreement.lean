import ApiContract.Proofs.NamedEnumerations
import ApiContract.Proofs.RereadSchemas
import ApiContract.Proofs.RoundedNumbers

/-!
# Scalars in payloads and in documents

The validation asks three things of a scalar, each on its own: that it is of the kind, within the
bounds, and listed where values are listed. The schema of a string with listed values only says the
values; that of any other scalar says the kind and the bounds, and no values. The two agree on a
value just where what is left unsaid follows from what is said.

The validation compares with bounds as doubles, a reader of the schema exactly. That is the same as
long as no bound is what the value is merely rounded to. The bounds of the schema are those that a
document publishes: a fraction may have lost its last digits on the way into it.
-/

namespace ApiContract

open Validation

/-! ### Bounds -/

namespace Json

/-- What bounds are about: the value of a number and the length of a text. -/
def magnitude? : Json → Option ℚ
  | int n => some n
  | float x => some x.toRat
  | string s => some s.length
  | _ => none

/-- The double that the validation compares with bounds. -/
def compared? : Json → Option Binary64
  | string s => Binary64.ofInt? s.length
  | j => j.toBinary64?

def atMost (i j : Json) : Bool := i.magnitude?.all fun p => j.magnitude?.all fun q => p ≤ q

variable {j : Json} {q : ℚ} {x : Binary64}

/-- No bound lies between a value and the double that it is compared as. -/
theorem rounds_of_compared? (value : j.magnitude? = some q) (compared : j.compared? = some x) :
    x.Rounds q := by
  cases j with
  | int n =>
    cases value
    exact Binary64.rounds_of_ofInt? compared
  | float y =>
    cases value
    cases compared
    exact .self x
  | string s =>
    cases value
    exact_mod_cast Binary64.rounds_of_ofInt? compared
  | _ => cases value

/-- A bound is written as the number that it is. -/
theorem magnitude?_toJson (x : Binary64) : x.toJson.magnitude? = some x.toRat := by
  unfold Binary64.toJson
  split
  · rename_i n whole
    split
    · rw [magnitude?, Binary64.toRat_of_toInt? whole]
    · rfl
  · rfl

end Json

namespace Definition

/-- Whether a value, of those that have a magnitude, is exactly within the bounds. -/
def within (d : Definition) (j : Json) : Bool :=
  j.magnitude?.all fun q =>
    d.min.all (fun least => least.toRat ≤ q) && d.max.all fun greatest => q ≤ greatest.toRat

/-- What a document publishes as a bound: the number that the text of the bound is read as. -/
def published? (bound : Option Binary64) : Option Json := bound.bind (·.toJson.reread? 0)

/-- Whether a value, of those that have a magnitude, is exactly within the published bounds. -/
def withinPublished (d : Definition) (j : Json) : Bool :=
  (published? d.min).all (·.atMost j) && (published? d.max).all j.atMost

theorem withinPublished_of_no_magnitude {d : Definition} {j : Json} (h : j.magnitude? = none) :
    d.withinPublished j = true := by
  rw [withinPublished, Bool.and_eq_true, Option.all_eq_true, Option.all_eq_true]
  constructor <;> intros <;> simp [Json.atMost, h]

/-- A whole bound of 64 bits is published as it is. -/
theorem published?_of_whole {x : Binary64} {n : Int} (whole : x.toJson = .int n)
    (range : Json.InRange n) : published? (some x) = some x.toJson := by
  rw [published?, Option.bind_some, whole, Json.reread?_int range]

/-- Bounds that are published as they are say what they are. -/
theorem withinPublished_eq_within {d : Definition}
    (least : ∀ x, d.min = some x → published? (some x) = some x.toJson)
    (greatest : ∀ x, d.max = some x → published? (some x) = some x.toJson) (j : Json) :
    d.withinPublished j = d.within j := by
  have same (bound : Option Binary64) (h : ∀ x, bound = some x →
      published? (some x) = some x.toJson) : published? bound = bound.map Binary64.toJson := by
    cases bound with
    | none => rfl
    | some x => exact h x rfl
  rw [withinPublished, same _ least, same _ greatest]
  unfold within Json.atMost
  cases j.magnitude? <;> cases d.min <;> cases d.max <;> simp [Json.magnitude?_toJson]

def lists (d : Definition) (view : View) (j : Json) : Bool :=
  (allowedValues? view d).all fun values => values.contains (enumText j)

/-- An enumeration is a string with its values in place. -/
theorem isEnum_iff {d : Definition} :
    d.isEnum = true ↔ d.kind = .scalar .string ∧ ∃ values, d.allowed = some (.inline values) := by
  unfold isEnum inlineValues?
  constructor
  · intro h
    split at h
    · rename_i string
      split at h
      · exact ⟨string, _, by assumption⟩
      · cases h
    · cases h
  · rintro ⟨string, values, allowed⟩
    rw [string, allowed]
    rfl

/-- Whether the schema of a scalar takes a value: one that is listed, where the values of a string
are listed, and elsewhere one that is within the published bounds. -/
def stated (d : Definition) (view : View) (kind : ScalarKind) (j : Json) : Bool :=
  hasKind kind j &&
    if kind = .string ∧ d.allowed.isSome = true then d.lists view j else d.withinPublished j

/-- A value with a magnitude is compared as some double, which is a bound only if the value is. -/
def Compares (d : Definition) (j : Json) : Prop :=
  ∀ q, j.magnitude? = some q → ∀ b, d.min = some b ∨ d.max = some b →
    ∃ x, j.compared? = some x ∧ (x.toRat = b.toRat → q = b.toRat)

variable {d : Definition} {j : Json}

/-- Fractions, and whole numbers and lengths of 53 bits, are compared as they are. -/
theorem Compares.of_few_bits (number : ∀ n, j = .int n → n.natAbs ≤ 2 ^ 53)
    (text : ∀ s, j = .string s → s.length ≤ 2 ^ 53) : d.Compares j := by
  intro q value b _
  cases j with
  | int n =>
    cases value
    obtain ⟨x, hx, same⟩ := Binary64.exists_ofInt? (number n rfl)
    exact ⟨x, hx, fun h => same.symm.trans h⟩
  | float x =>
    cases value
    exact ⟨x, rfl, id⟩
  | string s =>
    cases value
    obtain ⟨x, hx, same⟩ := Binary64.exists_ofInt? (n := s.length) (text s rfl)
    exact ⟨x, hx, fun h => by rw [← h, same, Int.cast_natCast]⟩
  | _ => cases value

/-- As a double a value keeps the bounds just where it is within them. -/
theorem Compares.bounds_iff (compares : d.Compares j) :
    (∀ x, j.compared? = some x → d.Bounds x) ↔ d.within j = true := by
  unfold within
  cases value : j.magnitude? with
  | none =>
    refine iff_of_true (fun x compared => ?_) rfl
    cases j with
    | int n => cases value
    | float y => cases value
    | string s => cases value
    | _ => cases compared
  | some q =>
    simp only [Option.all_some, Bool.and_eq_true, Option.all_eq_true, decide_eq_true_eq]
    constructor
    · intro kept
      refine ⟨fun least hl => ?_, fun greatest hg => ?_⟩
      · obtain ⟨x, hx, apart⟩ := compares q value least (.inl hl)
        have above := (Binary64.lt_eq_false_iff ..).mp ((kept x hx).low least hl)
        exact ((Json.rounds_of_compared? value hx).le_iff apart).mp above
      · obtain ⟨x, hx, apart⟩ := compares q value greatest (.inr hg)
        have below := (Binary64.lt_eq_false_iff ..).mp ((kept x hx).high greatest hg)
        exact ((Json.rounds_of_compared? value hx).ge_iff apart).mp below
    · rintro ⟨above, below⟩ x hx
      have rounds := Json.rounds_of_compared? value hx
      refine ⟨fun least hl => ?_, fun greatest hg => ?_⟩
      · exact (Binary64.lt_eq_false_iff ..).mpr (rounds.lower least (above least hl))
      · exact (Binary64.lt_eq_false_iff ..).mpr (rounds.upper greatest (below greatest hg))

end Definition

/-! ### What the validation says -/

def ScalarKind.unformatted : List ScalarKind := [.string, .integer, .float, .decimal, .boolean]

variable {c : Context} {d : Definition} {kind : ScalarKind} {j : Json}

theorem eq_string_of_hasKind {s : String} (known : kind ∈ ScalarKind.unformatted)
    (h : hasKind kind (.string s) = true) : kind = .string := by
  cases kind <;> first | rfl | exact absurd known (by decide) | cases h

theorem isNumeric_of_hasKind {x : Binary64} (known : kind ∈ ScalarKind.unformatted)
    (h : hasKind kind j = true) (number : j.toBinary64? = some x) : kind.isNumeric = true := by
  cases j with
  | int n => cases kind <;> first | rfl | exact absurd known (by decide) | cases h
  | float y => cases kind <;> first | rfl | exact absurd known (by decide) | cases h
  | _ => cases number

/-- Of a value of one of these kinds the validation compares one magnitude, whatever the kind. -/
theorem meetsScalar_iff (known : kind ∈ ScalarKind.unformatted) (unformatted : d.format = none)
    (view : View) :
    MeetsScalar view d kind j ↔ hasKind kind j = true ∧
      (∀ x, j.compared? = some x → d.Bounds x) ∧ d.lists view j = true := by
  have listed : d.lists view j = true ↔
      ∀ values, allowedValues? view d = some values → enumText j ∈ values := by
    simp [Definition.lists, Option.all_eq_true]
  rw [listed]
  constructor
  · intro h
    refine ⟨h.ofKind, fun x hx => ?_, h.allowed⟩
    by_cases text : ∃ s, j = .string s
    · obtain ⟨s, rfl⟩ := text
      exact h.length (eq_string_of_hasKind known h.ofKind) s rfl x hx
    · have number : j.toBinary64? = some x := by
        cases j <;> first | exact hx | exact absurd ⟨_, rfl⟩ text
      exact h.value (isNumeric_of_hasKind known h.ofKind number) x number
  · rintro ⟨ofKind, bounds, allowed⟩
    refine ⟨ofKind, fun numeric x hx => bounds x ?_, ?_, ?_, allowed⟩
    · cases j <;> first | exact hx | cases hx
    · rintro - s rfl x hx
      exact bounds x hx
    · intro s _ format given
      cases unformatted.symm.trans given

theorem accepts_scalar (hk : d.kind = .scalar kind) (known : kind ∈ ScalarKind.unformatted)
    (unformatted : d.format = none) (notNull : j ≠ .null)
    (compares : hasKind kind j = true → d.Compares j) :
    c.accepts d j = (hasKind kind j && (d.within j && d.lists c.view j)) := by
  have present : (j.isNull && takesNull d) = false := by
    rw [Json.isNull_eq_false_iff.mpr notNull, Bool.false_and]
  rw [Bool.eq_iff_iff, accepts_iff_meetsScalar hk present, and_iff_right notNull,
    meetsScalar_iff known unformatted, Bool.and_eq_true, Bool.and_eq_true]
  exact and_congr_right fun ofKind => and_congr_left fun _ => (compares ofKind).bounds_iff

/-! ### What the schema says -/

namespace OpenApi

/-- The reading by which bounds are exact. What other limits mean is left to the rest. -/
def measured (rest : Reading) : Reading := fun keyword limit value =>
  if keyword = "minimum" ∨ keyword = "minLength" then limit.atMost value
  else if keyword = "maximum" ∨ keyword = "maxLength" then value.atMost limit
  else rest keyword limit value

variable {rest reading : Reading} {document : Json}

/-- The types of the schemas with bounds, and the keys of the bounds. -/
def boundedTypes : List (String × String × String) :=
  [("string", "minLength", "maxLength"), ("integer", "minimum", "maximum"),
    ("number", "minimum", "maximum")]

def limited (lowerKey upperKey : String) (lower upper : Option Json) (type : String) :
    Keyed Json :=
  Keyed.union (typed type)
    (Keyed.ofList (Json.present lowerKey lower ++ Json.present upperKey upper))

/-- Under exact bounds a schema of numbers or texts says the type and the published limits. -/
theorem settles_limited {type lowerKey upperKey : String}
    (known : (type, lowerKey, upperKey) ∈ boundedTypes) (d : Definition) (j : Json) :
    Settles (measured rest) document (.object (limited lowerKey upperKey
      (Definition.published? d.min) (Definition.published? d.max) type)) j
      (hasType type j && d.withinPublished j) := by
  refine settles_iff.mpr (.of_forall fun n => ?_)
  rw [holds_object]
  simp only [boundedTypes, List.mem_cons, Prod.mk.injEq, List.not_mem_nil, or_false] at known
  rcases known with ⟨rfl, rfl, rfl⟩ | ⟨rfl, rfl, rfl⟩ | ⟨rfl, rfl, rfl⟩ <;>
    cases j <;>
    simp [holdsAt, keepsLimits, limits, holdsInside, declared, asks, limited, typed,
      Keyed.get?_union, Keyed.get?_cons, meetsType, hasType, measured, Definition.withinPublished]

/-- The schema of a list of values, whatever else the definition says. -/
def listing (values : List String) : Keyed Json := ofString none none none (some (.inline values))

/-- A list of values holds just of the strings that are listed. -/
theorem settles_listing (values : List String) (j : Json) :
    Settles reading document (.object (listing values)) j
      (hasType "string" j && values.contains (enumText j)) := by
  refine settles_iff.mpr (.of_forall fun n => ?_)
  rw [holds_object, listing, ofString]
  cases j with
  | string s =>
    have listed : ((sortedNames values).map Json.string).any (Json.string s).equals =
        values.contains s := by
      rw [Bool.eq_iff_iff, List.any_map, List.any_eq_true, List.contains_iff_mem,
        ← mem_sortedNames]
      simp [Json.equals_string]
    simpa [holdsAt, keepsLimits, limits, holdsInside, asks, Keyed.get?_cons, meetsType, hasType,
      Json.elements, enumText, Json.string?] using listed
  | _ => simp [holdsAt, asks, Keyed.get?_cons, meetsType, hasType]

/-- A list of texts is read back as it is. -/
theorem settles_reread_listing {s : OutputSettings} {nullable : Bool} {default? : Option Json}
    {docs : Documentation} {n : Nat} {values : List String} {ms : Keyed Json} (notNull : j ≠ .null)
    (back : Json.rereadMembers? n (finish s nullable default? docs (listing values)) = some ms) :
    Settles reading document (.object ms) j
      (hasType "string" j && values.contains (enumText j)) := by
  have typed : Typed (listing values) "string" := .of_ofString _ _ _ fun _ named => by cases named
  refine settles_reread_of_firm (m := 1) ?_ back
    (typed.settles_notNull notNull (settles_listing values j) nullable)
  have withNull : allowNull (listing values) =
      [("enum", .array ((sortedNames values).map .string ++ [.null])),
        ("type", .array [.string "string", .string "null"])] := rfl
  cases nullable with
  | false => simp [listing, ofString, Json.haveFirm, Json.isFirm, Json.areFirm_strings]
  | true =>
    simp [withNull, Json.haveFirm, Json.isFirm, Json.areFirm, Json.areFirm_strings,
      Json.areFirm_append]

theorem settles_enumeration {e : Definition} {values : List String} {s : OutputSettings} {n : Nat}
    {schema : Json} (hk : e.kind = .scalar .string) (ha : e.allowed = some (.inline values))
    (notNull : j ≠ .null) (back : (ofDefinition s e.withTags).reread? n = some schema) :
    Settles reading document schema j (hasType "string" j && values.contains (enumText j)) := by
  rw [ofDefinition_withTags, hk, ha] at back
  obtain ⟨m, ms, -, members, rfl⟩ := Json.reread?_object_eq_some back
  exact settles_reread_listing notNull members

def typeOfKind : ScalarKind → String
  | .integer => "integer"
  | .float | .decimal => "number"
  | .boolean => "boolean"
  | _ => "string"

/-- To be of the type is to be of the kind, fractions that are none apart. -/
theorem hasType_typeOfKind (known : kind ∈ ScalarKind.unformatted)
    (fraction : ∀ x, j = .float x → x.toInt? = none) :
    hasType (typeOfKind kind) j = hasKind kind j := by
  cases j with
  | float x =>
    have none := fraction x rfl
    cases kind <;> first
      | exact absurd known (by decide)
      | simp [hasType, hasKind, typeOfKind, none]
  | _ => cases kind <;> first | exact absurd known (by decide) | rfl

/-- The name of an enumeration leads to its values in a document. -/
structure LeadsToValues (types : List Registry.OrderedType) (view : View) (name : String) :
    Prop where
  plain : ∀ t ∈ types, Plain t.name
  enumeration : ∃ t, view.resolve name = .ok t ∧ t.definition.isEnum = true ∧
    Registry.StandsFor types name t

/-- What names an enumeration says in the document which texts it lists. -/
theorem LeadsToValues.settles {types : List Registry.OrderedType} {o : OutputContext}
    {apiVersion name : String} (leads : LeadsToValues types o.view name)
    (made : Target.document? o apiVersion types = some document)
    (nodup : (types.map (·.name)).Nodup) (notNull : j ≠ .null) :
    ∃ values, (o.view.enumValues name).toOption = some values ∧
      Settles reading document (.object (mention name)) j
        (hasType "string" j && values.contains (enumText j)) := by
  obtain ⟨t, resolved, isEnum, stands⟩ := leads.enumeration
  obtain ⟨string, values, allowed⟩ := Definition.isEnum_iff.mp isEnum
  refine ⟨values, ?_, ?_⟩
  · rw [View.enumValues_toOption resolved, Definition.inlineValues?, allowed]
  · exact settles_of_rereads made nodup leads.plain stands fun _ _ back =>
      settles_enumeration string allowed notNull back

section

variable {s : OutputSettings} {nullable : Bool} {default? : Option Json} {docs : Documentation}
  {n : Nat} {ms : Keyed Json}

theorem settles_reread_mention {name : String} {answer : Bool} (notNull : j ≠ .null)
    (back : Json.rereadMembers? n (finish s nullable default? docs (mention name)) = some ms)
    (settled : Settles reading document (.object (mention name)) j answer) :
    Settles reading document (.object ms) j answer := by
  refine settles_reread_of_firm (m := 2) ?_ back
    (settles_notNull_of_untyped (mention_untyped name) notNull settled nullable)
  rw [allowNull_of_untyped (mention_untyped name)]
  cases nullable <;> rfl

theorem settles_reread_boolean (notNull : j ≠ .null)
    (back : Json.rereadMembers? n (finish s nullable default? docs (typed "boolean")) = some ms) :
    Settles reading document (.object ms) j (hasType "boolean" j) := by
  have spoken : Typed (typed "boolean") "boolean" :=
    .of_members rfl (by decide) (by decide)
  refine settles_reread_of_firm (m := 1) ?_ back
    (spoken.settles_notNull notNull (settles_typed "boolean") nullable)
  cases nullable <;> rfl

theorem bind_reread?_bound (bound : Option Binary64) (n : Nat) :
    (bound.map Binary64.toJson).bind (Json.reread? n) = Definition.published? bound := by
  cases bound with
  | none => rfl
  | some x =>
    rw [Option.map_some, Option.bind_some, Definition.published?, Option.bind_some]
    unfold Binary64.toJson
    split
    · split <;> rfl
    · rfl

theorem get?_limited {type lowerKey upperKey key : String} (apart : lowerKey ≠ upperKey)
    (plain : key ≠ "type") (lower upper : Option Json) :
    Keyed.get? (limited lowerKey upperKey lower upper type) key =
      if key = lowerKey then lower else if key = upperKey then upper else none := by
  rw [limited, Keyed.get?_union]
  by_cases low : key = lowerKey
  · subst low
    simp [typed, Keyed.get?_cons, plain, apart]
  · simp [typed, Keyed.get?_cons, plain, low]

section

variable {type lowerKey upperKey : String} (known : (type, lowerKey, upperKey) ∈ boundedTypes)
  (back : Json.rereadMembers? n (finish s nullable default? docs
    (bounded lowerKey upperKey d.min d.max (typed type))) = some ms)

include known

theorem typed_of_boundedTypes (d : Definition) :
    Typed (bounded lowerKey upperKey d.min d.max (typed type)) type := by
  have free : ∀ p ∈ boundedTypes, p.1 ≠ "null" ∧
      p.2.1 ∉ ["type", "enum", "const", "oneOf", "$ref"] ∧
      p.2.2 ∉ ["type", "enum", "const", "oneOf", "$ref"] := by decide
  obtain ⟨other, lower, upper⟩ := free _ known
  exact (Typed.of_typed other).bounded lower upper _ _

include back

/-- Bounds are read back as a document publishes them. -/
theorem get?_reread_bounded {key : String} (said : key ∈ assertions) (plain : key ≠ "type") :
    Keyed.get? ms key = Keyed.get? (limited lowerKey upperKey (Definition.published? d.min)
      (Definition.published? d.max) type) key := by
  have free : ∀ p ∈ boundedTypes, p.2.1 ≠ p.2.2 ∧ "enum" ≠ p.2.1 ∧ "enum" ≠ p.2.2 := by decide
  obtain ⟨apart, lower, upper⟩ := free _ known
  have notNoted : ∀ key ∈ assertions, key ∉ annotationKeys := by decide
  have unlisted : Keyed.get? (bounded lowerKey upperKey d.min d.max (typed type)) "enum" = none :=
    get?_bounded lower upper
  -- adding `null` changes no more than the type
  have members : Keyed.get? (if nullable then
        allowNull (bounded lowerKey upperKey d.min d.max (typed type))
      else bounded lowerKey upperKey d.min d.max (typed type)) key =
      Keyed.get? (limited lowerKey upperKey (d.min.map Binary64.toJson)
        (d.max.map Binary64.toJson) type) key := by
    cases nullable with
    | false => rfl
    | true =>
      rw [if_pos rfl, (typed_of_boundedTypes known d).get?_allowNull, if_neg plain]
      split
      · rename_i same
        subst same
        rw [unlisted]
        exact unlisted.symm
      · rfl
  rw [Json.get?_rereadMembers? back, get?_finish _ _ _ _ (notNoted key said), members,
    get?_limited apart plain, get?_limited apart plain]
  split
  · exact bind_reread?_bound d.min n
  · split
    · exact bind_reread?_bound d.max n
    · rfl

/-- Types are read back as they are. -/
theorem get?_type_reread_bounded : Keyed.get? ms "type" =
    some (if nullable then .array [.string type, .string "null"] else .string type) := by
  have spoken := typed_of_boundedTypes known d
  have members : Keyed.get? (finish s nullable default? docs
      (bounded lowerKey upperKey d.min d.max (typed type))) "type" =
      some (if nullable then .array [.string type, .string "null"] else .string type) := by
    rw [get?_finish _ _ _ _ (by decide)]
    cases nullable with
    | false => exact spoken.named
    | true => rw [if_pos rfl, spoken.get?_allowNull, if_pos rfl, if_pos rfl]
  obtain ⟨read, again, placed⟩ := Json.exists_reread_of_get? back members
  rw [placed, Json.eq_of_isFirm (m := 1) (by cases nullable <;> rfl) again]

/-- What is read back of a schema with bounds has those that are published. -/
theorem settles_reread_bounded (notNull : j ≠ .null) :
    Settles (measured rest) document (.object ms) j (hasType type j && d.withinPublished j) := by
  have notOfNull : hasType "null" j = false := by
    rw [hasType_null, Json.isNull_eq_false_iff.mpr notNull]
  have named : Keyed.get? (limited lowerKey upperKey (Definition.published? d.min)
      (Definition.published? d.max) type) "type" = some (.string type) := by
    have free : ∀ p ∈ boundedTypes, "type" ≠ p.2.1 ∧ "type" ≠ p.2.2 := by decide
    obtain ⟨lower, upper⟩ := free _ known
    simp [limited, typed, Keyed.get?_union, Keyed.get?_cons, lower, upper]
  have settled : Settles (measured rest) document (.object (limited lowerKey upperKey
      (Definition.published? d.min) (Definition.published? d.max) type)) j
      (hasType type j && d.withinPublished j) := settles_limited known d j
  refine settles_iff.mpr ((settles_iff.mp settled).mono fun k hk => ?_)
  rw [holds_object] at hk ⊢
  rw [← hk]
  refine holdsAt_of_same ?_ ?_ fun key said plain _ => get?_reread_bounded known back said plain
  · rw [asks, asks, get?_type_reread_bounded known back, named]
    cases nullable <;> simp [meetsType, Json.elements, Json.string?, notOfNull]
  · rw [asks, asks, get?_reread_bounded known back (by decide) (by decide)]

end

end

/-- The schema of a scalar as it is read back. -/
theorem settles_stated {types : List Registry.OrderedType} {o : OutputContext} {apiVersion : String}
    {n : Nat} {schema : Json} (made : Target.document? o apiVersion types = some document)
    (nodup : (types.map (·.name)).Nodup) (known : kind ∈ ScalarKind.unformatted)
    (named : ∀ name, kind = .string → d.allowed = some (.named name) →
      LeadsToValues types o.view name)
    (notNull : j ≠ .null) (fraction : ∀ x, j = .float x → x.toInt? = none)
    (hk : d.kind = .scalar kind) (unformatted : d.format = none)
    (back : (ofDefinition o.settings d.withTags).reread? n = some schema) :
    Settles (measured rest) document schema j (d.stated o.view kind j) := by
  rw [ofDefinition_withTags, hk, unformatted] at back
  obtain ⟨m, ms, -, members, rfl⟩ := Json.reread?_object_eq_some back
  rw [Definition.stated, ← hasType_typeOfKind known fraction]
  cases kind with
  | string =>
    cases ha : d.allowed with
    | none =>
      rw [ha] at members
      exact settles_reread_bounded (by decide) members notNull
    | some allowed =>
      rw [ha] at members
      cases allowed with
      | inline values =>
        have found : allowedValues? o.view d = some values := by rw [allowedValues?, ha]
        rw [Definition.lists, found]
        exact settles_reread_listing notNull members
      | named name =>
        obtain ⟨values, listed, settled⟩ := (named name rfl ha).settles made nodup notNull
        have found : allowedValues? o.view d = some values := by
          rw [allowedValues?, ha]
          exact listed
        rw [Definition.lists, found]
        exact settles_reread_mention notNull members settled
  | integer => exact settles_reread_bounded (by decide) members notNull
  | float => exact settles_reread_bounded (by decide) members notNull
  | decimal => exact settles_reread_bounded (by decide) members notNull
  | boolean =>
    have unbounded : (hasType "boolean" j && d.withinPublished j) = hasType "boolean" j := by
      cases j with
      | bool b => rw [Definition.withinPublished_of_no_magnitude rfl, Bool.and_true]
      | _ => rfl
    change Settles _ _ _ j (hasType "boolean" j && d.withinPublished j)
    rw [unbounded]
    exact settles_reread_boolean notNull members
  | _ => exact absurd known (by decide)

end OpenApi

/-! ### Agreement -/

/-- What the schema of a scalar says comes to what the validation asks: values that are listed are
within the bounds where only the list is said, and elsewhere the values within the published bounds
are those that are within the bounds and listed. -/
def Definition.Told (d : Definition) (view : View) (kind : ScalarKind) (j : Json) : Prop :=
  hasKind kind j = true →
    if kind = .string ∧ d.allowed.isSome = true then d.lists view j = true → d.within j = true
    else d.withinPublished j = true ↔ d.within j = true ∧ d.lists view j = true

instance (view : View) : Decidable (d.Told view kind j) := by
  unfold Definition.Told
  infer_instance

/-- Where bounds are whole numbers of 64 bits and no values are listed, all is told. -/
theorem Definition.told_of_whole (free : d.allowed = none)
    (whole : ∀ x, d.min = some x ∨ d.max = some x → ∃ n, x.toJson = .int n ∧ Json.InRange n)
    (view : View) : d.Told view kind j := by
  have published (x : Binary64) (h : d.min = some x ∨ d.max = some x) :
      Definition.published? (some x) = some x.toJson := by
    obtain ⟨n, written, range⟩ := whole x h
    exact Definition.published?_of_whole written range
  have same : d.withinPublished j = d.within j :=
    Definition.withinPublished_eq_within (fun x h => published x (.inl h))
      (fun x h => published x (.inr h)) j
  have listed : d.lists view j = true := by simp [Definition.lists, allowedValues?, free]
  intro _
  simp [free, same, listed]

theorem stated_eq_iff_told (view : View) :
    d.stated view kind j = (hasKind kind j && (d.within j && d.lists view j)) ↔
      d.Told view kind j := by
  unfold Definition.stated Definition.Told
  split <;> cases hasKind kind j <;> cases d.within j <;> cases d.lists view j <;> simp

/-- Payloads and documents agree on scalars of the kinds whose schemas name no format. If the name
of an enumeration leads to its values in the document, and a value, not `null` nor a whole number
written as a fraction, is compared as a double that is no bound unless it is one itself, then the
validation accepts the value just where it satisfies the schema as the document has it, read back
from its text, if and only if what the schema says comes to what the validation asks. -/
theorem scalar_agreement (c : Context) (rest : OpenApi.Reading) (s : OutputSettings)
    (apiVersion : String) (types : List Registry.OrderedType)
    (ordered : c.view.registry.ordered c.view.scope = .ok types) (d : Definition)
    (kind : ScalarKind) (hk : d.kind = .scalar kind) (known : kind ∈ ScalarKind.unformatted)
    (unformatted : d.format = none)
    (named : ∀ name, kind = .string → d.allowed = some (.named name) →
      OpenApi.LeadsToValues types c.view name)
    (j : Json) (notNull : j ≠ .null) (fraction : ∀ x, j = .float x → x.toInt? = none)
    (compares : hasKind kind j = true → d.Compares j) :
    let document? := Target.document? { settings := s, view := c.view } apiVersion types
    (Target.openApi apiVersion).file c.view s = (match document? with
        | some document => .ok (s.lineEnding.apply (Target.layOut s document))
        | none => .error .unreadableSchema) ∧
      ∀ document n schema, document? = some document →
        (OpenApi.ofDefinition s d.withTags).reread? n = some schema →
          (OpenApi.Settles (OpenApi.measured rest) document schema j (c.accepts d j) ↔
            d.Told c.view kind j) := by
  refine ⟨Target.file_openApi apiVersion c.view s ordered, fun document n schema made back => ?_⟩
  have settled : OpenApi.Settles (OpenApi.measured rest) document schema j
      (d.stated c.view kind j) :=
    OpenApi.settles_stated made (Registry.lists_of_ordered ordered).nodup known named notNull
      fraction hk unformatted back
  rw [← stated_eq_iff_told, ← accepts_scalar hk known unformatted notNull compares]
  exact ⟨settled.unique, fun same => same ▸ settled⟩

def tailor : Registry :=
  { tables := [(.api "tailor", [typeOf "Size" (.enumeration ["small", "large"])])] }

def tailorContext : Context := { view := ⟨tailor, .api "tailor"⟩, case := .preserve }

theorem sizes_listed : ∃ types, tailor.ordered (.api "tailor") = .ok types ∧
    Json.haveFirm Json.maxNesting
      (Target.components { settings := {}, view := tailorContext.view } types) = true ∧
    OpenApi.LeadsToValues types tailorContext.view "Size" :=
  ⟨_, rfl, by decide +kernel, by decide +kernel, _, rfl, rfl, .defined rfl⟩

def longSize : Definition :=
  { Definition.namedEnum "Size" with min := some ⟨false, 1, 1, by decide⟩ }

/-- A small size is accepted and satisfies the schema of such sizes. -/
theorem smallSize_agreed :
    ∃ types document schema, tailor.ordered (.api "tailor") = .ok types ∧
      Target.document? { settings := {}, view := tailorContext.view } "1.0.0" types =
        some document ∧
      (OpenApi.ofDefinition {} longSize.withTags).reread? Json.maxNesting = some schema ∧
      tailorContext.accepts longSize (.string "small") = true ∧
      OpenApi.Settles (OpenApi.measured OpenApi.unlimited) document schema (.string "small")
        true := by
  obtain ⟨types, ordered, firm, leads⟩ := sizes_listed
  have made := Target.document?_of_haveFirm firm "1.0.0"
  have back : (OpenApi.ofDefinition {} longSize.withTags).reread? Json.maxNesting =
      some (OpenApi.ofDefinition {} longSize.withTags) :=
    Json.reread?_of_isFirm _ _ (by decide +kernel)
  have accepted : tailorContext.accepts longSize (.string "small") = true := by decide +kernel
  have compares : longSize.Compares (.string "small") :=
    .of_few_bits nofun fun s h => by cases h; decide
  have agreed := ((scalar_agreement tailorContext OpenApi.unlimited {} "1.0.0" types ordered
    longSize .string rfl (by decide) rfl (fun name _ h => by cases h; exact leads)
    (.string "small") Json.noConfusion (fun _ h => Json.noConfusion h) fun _ => compares).2
    _ _ _ made back).mpr (by decide +kernel)
  rw [accepted] at agreed
  exact ⟨types, _, _, ordered, made, back, accepted, agreed⟩

/-- The double below one, whose text is read as one. -/
def almostOne : Binary64 := ⟨false, 2 ^ 53 - 1, -53, by decide⟩

/-- A listed text that is too short, in place and by name; a number and a flag that are not listed;
a number that as a double is the greatest there may be; and one that the published bound admits. -/
def disputedScalars : List (ScalarKind × Definition × Json) :=
  [(.string, { Definition.enumeration ["a"] with min := some ⟨false, 1, 1, by decide⟩ },
      .string "a"),
    (.string, { Definition.namedEnum "Size" with max := some ⟨false, 1, 1, by decide⟩ },
      .string "small"),
    (.integer, { Definition.scalar .integer with allowed := some (.inline ["1"]) }, .int 2),
    (.boolean, { Definition.scalar .boolean with allowed := some (.inline ["true"]) },
      .bool false),
    (.integer, { Definition.scalar .integer with max := some ⟨false, 1, 53, by decide⟩ },
      .int (2 ^ 53 + 1)),
    (.float, { Definition.scalar .float with max := some almostOne }, .int 1)]

/-- The schema, as it is read back, and the validation judge each of the disputed values
differently. -/
theorem scalars_disagreed :
    ∃ types document, tailor.ordered (.api "tailor") = .ok types ∧
      Target.document? { settings := {}, view := tailorContext.view } "1.0.0" types =
        some document ∧
      ∀ kind d j, (kind, d, j) ∈ disputedScalars → d.kind = .scalar kind ∧
        ∃ schema, (OpenApi.ofDefinition {} d.withTags).reread? Json.maxNesting = some schema ∧
          OpenApi.Settles (OpenApi.measured OpenApi.unlimited) document schema j
            (!tailorContext.accepts d j) := by
  obtain ⟨types, ordered, firm, leads⟩ := sizes_listed
  have made := Target.document?_of_haveFirm firm "1.0.0"
  refine ⟨types, _, ordered, made, fun kind d j disputed => ?_⟩
  have otherwise : ∀ p ∈ disputedScalars,
      p.2.1.stated tailorContext.view p.1 p.2.2 = !tailorContext.accepts p.2.1 p.2.2 := by
    decide +kernel
  have known : ∀ p ∈ disputedScalars, p.1 ∈ ScalarKind.unformatted := by decide +kernel
  have readable : ∀ p ∈ disputedScalars, ((OpenApi.ofDefinition {} p.2.1.withTags).reread?
      Json.maxNesting).isSome = true := by decide +kernel
  obtain ⟨schema, back⟩ := Option.isSome_iff_exists.mp (readable _ disputed)
  rw [← otherwise _ disputed]
  have sure : d.kind = .scalar kind ∧ d.format = none ∧
      (∀ name, d.allowed = some (.named name) → name = "Size") ∧ j ≠ .null ∧
      ∀ x, j ≠ .float x := by
    simp only [disputedScalars, List.mem_cons, Prod.mk.injEq, List.not_mem_nil, or_false]
      at disputed
    rcases disputed with ⟨rfl, rfl, rfl⟩ | ⟨rfl, rfl, rfl⟩ | ⟨rfl, rfl, rfl⟩ | ⟨rfl, rfl, rfl⟩ |
      ⟨rfl, rfl, rfl⟩ | ⟨rfl, rfl, rfl⟩ <;>
      exact ⟨rfl, rfl, fun _ h => by cases h <;> rfl, Json.noConfusion,
        fun _ => Json.noConfusion⟩
  obtain ⟨hk, unformatted, named, notNull, fraction⟩ := sure
  exact ⟨hk, schema, back, OpenApi.settles_stated (o := { settings := {}, view := _ }) made
    (Registry.lists_of_ordered ordered).nodup (known _ disputed)
    (fun name _ h => named name h ▸ leads) notNull (fun x h => absurd h (fraction x)) hk
    unformatted back⟩

end ApiContract
