import ApiContract.Proofs.ExcusedKeys
import ApiContract.Proofs.TaggedSchemas

/-!
# Unions in payloads and in documents

A payload is accepted by the first variant that takes it, or by the one that it names under the
discriminator; the schema of the union asks for exactly one alternative. The two agree where the
variants are told apart: no two accept the same value, or each says a tag of its own. The schema
refuses what two variants accept, and an object whose tag its variant does not declare; and the walk
over a union goes one level deeper than those over its variants.
-/

namespace ApiContract

open Validation

/-! ### Variants -/

/-- The schema of a definition takes what the validation accepts, `null` aside. -/
def OpenApi.Agrees (reading : OpenApi.Reading) (document : Json) (s : OutputSettings) (c : Context)
    (d : Definition) : Prop :=
  ∀ j, j ≠ .null →
    OpenApi.Settles reading document (OpenApi.ofDefinition s d.withTags) j (c.accepts d j)

/-- A variant of a tagged union is told by its tag: its fields stand in place and leave the
discriminator free, or its own type takes nothing without the tag. -/
inductive Variant.Tells (c : Context) (key tag : String) (v : Variant) : Prop where
  | inPlace {shape} (hk : v.definition.kind = .object shape)
    (free : ∀ f ∈ shape, f.name ≠ key ∧ f.wireName c.case ≠ c.case.apply key)
  | own (tagged : ∀ j, j ≠ .null → c.accepts v.definition j = true →
      j.get? (c.case.apply key) = some (.string tag))

/-- For one value the variants of a union are told apart: not two of them accept it, or each has a
tag of its own and is told by it. -/
def TellsApart (c : Context) (discriminator : Option String) (variants : List Variant) (j : Json) :
    Prop :=
  match discriminator with
  | none => variants.countP (fun v => c.accepts v.definition j) ≤ 1
  | some key => (variants.map Variant.tag).Nodup ∧
      ∀ v ∈ variants, ∃ tag, v.tag = some tag ∧ v.Tells c key tag

/-- An object has the tag of a variant, and conforms to it but for that key. -/
def Variant.Takes (c : Context) (key : String) (v : Variant) (j : Json) : Prop :=
  ∃ members tag, j = .object members ∧
    Keyed.get? members (c.case.apply key) = some (.string tag) ∧ v.tag = some tag ∧
    Conforms c [c.case.apply key] v.definition j

variable {c : Context} {key tag : String} {v : Variant} {value : Json}

/-- A variant takes what has its tag and conforms to it otherwise. -/
theorem Variant.takes_iff (ht : v.tag = some tag) :
    v.Takes c key value ↔ value.get? (c.case.apply key) = some (.string tag) ∧
      Conforms c [c.case.apply key] v.definition value := by
  constructor
  · rintro ⟨members, tag', rfl, found, ht', conforms⟩
    rw [ht] at ht'
    cases ht'
    exact ⟨found, conforms⟩
  · rintro ⟨found, conforms⟩
    cases value with
    | object members => exact ⟨members, tag, rfl, found, ht, conforms⟩
    | _ => cases found

open scoped Classical in
/-- The schema of a variant takes what the variant takes. -/
theorem settles_takes {reading : OpenApi.Reading} {document : Json} {s : OutputSettings}
    (same : s.keyCase = c.case) (ht : v.tag = some tag) (tells : v.Tells c key tag)
    (own : OpenApi.Agrees reading document s c v.definition) (notNull : value ≠ .null)
    (ends : value.get? (c.case.apply key) = some (.string tag) →
      c.endsWithin nestingLimit v.definition value = true) :
    OpenApi.Settles reading document (OpenApi.ofDefinition s (v.withTags (some key)).definition)
      value (decide (v.Takes c key value)) := by
  cases tells with
  | @inPlace shape hk free =>
    by_cases object : ∃ members, value = .object members
    · obtain ⟨members, rfl⟩ := object
      have settled := OpenApi.settles_inPlace (s := s) ht hk (fun f hf => (free f hf).1)
        (fun f hf => same ▸ (free f hf).2)
        (own (.object (Keyed.erase (s.keyCase.apply key) members)) Json.noConfusion)
      rw [same] at settled
      convert settled using 1
      rw [Bool.eq_iff_iff, decide_eq_true_eq, Bool.and_eq_true, beq_iff_eq, Variant.takes_iff ht]
      refine and_congr_right fun found => ?_
      rw [conforms_erase_iff hk fun f hf => (free f hf).2,
        accepts_iff_conforms (Nat.le_succ _) (endsWithin_erase _ (ends found))]
    · have refused : decide (v.Takes c key value) = false :=
        decide_eq_false fun ⟨members, _, is, _⟩ => object ⟨members, is⟩
      rw [refused]
      exact OpenApi.settles_of_not_object (Variant.kind_withTags key ht hk) notNull
        fun members is => object ⟨members, is⟩
  | own tagged =>
    have agreed : decide (v.Takes c key value) = c.accepts v.definition value := by
      rw [Bool.eq_iff_iff, decide_eq_true_eq, Variant.takes_iff ht]
      constructor
      · rintro ⟨found, conforms⟩
        cases value with
        | object members => exact (accepts_iff_excused tagged (ends found)).mpr conforms
        | _ => cases found
      · intro h
        have found := tagged value notNull h
        cases value with
        | object members => exact ⟨found, (accepts_iff_excused tagged (ends found)).mp h⟩
        | _ => cases found
    rw [agreed]
    exact OpenApi.settles_of_tagged ht own (same ▸ tagged) notNull

/-! ### Unions -/

/-- If it is no more than one, there is exactly one just where there is any. -/
theorem countP_beq_one {α : Type} {p : α → Bool} {xs : List α} (few : xs.countP p ≤ 1) :
    (xs.countP p == 1) = xs.any p := by
  rw [Bool.eq_iff_iff, beq_iff_eq, List.any_eq_true, ← List.countP_pos_iff]
  omega

/-- Among distinct tags at most one is that of a value. -/
theorem countP_le_one_of_nodup {variants : List Variant} {p : Variant → Bool}
    (distinct : (variants.map Variant.tag).Nodup) {t : Option String}
    (h : ∀ v ∈ variants, p v = true → v.tag = t) : variants.countP p ≤ 1 := by
  calc variants.countP p
      ≤ variants.countP (fun v => v.tag == t) :=
        List.countP_mono_left fun v hv hp => by simpa using h v hv hp
    _ = (variants.map Variant.tag).count t := by
        rw [List.count, List.countP_map]
        rfl
    _ ≤ 1 := List.nodup_iff_count_le_one.mp distinct t

/-- With distinct tags a tag leads to its variant. -/
theorem tagged?_eq_some_of_mem {variants : List Variant}
    (distinct : (variants.map Variant.tag).Nodup) (hv : v ∈ variants) (ht : v.tag = some tag) :
    Variant.tagged? variants tag = some v := by
  rw [Variant.tagged?]
  cases found : variants.find? (fun v => v.tag == some tag) with
  | none => exact absurd ht (by simpa using List.find?_eq_none.mp found v hv)
  | some u =>
    have tagged : u.tag = some tag := by simpa using List.find?_some found
    rw [List.inj_on_of_nodup_map distinct (List.mem_of_find?_eq_some found) hv
      (tagged.trans ht.symm)]

/-- The validation of a value other than `null` against a union without a discriminator. -/
theorem accepts_untagged {u : Definition} {variants : List Variant}
    (hk : u.kind = .union none variants) (notNull : value ≠ .null)
    (ends : c.endsWithin (nestingLimit + 1) u value = true) :
    c.accepts u value = variants.any fun v => c.accepts v.definition value := by
  have inside (v : Variant) (hv : v ∈ variants) :
      c.accepts v.definition value = true ↔ Conforms c [] v.definition value := by
    simp only [Context.endsWithin, hk, List.all_eq_true] at ends
    exact accepts_iff_conforms (Nat.le_succ _) (ends v hv)
  rw [Bool.eq_iff_iff, accepts_iff_conforms le_rfl ends,
    conforms_iff [] (by simp [Json.isNull_eq_false_iff.mpr notNull]), List.any_eq_true]
  unfold StepMeets
  rw [hk]
  exact exists_congr fun v => and_congr_right fun hv => (inside v hv).symm

open scoped Classical in
/-- A tagged union accepts what one of its variants takes. -/
theorem accepts_tagged {u : Definition} {variants : List Variant}
    (hk : u.kind = .union (some key) variants) (notNull : value ≠ .null)
    (distinct : (variants.map Variant.tag).Nodup)
    (ends : c.endsWithin (nestingLimit + 1) u value = true) :
    c.accepts u value = variants.any fun v => decide (v.Takes c key value) := by
  rw [Bool.eq_iff_iff, accepts_iff_conforms le_rfl ends,
    conforms_iff [] (by simp [Json.isNull_eq_false_iff.mpr notNull]), List.any_eq_true]
  unfold StepMeets
  rw [hk]
  simp only [decide_eq_true_eq]
  constructor
  · rintro ⟨members, tag, v, is, found, chosen, conforms⟩
    have ht : v.tag = some tag := by simpa using List.find?_some chosen
    exact ⟨v, List.mem_of_find?_eq_some chosen, members, tag, is, found, ht, conforms⟩
  · rintro ⟨v, hv, members, tag, is, found, ht, conforms⟩
    exact ⟨members, tag, v, is, found, tagged?_eq_some_of_mem distinct hv ht, conforms⟩

/-- Where each alternative says what its variant takes, a union's schema asks for exactly one. -/
theorem settles_union {reading : OpenApi.Reading} {document : Json} {s : OutputSettings}
    {u : Definition} {discriminator : Option String} {variants : List Variant}
    (hk : u.kind = .union discriminator variants) (notNull : value ≠ .null)
    {answer : Variant → Bool}
    (each : ∀ v ∈ variants, OpenApi.Settles reading document
      (OpenApi.ofDefinition s (v.withTags discriminator).definition) value (answer v)) :
    OpenApi.Settles reading document (OpenApi.ofDefinition s u.withTags) value
      (variants.countP answer == 1) := by
  rw [OpenApi.ofDefinition_withTags, OpenApi.settles_finish, hk, Kind.withTags, OpenApi.ofKind,
    OpenApi.ofVariants_eq, Variant.listWithTags_eq, List.map_map]
  exact OpenApi.settles_notNull_of_untyped (OpenApi.ofUnion_untyped _ _ _ _) notNull
    (OpenApi.settles_ofUnion each s.keyCase discriminator
      (variants.map (Variant.withTags discriminator))) u.nullable

/-- Payloads and documents agree on unions. If the schema of each variant's own type takes, `null`
aside, what the validation accepts of it, then so does the schema of the union with a value that its
variants are told apart for, and that is not nested too deeply in the union. -/
theorem union_agreement (c : Context) (reading : OpenApi.Reading) (document : Json)
    (s : OutputSettings) (same : s.keyCase = c.case) (u : Definition)
    (discriminator : Option String) (variants : List Variant)
    (hk : u.kind = .union discriminator variants)
    (own : ∀ v ∈ variants, OpenApi.Agrees reading document s c v.definition)
    (value : Json) (notNull : value ≠ .null) (apart : TellsApart c discriminator variants value)
    (ends : c.endsWithin (nestingLimit + 1) u value = true) :
    OpenApi.Settles reading document (OpenApi.ofDefinition s u.withTags) value
      (c.accepts u value) := by
  cases discriminator with
  | none =>
    rw [accepts_untagged hk notNull ends, ← countP_beq_one apart]
    exact settles_union hk notNull fun v hv => own v hv value notNull
  | some key =>
    classical
    obtain ⟨distinct, tells⟩ := apart
    -- all variants that take the value have its tag
    have few : variants.countP (fun v => decide (v.Takes c key value)) ≤ 1 := by
      refine countP_le_one_of_nodup distinct (t := (value.get? (c.case.apply key)).bind
        Json.string?) fun v hv takes => ?_
      obtain ⟨members, tag, rfl, found, ht, -⟩ := of_decide_eq_true takes
      rw [ht, Json.get?_object, found]
      rfl
    rw [accepts_tagged hk notNull distinct ends, ← countP_beq_one few]
    refine settles_union hk notNull fun v hv => ?_
    obtain ⟨tag, ht, tells⟩ := tells v hv
    refine settles_takes same ht tells (own v hv) notNull fun found => ?_
    -- a variant with the tag of the value is the one that the walk goes down to
    have chosen := tagged?_eq_some_of_mem distinct hv ht
    cases value with
    | object members =>
      simp only [Context.endsWithin, hk] at ends
      rw [Json.get?_object] at found
      simpa [found, chosen] using ends
    | _ => cases found

/-- Nothing but the empty object is one without fields. -/
theorem agrees_empty {reading : OpenApi.Reading} {document : Json} {s : OutputSettings} :
    OpenApi.Agrees reading document s c (.object []) := by
  intro j notNull
  have ends : c.endsWithin 1 (.object []) j = true := by cases j <;> rfl
  have accepted : c.accepts (.object []) j = true ↔ j = .object [] := by
    rw [accepts_iff_conforms (by decide) ends, conforms_object_iff]
    constructor
    · rintro ⟨members, rfl, meets⟩
      rcases members with _ | ⟨p, rest⟩
      · rfl
      · exact absurd (meets.known p.1 List.mem_cons_self) (by simp)
    · rintro rfl
      exact ⟨[], rfl, nofun, nofun, nofun⟩
  rw [OpenApi.settles_object (Definition.kind_withTags_of_object rfl) notNull]
  refine .of_forall fun n => ?_
  rw [accepted]
  constructor
  · rintro ⟨members, rfl, meets⟩
    rcases members with _ | ⟨p, rest⟩
    · rfl
    · exact absurd (meets.known p.1 List.mem_cons_self) List.not_mem_nil
  · rintro rfl
    exact ⟨[], rfl, nofun, nofun, nofun⟩

def gate : Definition :=
  .taggedUnion "gate_state" [{ tag := some "open", definition := .object [] },
    { tag := some "shut", definition := .object [] }]

def openGate : Json := .object [("gateState", .string "open")]

/-- An open gate is accepted and satisfies the schema of gates. -/
theorem openGate_agreed :
    let c : Context := { view := ⟨.empty, .global⟩, case := .camel }
    let s : OutputSettings := { keyCase := .camel }
    c.accepts gate openGate = true ∧
      ∃ document, Target.document? { settings := s, view := c.view } "1.0.0" [] = some document ∧
        OpenApi.Settles OpenApi.unlimited document (OpenApi.ofDefinition s gate.withTags) openGate
          true := by
  intro c s
  have accepted : c.accepts gate openGate = true := by decide +kernel
  have tells (v : Variant) (hv : v ∈ [{ tag := some "open", definition := .object [] },
      { tag := some "shut", definition := Definition.object [] }]) :
      v.definition = .object [] ∧ ∃ tag, v.tag = some tag ∧ v.Tells c "gate_state" tag := by
    rcases List.mem_cons.mp hv with rfl | hv
    · exact ⟨rfl, _, rfl, .inPlace rfl nofun⟩
    · obtain rfl := List.mem_singleton.mp hv
      exact ⟨rfl, _, rfl, .inPlace rfl nofun⟩
  refine ⟨accepted, _, Target.document?_of_haveFirm (by decide +kernel) "1.0.0", ?_⟩
  have agreed := union_agreement c OpenApi.unlimited (Target.draft { settings := s, view := c.view }
    "1.0.0" []) s rfl gate (some "gate_state") _ rfl (fun v hv => (tells v hv).1 ▸ agrees_empty)
    openGate Json.noConfusion ⟨by decide, fun v hv => (tells v hv).2⟩ (by decide +kernel)
  rwa [accepted] at agreed

/-! ### Disagreement -/

section

variable {reading : OpenApi.Reading} {document : Json} {s : OutputSettings}

/-- Where no tag is put into a variant, exactly one of the variants' own types has to accept. -/
theorem settles_union_of_agrees {u : Definition} {discriminator : Option String}
    {variants : List Variant} (hk : u.kind = .union discriminator variants)
    (notNull : value ≠ .null)
    (own : ∀ v ∈ variants, OpenApi.Agrees reading document s c v.definition)
    (plain : ∀ v ∈ variants, (v.withTags discriminator).definition = v.definition.withTags)
    {n : Nat} (count : variants.countP (fun v => c.accepts v.definition value) = n) :
    OpenApi.Settles reading document (OpenApi.ofDefinition s u.withTags) value (n == 1) := by
  rw [← count]
  refine settles_union hk notNull fun v hv => ?_
  rw [plain v hv]
  exact own v hv value notNull

/-- A reference to a type in a document agrees if the type does, and all its walks end in time. -/
theorem agrees_reference (represents : OpenApi.Represents reading document s c.view) {name : String}
    {d : Definition} (found : c.view.definition? name = some d)
    (ends : ∀ j, c.endsWithin nestingLimit d j = true)
    (own : OpenApi.Agrees reading document s c d) :
    OpenApi.Agrees reading document s c (.reference name) := by
  intro j notNull
  have same : c.accepts (.reference name) j = c.accepts d j := by
    have there : c.endsWithin (nestingLimit + 1) (.reference name) j = true := by
      simp [Context.endsWithin, Definition.reference, found, ends j]
    rw [Bool.eq_iff_iff, accepts_iff_conforms le_rfl there,
      accepts_iff_conforms (Nat.le_succ _) (ends j),
      conforms_iff [] (by simp [takesNull, Definition.reference])]
    constructor
    · rintro ⟨e, he, h⟩
      rw [found] at he
      cases he
      exact h
    · intro h
      exact ⟨d, found, h⟩
  rw [same, OpenApi.ofDefinition_withTags, OpenApi.settles_finish]
  exact represents name d j _ found (own j notNull)

def flags : Nat → Definition
  | 0 => .scalar .boolean
  | n + 1 => .arrayOf (flags n)

def areFlags : Nat → Json → Bool
  | 0, .bool _ => true
  | n + 1, .array elements => elements.all (areFlags n)
  | _, _ => false

/-- Lists of flags are told by their nesting. -/
theorem conforms_flags (n : Nat) (j : Json) : Conforms c [] (flags n) j ↔ areFlags n j = true := by
  induction n generalizing j with
  | zero =>
    rw [conforms_iff [] (by simp [flags, Definition.scalar, takesNull])]
    constructor
    · rintro ⟨-, meets⟩
      have kind := meets.ofKind
      cases j <;> first | rfl | cases kind
    · intro h
      cases j with
      | bool b =>
        refine ⟨Json.noConfusion, rfl, fun numeric => ?_, fun text => ?_, fun _ text => ?_,
          fun _ listed => ?_⟩
        · cases numeric
        · cases text
        · cases text
        · cases listed
      | _ => cases h
  | succ n ih =>
    rw [conforms_iff [] (by simp [flags, Definition.arrayOf, takesNull])]
    constructor
    · rintro ⟨elements, rfl, -, each⟩
      exact List.all_eq_true.mpr fun m hm => (ih m).mp (each m hm)
    · intro h
      cases j with
      | array elements =>
        have unbounded : (flags (n + 1)).Counts elements :=
          fun _ _ => ⟨by simp [flags, Definition.arrayOf], by simp [flags, Definition.arrayOf]⟩
        exact ⟨elements, rfl, unbounded, fun m hm => (ih m).mpr (List.all_eq_true.mp h m hm)⟩
      | _ => cases h

theorem endsWithin_flags (n : Nat) (j : Json) : c.endsWithin (n + 1) (flags n) j = true := by
  induction n generalizing j with
  | zero => cases j <;> rfl
  | succ n ih =>
    cases j with
    | array elements => exact List.all_eq_true.mpr fun m _ => ih m
    | _ => rfl

/-- Their schemas take the same lists. -/
theorem settles_flags (n : Nat) (j : Json) :
    OpenApi.Settles reading document (OpenApi.ofDefinition s (flags n).withTags) j
      (areFlags n j) := by
  induction n generalizing j with
  | zero =>
    rw [OpenApi.ofDefinition_withTags, OpenApi.settles_finish]
    have same : OpenApi.hasType "boolean" j = areFlags 0 j := by cases j <;> rfl
    exact same ▸ OpenApi.settles_typed "boolean"
  | succ n ih =>
    rw [OpenApi.ofDefinition_withTags, OpenApi.settles_finish]
    change OpenApi.Settles reading document (.object [("items",
      OpenApi.ofDefinition s (flags n).withTags), ("type", .string "array")]) j _
    cases j with
    | array elements =>
      have all : ∀ᶠ k in Filter.atTop, ∀ m ∈ elements, OpenApi.holds reading document k
          (OpenApi.ofDefinition s (flags n).withTags) m = areFlags n m :=
        (Filter.eventually_all_finite (List.finite_toSet elements)).mpr fun m _ => ih m
      refine OpenApi.settles_iff.mpr (all.mono fun k each => ?_)
      rw [OpenApi.holds_object]
      have same : elements.all (areFlags n) = elements.all (OpenApi.holds reading document k
          (OpenApi.ofDefinition s (flags n).withTags)) := by
        rw [Bool.eq_iff_iff, List.all_eq_true, List.all_eq_true]
        exact forall₂_congr fun m hm => by rw [each m hm]
      rw [areFlags, same]
      simp [OpenApi.holdsAt, OpenApi.keepsLimits, OpenApi.limits, OpenApi.holdsInside,
        OpenApi.asks, Keyed.get?_cons, OpenApi.meetsType, OpenApi.hasType]
    | _ =>
      refine OpenApi.settles_iff.mpr (.of_forall fun k => ?_)
      simp [OpenApi.holds_object, OpenApi.holdsAt, OpenApi.asks, Keyed.get?_cons,
        OpenApi.meetsType, OpenApi.hasType, areFlags]

theorem agrees_flags {n : Nat} (few : n ≤ nestingLimit) :
    OpenApi.Agrees reading document s c (flags n) := by
  intro j _
  have accepted : c.accepts (flags n) j = areFlags n j := by
    rw [Bool.eq_iff_iff, accepts_iff_conforms (Nat.succ_le_succ few) (endsWithin_flags n j),
      conforms_flags]
  rw [accepted]
  exact settles_flags n j

end

def cashDesk : Registry := { tables := [(.api "desk", [typeOf "Voucher" (.object [])])] }

def deskContext : Context := { view := ⟨cashDesk, .api "desk"⟩, case := .preserve }

def byVoucher : Definition :=
  .taggedUnion "kind" [{ tag := some "voucher", definition := .reference "Voucher" }]

def voucher : Json := .object [("kind", .string "voucher")]

def flagLists : Definition := .union [flags 1, flags 2]

def deepFlag : Definition := .union [flags nestingLimit]

def flagWithin : Nat → Json
  | 0 => .bool true
  | n + 1 => .array [flagWithin n]

theorem cashDesk_represented {reading : OpenApi.Reading} :
    ∃ types document, cashDesk.ordered (.api "desk") = .ok types ∧
      Target.document? { settings := {}, view := deskContext.view } "1.0.0" types = some document ∧
      OpenApi.Represents reading document {} deskContext.view := by
  refine ⟨_, _, rfl, Target.document?_of_haveFirm (by decide +kernel) _,
    OpenApi.represents_draft {} deskContext.view (by decide +kernel) (by decide +kernel)
      fun name t resolved => ?_⟩
  obtain rfl := List.mem_singleton.mp
    (Registry.mem_keys_visible (Registry.contains_of_resolveWithin resolved))
  cases resolved
  exact .defined rfl

/-- An empty list that is told from no variant, a voucher that does not declare its tag, and a flag
nested as deeply as its own type allows: the validation judges each in one way and the schema in the
other, though the schemas of all variants agree. -/
theorem unions_disagreed :
    ∃ types document, cashDesk.ordered (.api "desk") = .ok types ∧
      Target.document? { settings := {}, view := deskContext.view } "1.0.0" types = some document ∧
      let agrees := OpenApi.Agrees OpenApi.unlimited document {} deskContext
      let settles (d : Definition) :=
        OpenApi.Settles OpenApi.unlimited document (OpenApi.ofDefinition {} d.withTags)
      ((agrees (flags 1) ∧ agrees (flags 2)) ∧
        deskContext.accepts flagLists (.array []) = true ∧
        settles flagLists (.array []) false) ∧
      (agrees (.reference "Voucher") ∧ deskContext.accepts byVoucher voucher = true ∧
        settles byVoucher voucher false) ∧
      agrees (flags nestingLimit) ∧
      deskContext.accepts deepFlag (flagWithin nestingLimit) = false ∧
      settles deepFlag (flagWithin nestingLimit) true := by
  obtain ⟨types, document, ordered, made, represents⟩ := cashDesk_represented
  refine ⟨types, document, ordered, made, ?_⟩
  intro agrees settles
  have one : agrees (flags 1) := agrees_flags (by decide)
  have two : agrees (flags 2) := agrees_flags (by decide)
  have deep : agrees (flags nestingLimit) := agrees_flags le_rfl
  have vouchers : agrees (.reference "Voucher") :=
    agrees_reference represents rfl (fun j => by cases j <;> rfl) agrees_empty
  refine ⟨⟨⟨one, two⟩, by decide +kernel, ?_⟩, ⟨vouchers, by decide +kernel, ?_⟩, deep,
    by decide +kernel, ?_⟩
  · exact settles_union_of_agrees (n := 2) rfl Json.noConfusion
      (List.forall_mem_cons.mpr ⟨one, List.forall_mem_singleton.mpr two⟩) (fun _ _ => rfl)
      (by decide +kernel)
  · refine settles_union_of_agrees (n := 0) rfl Json.noConfusion
      (List.forall_mem_singleton.mpr vouchers) (List.forall_mem_singleton.mpr ?_)
      (by decide +kernel)
    exact OpenApi.definition_withTags_of_declared nofun
  · exact settles_union_of_agrees (n := 1) rfl Json.noConfusion
      (List.forall_mem_singleton.mpr deep) (fun _ _ => rfl) (by decide +kernel)

end ApiContract
