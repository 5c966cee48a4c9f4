import ApiContract.Proofs.NamedConformance
import ApiContract.Proofs.DefinitionSearch

/-!
# Payloads that stay accepted

Conversion may make another value of an accepted payload, where a union without a discriminator has
a boolean variant or takes the first variant whose conversion it accepts. Around it nothing changes
but that value: the keys of objects, the length of arrays and the tags of tagged unions stay. So the
converted payload conforms as well.
-/

namespace ApiContract

open Validation

def Definition.isLiteral (d : Definition) : Bool :=
  match d.kind with
  | .literal _ => true
  | _ => false

theorem Definition.kind_of_isLiteral {d : Definition} (h : d.isLiteral = true) :
    ∃ value, d.kind = .literal value := by
  unfold isLiteral at h
  split at h
  · exact ⟨_, ‹_›⟩
  · cases h

def Field.FixedUnder (case : KeyCase) (wire : String) (shape : List Field) : Prop :=
  ∀ f ∈ shape, f.wireName case = wire → f.definition.isLiteral = true

instance (case : KeyCase) (wire : String) (shape : List Field) :
    Decidable (Field.FixedUnder case wire shape) :=
  inferInstanceAs (Decidable (∀ f ∈ shape, f.wireName case = wire → f.definition.isLiteral = true))

/-- A definition spells the fields of a shape apart, has an enumeration on no boolean variant, and
tells only shapes apart by a tag, where the tag is a literal if a field has it. -/
structure Definition.Convertible (c : Context) (d : Definition) : Prop where
  apart : (d.fields.map (Field.wireName c.case)).Nodup
  boolean : ∀ variants, d.kind = .union none variants →
    ∀ v ∈ variants, v.definition.scalarKind? = some .boolean → v.definition.allowed = none
  tagged : ∀ key variants, d.kind = .union (some key) variants →
    ∀ v ∈ variants,
      v.definition.ComesToShapes c.view (Field.FixedUnder c.case (c.case.apply key))

/-- Whether a definition is convertible, where tagged variants come to shapes within some levels. -/
def Context.converts (c : Context) (n : Nat) (d : Definition) : Bool :=
  decide (d.fields.map (Field.wireName c.case)).Nodup &&
    match d.kind with
    | .union none variants => variants.all fun v =>
      v.definition.scalarKind? != some .boolean || v.definition.allowed.isNone
    | .union (some key) variants => variants.all fun v =>
      c.view.comesToShapes (fun shape => decide (Field.FixedUnder c.case (c.case.apply key) shape))
        n v.definition
    | _ => true

/-- What the check accepts is convertible. -/
theorem Context.converts_sound {c : Context} {n : Nat} {d : Definition}
    (h : c.converts n d = true) : d.Convertible c := by
  rw [converts, Bool.and_eq_true, decide_eq_true_eq] at h
  obtain ⟨apart, h⟩ := h
  refine ⟨apart, ?_, ?_⟩
  · intro variants hk v hv hb
    simp only [hk, List.all_eq_true] at h
    simpa [hb] using h v hv
  · intro key variants hk v hv
    simp only [hk, List.all_eq_true] at h
    exact View.comesToShapes_sound (fun shape hs => of_decide_eq_true hs) (h v hv)

namespace Coercion

variable {c : Context} {case : KeyCase} {next : Converter} {shape : List Field}
  {members : Keyed Json}

/-! ### Members -/

def membersOf (case : KeyCase) (next : Converter) (shape : List Field) (members : Keyed Json) :
    Keyed Json :=
  shape.foldl (fun ms f => Keyed.modify (f.wireName case) (next f.definition) ms) members

theorem object_eq (case : KeyCase) (next : Converter) (shape : List Field)
    (members : Keyed Json) :
    object case next shape (.object members) = .object (membersOf case next shape members) := rfl

theorem keys_membersOf : Keyed.keys (membersOf case next shape members) = members.keys := by
  induction shape generalizing members with
  | nil => rfl
  | cons f rest ih =>
    rw [membersOf, List.foldl_cons]
    exact ih.trans (Keyed.keys_modify _ _ _)

theorem get?_membersOf_of_not_mem {key : String} (h : key ∉ shape.map (Field.wireName case)) :
    Keyed.get? (membersOf case next shape members) key = Keyed.get? members key := by
  induction shape generalizing members with
  | nil => rfl
  | cons f rest ih =>
    obtain ⟨hf, hr⟩ : key ≠ f.wireName case ∧ key ∉ rest.map (Field.wireName case) := by
      simpa using h
    rw [membersOf, List.foldl_cons]
    exact (ih hr).trans (by rw [Keyed.get?_modify, if_neg hf])

/-- A member is converted once if no other field goes by its key. -/
theorem get?_membersOf (apart : (shape.map (Field.wireName case)).Nodup) {f : Field}
    (hf : f ∈ shape) :
    Keyed.get? (membersOf case next shape members) (f.wireName case) =
      (Keyed.get? members (f.wireName case)).map (next f.definition) := by
  induction shape generalizing members with
  | nil => cases hf
  | cons g rest ih =>
    obtain ⟨hg, hr⟩ := List.nodup_cons.mp apart
    rw [membersOf, List.foldl_cons]
    rcases List.mem_cons.mp hf with rfl | hf
    · exact (get?_membersOf_of_not_mem hg).trans (by rw [Keyed.get?_modify, if_pos rfl])
    · have hne : f.wireName case ≠ g.wireName case := by
        intro he
        exact hg (he ▸ List.mem_map_of_mem hf)
      exact (ih hr hf).trans (by rw [Keyed.get?_modify, if_neg hne])

/-- Converted members meet their shape if each converted value is accepted. -/
theorem meetsShape_membersOf (next : Converter) {tags : List String}
    {P Q : Definition → Json → Prop} (apart : (shape.map (Field.wireName case)).Nodup)
    (meets : MeetsShape case tags P shape members)
    (converted : ∀ f ∈ shape, ∀ m, Keyed.get? members (f.wireName case) = some m →
      Q f.definition (next f.definition m)) :
    MeetsShape case tags Q shape (membersOf case next shape members) where
  known := by
    rw [keys_membersOf]
    exact meets.known
  present := by
    intro f hf m hm
    rw [get?_membersOf apart hf] at hm
    obtain ⟨x, hx, rfl⟩ := Option.map_eq_some_iff.mp hm
    exact converted f hf x hx
  absent := by
    intro f hf hn
    rw [get?_membersOf apart hf, Option.map_eq_none_iff] at hn
    exact meets.absent f hf hn

/-! ### Tags -/

/-- A literal that is accepted is converted to itself. -/
theorem convert_literal {n : Nat} {tags : List String} {d : Definition} {value j : Json}
    (hk : d.kind = .literal value) (clean : CleanBy (judge c n) tags d j) :
    convert c n d j = j := by
  cases n with
  | zero => rfl
  | succ n =>
    rw [convert_succ, step]
    by_cases hj : j.isNull = true
    · rw [if_pos hj]
    · have hn : (j.isNull && takesNull d) = false := by simp [hj]
      rw [cleanBy_judge_iff_stepMeets c n tags hn] at clean
      unfold StepMeets at clean
      rw [hk] at clean
      rw [if_neg hj, hk]
      exact literal_of_sameValue clean

/-- Conversion of an accepted object leaves a string alone that no field can change. -/
theorem keepsTag_of_comesToShapes {wire tag : String} {d : Definition}
    (shapes : d.ComesToShapes c.view (Field.FixedUnder c.case wire)) {n : Nat}
    {tags : List String}
    (clean : CleanBy (judge c n) tags d (.object members))
    (convertible : d.Throughout c.view (Definition.Convertible c))
    (ht : Keyed.get? members wire = some (.string tag)) :
    ∃ ms, convert c n d (.object members) = .object ms ∧
      Keyed.get? ms wire = some (.string tag) := by
  have hn : ∀ d, ((Json.object members).isNull && takesNull d) = false := fun d => rfl
  have hj : ¬ (Json.object members).isNull = true := by simp [Json.isNull]
  induction shapes generalizing n tags with
  | @object d shape hk fixed =>
    cases n with
    | zero => exact absurd clean (not_cleanBy_judge_zero c _ _ _)
    | succ n =>
      rw [cleanBy_judge_iff_stepMeets c n tags (hn d)] at clean
      unfold StepMeets at clean
      rw [hk] at clean
      obtain ⟨_, he, meets⟩ := clean
      cases he
      rw [convert_succ, step, if_neg hj, hk]
      refine ⟨_, object_eq c.case (convert c n) shape members, ?_⟩
      by_cases hw : wire ∈ shape.map (Field.wireName c.case)
      · obtain ⟨f, hf, rfl⟩ := List.mem_map.mp hw
        have apart : (shape.map (Field.wireName c.case)).Nodup :=
          Definition.fields_of_object hk ▸ convertible.self.apart
        obtain ⟨value, hv⟩ := Definition.kind_of_isLiteral (fixed f hf rfl)
        rw [get?_membersOf apart hf, ht, Option.map_some,
          convert_literal hv (meets.present f hf _ ht)]
      · rw [get?_membersOf_of_not_mem hw, ht]
  | @reference d target hk _ ih =>
    cases n with
    | zero => exact absurd clean (not_cleanBy_judge_zero c _ _ _)
    | succ n =>
      rw [cleanBy_judge_iff_stepMeets c n tags (hn d)] at clean
      unfold StepMeets at clean
      rw [hk] at clean
      obtain ⟨definition, hd, h⟩ := clean
      rw [convert_succ, step, if_neg hj, hk]
      simp only [hd]
      exact ih definition hd h (convertible.reference hk hd)
  | @tagged d key variants hk _ ih =>
    cases n with
    | zero => exact absurd clean (not_cleanBy_judge_zero c _ _ _)
    | succ n =>
      rw [cleanBy_judge_iff_stepMeets c n tags (hn d)] at clean
      unfold StepMeets at clean
      rw [hk] at clean
      obtain ⟨_, s, variant, he, hs, hv, h⟩ := clean
      cases he
      have hc : Variant.chosenBy? variants (c.case.apply key) (.object members) = some variant := by
        simp [Variant.chosenBy?, Json.get?, hs, Json.string?, hv]
      have hm : variant ∈ variants := List.mem_of_find?_eq_some hv
      rw [convert_succ, step, if_neg hj, hk]
      simp only [hc]
      exact ih variant hm h (convertible.variant hk hm)

/-! ### Unions without a discriminator -/

/-- The trial that is taken has been accepted as what it became. -/
theorem accepts_of_firstAccepted? {variants : List Variant} {j k : Json}
    (h : firstAccepted? c next j variants = some k) :
    ∃ v ∈ variants, c.accepts v.definition k = true := by
  induction variants with
  | nil => cases h
  | cons variant rest ih =>
    simp only [firstAccepted?] at h
    split at h
    · rename_i ha
      cases h
      exact ⟨variant, List.mem_cons_self, ha⟩
    · obtain ⟨v, hv, ha⟩ := ih h
      exact ⟨v, List.mem_cons_of_mem variant hv, ha⟩

/-- A union makes a boolean of a value where one of its variants is boolean, or a value that a
variant accepts, or leaves it alone. -/
theorem untaggedUnion_cases (c : Context) (next : Converter) (variants : List Variant) (j : Json) :
    (∃ v ∈ variants, v.definition.scalarKind? = some .boolean ∧
      ∃ b, untaggedUnion c next variants j = .bool b) ∨
    (∃ v ∈ variants, c.accepts v.definition (untaggedUnion c next variants j) = true) ∨
    untaggedUnion c next variants j = j := by
  unfold untaggedUnion
  simp only
  split
  · rename_i k hb
    split at hb
    · rename_i hany
      obtain ⟨v, hv, hs⟩ := List.any_eq_true.mp hany
      unfold ScalarKind.coerce? at hb
      split at hb
      · cases hb
      · obtain ⟨b, rfl⟩ := ScalarKind.bool_of_toBoolean? hb
        exact .inl ⟨v, hv, by simpa using hs, b, rfl⟩
    · cases hb
  · cases hf : firstAccepted? c next j variants with
    | some k => exact .inr (.inl (accepts_of_firstAccepted? hf))
    | none => exact .inr (.inr rfl)

/-- A boolean conforms to a boolean definition without an enumeration. -/
theorem conforms_boolean (c : Context) {d : Definition} (hs : d.scalarKind? = some .boolean)
    (ha : d.allowed = none) (b : Bool) : Conforms c [] d (.bool b) := by
  have hk : d.kind = .scalar .boolean := by
    unfold Definition.scalarKind? Kind.scalar? at hs
    split at hs
    · rename_i kind hk
      cases hs
      exact hk
    · cases hs
  refine .scalar hk nofun ⟨rfl, nofun, nofun, nofun, ?_⟩
  intro values hv
  rw [allowedValues?, ha] at hv
  cases hv

/-! ### The walk -/

/-- Conversion makes conforming values of accepted ones. -/
theorem conforms_convert {n : Nat} {tags : List String} {d : Definition} {j : Json}
    (clean : CleanBy (judge c n) tags d j)
    (convertible : d.Throughout c.view (Definition.Convertible c)) :
    Conforms c tags d (convert c n d j) := by
  induction n using Nat.strongRecOn generalizing tags d j with
  | ind n ih =>
    cases n with
    | zero => exact absurd clean (not_cleanBy_judge_zero c tags d j)
    | succ n =>
      rw [convert_succ, step]
      by_cases hj : j.isNull = true
      · rw [if_pos hj]
        exact conforms_of_cleanBy clean
      rw [if_neg hj]
      have hn : (j.isNull && takesNull d) = false := by simp [hj]
      have accepted := conforms_of_cleanBy clean
      rw [cleanBy_judge_iff_stepMeets c n tags hn] at clean
      unfold StepMeets at clean
      cases hk : d.kind with
      | reference target =>
        rw [hk] at clean
        obtain ⟨definition, hd, h⟩ := clean
        simp only [hd]
        exact .reference hk hd (ih n (by omega) h (convertible.reference hk hd))
      | object shape =>
        rw [hk] at clean
        obtain ⟨members, rfl, meets⟩ := clean
        have apart : (shape.map (Field.wireName c.case)).Nodup :=
          Definition.fields_of_object hk ▸ convertible.self.apart
        have converted := meetsShape_membersOf (convert c n) apart meets
          (Q := Conforms c []) fun f hf m hm => ih n (by omega) (meets.present f hf m hm)
            (convertible.field hk hf)
        exact .object hk converted.known converted.present converted.absent
      | array items =>
        rw [hk] at clean
        cases items with
        | of element =>
          obtain ⟨elements, rfl, hc, h⟩ := clean
          refine .array hk (by simpa [Definition.Counts] using hc) ?_
          intro y hy
          obtain ⟨x, hx, rfl⟩ := List.mem_map.mp hy
          exact ih n (by omega) (h x hx) (convertible.element hk)
        | shape fields =>
          obtain ⟨elements, rfl, hc, h⟩ := clean
          have apart : (fields.map (Field.wireName c.case)).Nodup :=
            Definition.fields_of_shapes hk ▸ convertible.self.apart
          refine .shapes hk (by simpa [Definition.Counts] using hc) ?_
          intro y hy
          obtain ⟨x, hx, rfl⟩ := List.mem_map.mp hy
          obtain ⟨members, rfl, meets⟩ := h x hx
          have converted := meetsShape_membersOf (convert c (n - 1)) apart meets
            (Q := Conforms c []) fun f hf m hm => ih (n - 1) (by omega) (meets.present f hf m hm)
              (convertible.shapeField hk hf)
          exact (conforms_object_iff c [] fields _).mpr ⟨_, rfl, converted⟩
      | union discriminator variants =>
        rw [hk] at clean
        cases discriminator with
        | some key =>
          obtain ⟨members, tag, variant, rfl, ht, hv, h⟩ := clean
          have hc : Variant.chosenBy? variants (c.case.apply key) (.object members) =
              some variant := by
            simp [Variant.chosenBy?, Json.get?, ht, Json.string?, hv]
          have hm : variant ∈ variants := List.mem_of_find?_eq_some hv
          have below := convertible.variant hk hm
          -- the tag is read again from what conversion makes of the object
          obtain ⟨ms, he, ht'⟩ := keepsTag_of_comesToShapes
            (convertible.self.tagged key variants hk variant hm) h below ht
          have hconv := ih n (by omega) h below
          simp only [hc]
          rw [he] at hconv ⊢
          exact .tagged hk ht' hv hconv
        | none =>
          rcases untaggedUnion_cases c (convert c n) variants j with
            ⟨v, hv, hs, b, he⟩ | ⟨v, hv, ha⟩ | he
          · simp only [he]
            exact .untagged hk hv
              (conforms_boolean c hs (convertible.self.boolean variants hk v hv hs) b)
          · exact .untagged hk hv (conforms_of_cleanBy ((acceptsWithin_iff c _ _ _).mp ha))
          · simp only [he]
            exact accepted
      | literal value =>
        rw [hk] at clean
        simp only [literal_of_sameValue clean]
        exact accepted
      | scalar kind =>
        rw [hk] at clean
        have hs : scalar kind j = j := ScalarKind.coerce?_of_hasKind clean.2.ofKind
        simp only [hs]
        exact accepted

end Coercion

/-- Conversion makes an accepted payload of an accepted one. -/
theorem accepts_coerce_of_accepts (c : Context) (d : Definition) (j : Json)
    (accepted : c.accepts d j = true)
    (convertible : ∀ e, Definition.Occurs c.view e d → e.Convertible c)
    (shallow : ∀ k, Descends c d (c.coerce d j) k → k ≤ nestingLimit) :
    c.accepts d (c.coerce d j) = true := by
  have clean := (acceptsWithin_iff c (nestingLimit + 1) d j).mp accepted
  rw [Context.accepts, List.isEmpty_iff]
  exact (validate_issues_eq_nil_iff_conforms c d _ shallow).mpr
    (Coercion.conforms_convert clean convertible)

/-! ### A parcel -/

def parcel : Definition :=
  .taggedUnion "sent_by" [{
    tag := some "express"
    definition := .object [
      { name := "kind", definition := .literal (.string "parcel") },
      { name := "is_gift", definition := .union [.scalar .string, .scalar .boolean] },
      { name := "sizes", definition := .arrayOf shirtSize }] }]

def delivery : Definition :=
  .taggedUnion "kind" [{ tag := some "parcel", definition := parcel },
    { tag := some "card", definition := .reference "Card" }]

def giftParcel : Json :=
  .object [("isGift", .string "yes"), ("kind", .string "parcel"),
    ("sentBy", .string "express"), ("sizes", .array [.string "5", .string "L"])]

/-- The gift and a size become other values, and the parcel stays accepted. -/
theorem giftParcel_stays_accepted :
    payments.accepts delivery giftParcel = true ∧
      payments.coerce delivery giftParcel =
        .object [("isGift", .bool true), ("kind", .string "parcel"),
          ("sentBy", .string "express"), ("sizes", .array [.int 5, .string "L"])] ∧
      payments.accepts delivery (payments.coerce delivery giftParcel) = true := by
  have accepted : payments.accepts delivery giftParcel = true := by decide +kernel
  have coerced : payments.coerce delivery giftParcel =
      .object [("isGift", .bool true), ("kind", .string "parcel"),
        ("sentBy", .string "express"), ("sizes", .array [.int 5, .string "L"])] := by
    decide +kernel
  have checked : payments.view.everywhere (payments.converts 2) 6 delivery = true := by
    decide +kernel
  refine ⟨accepted, coerced, accepts_coerce_of_accepts payments delivery giftParcel accepted
    (fun e he => Context.converts_sound (View.check_of_occurs checked he)) ?_⟩
  intro k hk
  exact Nat.le_trans (Nat.le_of_lt (Descends.lt_of_everywhere checked hk)) (by decide)

end ApiContract
