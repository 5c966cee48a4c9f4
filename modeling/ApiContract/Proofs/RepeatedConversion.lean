import ApiContract.Proofs.CoercedPayload
import ApiContract.Proofs.ConvertedScalars

/-!
# Converting a payload twice

A second conversion of a payload makes the choices of the first: a scalar that was converted stays,
one that was not fails again, and a tagged union that finds another variant than before would need
another text under its key. A literal never makes one text of another, so a key that is a literal
where it is a field at all tells the same variant or none.
-/

namespace ApiContract

namespace Definition

/-- Objects that a definition describes may be read by a shape: its own, or one that it comes to by
references and unions. -/
inductive ReadsBy (view : View) (shape : List Field) : Definition → Prop where
  | object {d} (hk : d.kind = .object shape) : ReadsBy view shape d
  | reference {d target definition} (hk : d.kind = .reference target)
      (hd : view.definition? target = some definition) (h : ReadsBy view shape definition) :
      ReadsBy view shape d
  | variant {d key variants variant} (hk : d.kind = .union key variants) (hv : variant ∈ variants)
      (h : ReadsBy view shape variant.definition) : ReadsBy view shape d

/-- A definition spells the fields of a shape apart, is no union without a discriminator, and has
variants that declare its discriminator as a literal, if at all. -/
structure Steady (c : Context) (d : Definition) : Prop where
  apart : (d.fields.map (Field.wireName c.case)).Nodup
  tagged : ∀ variants, d.kind ≠ .union none variants
  fixed : ∀ key variants, d.kind = .union (some key) variants → ∀ v ∈ variants,
    ∀ shape, ReadsBy c.view shape v.definition →
      Field.FixedUnder c.case (c.case.apply key) shape

/-- A definition is a union whose variants are tried one after another. -/
def isTried (d : Definition) : Bool :=
  match d.kind with
  | .union none _ => true
  | _ => false

/-- What comes to shapes with a property is read by such shapes. -/
theorem ComesToShapes.of_readsBy {view : View} {P : List Field → Prop} {d : Definition}
    {shape : List Field} (shapes : ComesToShapes view P d) (h : ReadsBy view shape d) :
    P shape := by
  induction h with
  | object hk =>
    cases shapes with
    | object hk' hp => cases hk.symm.trans hk'; exact hp
    | reference hk' => cases hk.symm.trans hk'
    | tagged hk' => cases hk.symm.trans hk'
  | reference hk hd _ ih =>
    cases shapes with
    | object hk' => cases hk.symm.trans hk'
    | reference hk' below => cases hk.symm.trans hk'; exact ih (below _ hd)
    | tagged hk' => cases hk.symm.trans hk'
  | variant hk hv _ ih =>
    cases shapes with
    | object hk' => cases hk.symm.trans hk'
    | reference hk' => cases hk.symm.trans hk'
    | tagged hk' below => cases hk.symm.trans hk'; exact ih (below _ hv)

/-- A definition that conversion keeps accepted payloads by is steady if no union is tried. -/
theorem Convertible.steady {c : Context} {d : Definition} (h : d.Convertible c)
    (told : d.isTried = false) : d.Steady c where
  apart := h.apart
  tagged variants hk := by simp [isTried, hk] at told
  fixed key variants hk v hv _ hs := (h.tagged key variants hk v hv).of_readsBy hs

end Definition

/-- A variant is chosen by a text under the key that is its tag. -/
theorem Variant.chosenBy?_eq_some_iff {variants : List Variant} {key : String} {j : Json}
    {variant : Variant} : chosenBy? variants key j = some variant ↔
      ∃ tag, j.get? key = some (.string tag) ∧ tagged? variants tag = some variant := by
  constructor
  · intro h
    obtain ⟨tag, hx, hv⟩ := Option.bind_eq_some_iff.mp h
    obtain ⟨x, hx, ht⟩ := Option.bind_eq_some_iff.mp hx
    obtain rfl : x = .string tag := by cases x <;> cases ht; rfl
    exact ⟨tag, hx, hv⟩
  · rintro ⟨tag, ht, hv⟩
    simp [chosenBy?, ht, Json.string?, hv]

namespace Coercion

variable {c : Context} {case : KeyCase} {next : Converter} {shape : List Field}
  {members : Keyed Json}

/-! ### Parts -/

theorem scalar_scalar (kind : ScalarKind) (j : Json) :
    scalar kind (scalar kind j) = scalar kind j :=
  ScalarKind.coerce?_getD_again kind j

theorem literal_literal (value j : Json) : literal value (literal value j) = literal value j := by
  unfold literal
  cases value.literalKind? with
  | none => rfl
  | some kind => exact ScalarKind.coerce?_getD_again kind j

/-- Members whose conversion changes nothing a second time make an object that does so. -/
theorem object_object (apart : (shape.map (Field.wireName case)).Nodup)
    (again : ∀ f ∈ shape, ∀ m, next f.definition (next f.definition m) = next f.definition m)
    (j : Json) : object case next shape (object case next shape j) = object case next shape j := by
  cases j with
  | object members =>
    rw [object_eq]
    apply object_eq_self
    intro f hf m hm
    rw [get?_membersOf apart hf] at hm
    obtain ⟨x, -, rfl⟩ := Option.map_eq_some_iff.mp hm
    exact again f hf x
  | _ => rfl

theorem array_array {convert : Json → Json} (again : ∀ m, convert (convert m) = convert m)
    (j : Json) : array convert (array convert j) = array convert j := by
  cases j with
  | array elements =>
    apply array_eq_self
    intro m hm
    obtain ⟨x, -, rfl⟩ := List.mem_map.mp hm
    exact again x
  | _ => rfl

/-! ### Tags -/

/-- A literal makes no other text of a text. -/
theorem eq_of_literal {value : Json} {s t : String} (h : literal value (.string s) = .string t) :
    t = s := by
  have none : ∀ kind, value.literalKind? = some kind →
      kind.coerce? (.string s) ≠ some (.string t) := by
    intro kind hv hk
    have near : ¬ kind.Misses (.string s) := by
      rintro ⟨rfl, -⟩
      cases value <;> cases hv
    have ofKind := ScalarKind.hasKind_of_coerce? hk near
    cases value <;> cases hv <;> cases ofKind
  unfold literal at h
  cases hc : value.literalKind?.bind (·.coerce? (.string s)) with
  | none =>
    rw [hc] at h
    exact (Json.string.inj h).symm
  | some k =>
    obtain ⟨kind, hv, hk⟩ := Option.bind_eq_some_iff.mp hc
    rw [hc] at h
    exact absurd (h ▸ hk) (none kind hv)

theorem get?_of_isLeaf {j : Json} (h : j.isLeaf = true) (key : String) : j.get? key = none := by
  cases j <;> first | rfl | cases h

/-- What stands in for a value has no members of its own. -/
theorem get?_of_getD {o : Option Json} {j k : Json} {key : String}
    (stands : ∀ m, o = some m → m = j ∨ m.isLeaf = true) (h : (o.getD j).get? key = some k) :
    j.get? key = some k := by
  cases o with
  | none => exact h
  | some m =>
    rw [Option.getD_some] at h
    rcases stands m rfl with rfl | leaf
    · exact h
    · rw [get?_of_isLeaf leaf] at h
      cases h

/-- A literal is converted to itself or not at all. -/
theorem convert_of_literal {n : Nat} {d : Definition} {value j : Json}
    (hk : d.kind = .literal value) : convert c n d j = j ∨ convert c n d j = literal value j := by
  cases n with
  | zero => exact .inl rfl
  | succ n =>
    rw [convert_succ, step]
    split
    · exact .inl rfl
    · rw [hk]
      exact .inr rfl

/-- Where an object has a text under a key that is a literal in every shape that may read it,
conversion leaves the text or none. -/
theorem eq_of_get?_convert {wire tag t : String} {d : Definition}
    (steady : d.Throughout c.view (Definition.Steady c))
    (fixed : ∀ shape, d.ReadsBy c.view shape → Field.FixedUnder c.case wire shape)
    (ht : Keyed.get? members wire = some (.string tag)) {n : Nat}
    (h : (convert c n d (.object members)).get? wire = some (.string t)) : t = tag := by
  have unchanged : (Json.object members).get? wire = some (.string t) → t = tag := by
    intro hs
    exact Json.string.inj (Option.some.inj (hs.symm.trans ht))
  induction n generalizing d with
  | zero => exact unchanged h
  | succ n ih =>
    have hj : ¬ (Json.object members).isNull = true := by simp [Json.isNull]
    rw [convert_succ, step, if_neg hj] at h
    cases hk : d.kind with
    | reference target =>
      cases hd : c.view.definition? target with
      | none => exact unchanged (by simpa only [hk, hd] using h)
      | some definition =>
        simp only [hk, hd] at h
        exact ih (steady.reference hk hd) (fun shape hs => fixed shape (.reference hk hd hs)) h
    | object shape =>
      simp only [hk] at h
      change Keyed.get? (membersOf c.case (convert c n) shape members) wire = _ at h
      by_cases hw : wire ∈ shape.map (Field.wireName c.case)
      · obtain ⟨f, hf, rfl⟩ := List.mem_map.mp hw
        have apart : (shape.map (Field.wireName c.case)).Nodup :=
          Definition.fields_of_object hk ▸ steady.self.apart
        obtain ⟨value, hv⟩ := Definition.kind_of_isLiteral (fixed shape (.object hk) f hf rfl)
        rw [get?_membersOf apart hf, ht, Option.map_some, Option.some.injEq] at h
        rcases convert_of_literal (c := c) (n := n) (j := .string tag) hv with he | he
        · exact (Json.string.inj (he.symm.trans h)).symm
        · exact eq_of_literal (he.symm.trans h)
      · rw [get?_membersOf_of_not_mem hw] at h
        exact unchanged h
    | array items =>
      rw [hk] at h
      cases items <;> exact unchanged h
    | union discriminator variants =>
      cases discriminator with
      | none => exact absurd hk (steady.self.tagged variants)
      | some key =>
        simp only [hk] at h
        cases hv : Variant.chosenBy? variants (c.case.apply key) (.object members) with
        | none => exact unchanged (by simpa only [hv] using h)
        | some variant =>
          simp only [hv] at h
          obtain ⟨_, -, chosen⟩ := Variant.chosenBy?_eq_some_iff.mp hv
          have hm : variant ∈ variants := List.mem_of_find?_eq_some chosen
          exact ih (steady.variant hk hm) (fun shape hs => fixed shape (.variant hk hm hs)) h
    | literal value =>
      simp only [hk] at h
      refine unchanged (get?_of_getD (fun m hm => ?_) h)
      obtain ⟨kind, -, hc⟩ := Option.bind_eq_some_iff.mp hm
      exact ScalarKind.coerce?_leaf hc
    | scalar kind =>
      simp only [hk] at h
      exact unchanged (get?_of_getD (fun m hm => ScalarKind.coerce?_leaf hm) h)

/-- Objects of a variant find the same variant again after its conversion, or none. -/
theorem eq_of_chosenBy?_convert {n : Nat} {key : String} {variants : List Variant} {d : Definition}
    {variant variant' : Variant} {j : Json} (hk : d.kind = .union (some key) variants)
    (steady : d.Throughout c.view (Definition.Steady c))
    (hv : Variant.chosenBy? variants (c.case.apply key) j = some variant)
    (hv' : Variant.chosenBy? variants (c.case.apply key) (convert c n variant.definition j) =
      some variant') : variant' = variant := by
  obtain ⟨tag, ht, chosen⟩ := Variant.chosenBy?_eq_some_iff.mp hv
  obtain ⟨tag', ht', chosen'⟩ := Variant.chosenBy?_eq_some_iff.mp hv'
  have hm : variant ∈ variants := List.mem_of_find?_eq_some chosen
  cases j with
  | object members =>
    obtain rfl := eq_of_get?_convert (steady.variant hk hm)
      (fun shape => steady.self.fixed key variants hk variant hm shape) ht ht'
    exact Option.some.inj (chosen'.symm.trans chosen)
  | _ => cases ht

/-- A second conversion with the same levels left changes nothing. -/
theorem convert_convert (n : Nat) {d : Definition}
    (steady : d.Throughout c.view (Definition.Steady c)) (j : Json) :
    convert c n d (convert c n d j) = convert c n d j := by
  induction n using Nat.strongRecOn generalizing d j with
  | ind n ih =>
    cases n with
    | zero => rfl
    | succ n =>
      rw [convert_succ]
      by_cases hj : j.isNull = true
      · simp [step, hj]
      generalize hs : step c (convert c n) (convert c (n - 1)) d j = k
      by_cases hn : k.isNull = true
      · simp [step, hn]
      rw [step, if_neg hj] at hs
      rw [step, if_neg hn]
      cases hk : d.kind with
      | reference target =>
        cases hd : c.view.definition? target with
        | none => simp only [hd]
        | some definition =>
          simp only [hk, hd] at hs ⊢
          rw [← hs]
          exact ih n (by omega) (steady.reference hk hd) j
      | object shape =>
        simp only [hk] at hs ⊢
        have apart : (shape.map (Field.wireName c.case)).Nodup :=
          Definition.fields_of_object hk ▸ steady.self.apart
        rw [← hs]
        exact object_object apart (fun f hf => ih n (by omega) (steady.field hk hf)) j
      | array items =>
        cases items with
        | of element =>
          simp only [hk] at hs ⊢
          rw [← hs]
          exact array_array (ih n (by omega) (steady.element hk)) j
        | shape fields =>
          simp only [hk] at hs ⊢
          have apart : (fields.map (Field.wireName c.case)).Nodup :=
            Definition.fields_of_shapes hk ▸ steady.self.apart
          rw [← hs]
          exact array_array (object_object apart
            fun f hf => ih (n - 1) (by omega) (steady.shapeField hk hf)) j
      | union discriminator variants =>
        cases discriminator with
        | none => exact absurd hk (steady.self.tagged variants)
        | some key =>
          simp only [hk] at hs ⊢
          cases hv : Variant.chosenBy? variants (c.case.apply key) j with
          | none =>
            simp only [hv] at hs
            rw [← hs, hv]
          | some variant =>
            simp only [hv] at hs
            obtain ⟨_, -, chosen⟩ := Variant.chosenBy?_eq_some_iff.mp hv
            have hm : variant ∈ variants := List.mem_of_find?_eq_some chosen
            -- the second pass goes by the same variant or leaves the object alone
            cases hv' : Variant.chosenBy? variants (c.case.apply key) k with
            | none => simp only
            | some variant' =>
              obtain rfl := eq_of_chosenBy?_convert hk steady hv (hs ▸ hv')
              simp only
              rw [← hs]
              exact ih n (by omega) (steady.variant hk hm) j
      | literal value =>
        simp only [hk] at hs ⊢
        rw [← hs]
        exact literal_literal value j
      | scalar kind =>
        simp only [hk] at hs ⊢
        rw [← hs]
        exact scalar_scalar kind j

end Coercion

/-- Conversion of a payload is idempotent where no union is tried, fields are spelled apart and tags
are literals, whatever the payload is and however deep it goes. -/
theorem coerce_coerce (c : Context) (d : Definition) (j : Json)
    (steady : ∀ e, Definition.Occurs c.view e d → e.Steady c) :
    c.coerce d (c.coerce d j) = c.coerce d j :=
  Coercion.convert_convert (nestingLimit + 1) steady j

/-! ### A numbered event -/

def numbered : Definition :=
  .taggedUnion "event_kind" [{
    tag := some "1"
    definition := .object [
      { name := "event_kind", definition := .literal (.int 1) },
      { name := "happened_at", definition := .scalar .datetime },
      { name := "guests", definition := .arrayOf (.scalar .integer) }] },
    { tag := some "2", definition := .reference "Card" }]

def numberedParty : Json :=
  .object [("eventKind", .string "1"), ("guests", .array [.string "007", .string "many"]),
    ("happenedAt", .string "2024-1-1 10:00:00")]

/-- The tag becomes a number, so that a second conversion finds no variant and leaves all alone. -/
theorem numberedParty_settled :
    payments.coerce numbered numberedParty =
        .object [("eventKind", .int 1), ("guests", .array [.int 7, .string "many"]),
          ("happenedAt", .string "2024-01-01T10:00:00Z")] ∧
      payments.coerce numbered (payments.coerce numbered numberedParty) =
        payments.coerce numbered numberedParty := by
  have converted : payments.coerce numbered numberedParty =
      .object [("eventKind", .int 1), ("guests", .array [.int 7, .string "many"]),
        ("happenedAt", .string "2024-01-01T10:00:00Z")] := by
    decide +kernel
  have checked : payments.view.everywhere
      (fun d => payments.converts 2 d && !d.isTried) 6 numbered = true := by
    decide +kernel
  refine ⟨converted, coerce_coerce payments numbered numberedParty fun e he => ?_⟩
  have holds := View.check_of_occurs checked he
  rw [Bool.and_eq_true, Bool.not_eq_true'] at holds
  exact (Context.converts_sound holds.1).steady holds.2

end ApiContract
