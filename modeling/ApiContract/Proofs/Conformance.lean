import ApiContract.Proofs.Acceptance

/-!
# Conformance

`Conforms` says which values meet a definition, without depth, order or issues. As long as no branch
of the walk gets below the nesting limit, a validation finds no issue exactly in the values that
conform.
-/

namespace ApiContract

open Validation

/-- A value conforms to a definition, where some keys need no field of their own: those that the
tagged unions around it have read their tags from. -/
inductive Conforms (c : Context) : List String → Definition → Json → Prop where
  | null {tags d} (hn : takesNull d = true) : Conforms c tags d .null
  | reference {tags d j target definition} (hk : d.kind = .reference target)
      (hd : c.view.definition? target = some definition) (h : Conforms c tags definition j) :
      Conforms c tags d j
  | object {tags d shape members} (hk : d.kind = .object shape)
      (known : ∀ key ∈ Keyed.keys members, key ∈ shape.map (Field.wireName c.case) ∨ key ∈ tags)
      (present : ∀ f ∈ shape, ∀ m, Keyed.get? members (f.wireName c.case) = some m →
        Conforms c [] f.definition m)
      (absent : ∀ f ∈ shape, Keyed.get? members (f.wireName c.case) = none →
        f.definition.optional = true ∨ f.definition.default?.isSome = true) :
      Conforms c tags d (.object members)
  | array {tags d element elements} (hk : d.kind = .array (.of element))
      (hc : d.Counts elements) (h : ∀ m ∈ elements, Conforms c [] element m) :
      Conforms c tags d (.array elements)
  | shapes {tags d fields elements} (hk : d.kind = .array (.shape fields))
      (hc : d.Counts elements) (h : ∀ m ∈ elements, Conforms c [] (.object fields) m) :
      Conforms c tags d (.array elements)
  | tagged {tags d key variants members tag variant} (hk : d.kind = .union (some key) variants)
      (ht : Keyed.get? members (c.case.apply key) = some (.string tag))
      (hv : Variant.tagged? variants tag = some variant)
      (h : Conforms c (c.case.apply key :: tags) variant.definition (.object members)) :
      Conforms c tags d (.object members)
  | untagged {tags d variants variant j} (hk : d.kind = .union none variants)
      (hv : variant ∈ variants) (h : Conforms c [] variant.definition j) : Conforms c tags d j
  | literal {tags d value j} (hk : d.kind = .literal value) (hs : j.sameValue value = true) :
      Conforms c tags d j
  | scalar {tags d kind j} (hk : d.kind = .scalar kind) (hn : j ≠ .null)
      (h : MeetsScalar c.view d kind j) : Conforms c tags d j

/-- A branch of the walk over a value gets some levels down. A union without a discriminator is
tried variant by variant, up to one that the value conforms to. -/
inductive Descends (c : Context) : Definition → Json → Nat → Prop where
  | here {d j} : Descends c d j 0
  | reference {d j target definition n} (hk : d.kind = .reference target)
      (hn : (j.isNull && takesNull d) = false) (hd : c.view.definition? target = some definition)
      (h : Descends c definition j n) : Descends c d j (n + 1)
  | member {d shape members f m n} (hk : d.kind = .object shape) (hf : f ∈ shape)
      (hm : Keyed.get? members (f.wireName c.case) = some m) (h : Descends c f.definition m n) :
      Descends c d (.object members) (n + 1)
  | element {d element elements m n} (hk : d.kind = .array (.of element)) (hm : m ∈ elements)
      (h : Descends c element m n) : Descends c d (.array elements) (n + 1)
  | shapeMember {d fields elements members f m n} (hk : d.kind = .array (.shape fields))
      (he : .object members ∈ elements) (hf : f ∈ fields)
      (hm : Keyed.get? members (f.wireName c.case) = some m) (h : Descends c f.definition m n) :
      Descends c d (.array elements) (n + 2)
  | tagged {d key variants members tag variant n} (hk : d.kind = .union (some key) variants)
      (ht : Keyed.get? members (c.case.apply key) = some (.string tag))
      (hv : Variant.tagged? variants tag = some variant)
      (h : Descends c variant.definition (.object members) n) :
      Descends c d (.object members) (n + 1)
  | untagged {d front variant back j n} (hk : d.kind = .union none (front ++ variant :: back))
      (hn : (j.isNull && takesNull d) = false)
      (hf : ∀ u ∈ front, ¬ Conforms c [] u.definition j) (h : Descends c variant.definition j n) :
      Descends c d j (n + 1)

/-- All branches of the walk over a value end in less than some levels. Of a union without a
discriminator every variant counts, also one that is not tried. -/
def Context.endsWithin (c : Context) : Nat → Definition → Json → Bool
  | 0, _, _ => false
  | n + 1, d, j =>
    match d.kind, j with
    | .reference target, j =>
      (c.view.definition? target).all fun definition => endsWithin c n definition j
    | .object shape, .object members =>
      shape.all fun f =>
        (Keyed.get? members (f.wireName c.case)).all (endsWithin c n f.definition)
    | .array (.of element), .array elements => elements.all (endsWithin c n element)
    | .array (.shape fields), .array elements => elements.all (endsWithin c n (.object fields))
    | .union (some key) variants, .object members =>
      match Keyed.get? members (c.case.apply key) with
      | some (.string tag) =>
        (Variant.tagged? variants tag).all fun v => endsWithin c n v.definition (.object members)
      | _ => true
    | .union none variants, j => variants.all fun v => endsWithin c n v.definition j
    | _, _ => true

/-- The bound that is computed holds for every branch of the walk. -/
theorem Descends.lt_of_endsWithin {c : Context} {d : Definition} {j : Json} {k : Nat}
    (h : Descends c d j k) {n : Nat} (ends : c.endsWithin n d j = true) : k < n := by
  induction h generalizing n with
  | here =>
    cases n with
    | zero => cases ends
    | succ n => omega
  | @reference _ _ _ _ k hk _ hd _ ih =>
    cases n with
    | zero => cases ends
    | succ n =>
      have below : k < n := ih (by simpa [Context.endsWithin, hk, hd] using ends)
      omega
  | @member _ _ _ f _ k hk hf hm _ ih =>
    cases n with
    | zero => cases ends
    | succ n =>
      simp only [Context.endsWithin, hk, List.all_eq_true] at ends
      have below : k < n := ih (by simpa [hm] using ends f hf)
      omega
  | @element _ _ _ m k hk hm _ ih =>
    cases n with
    | zero => cases ends
    | succ n =>
      simp only [Context.endsWithin, hk, List.all_eq_true] at ends
      have below : k < n := ih (ends m hm)
      omega
  | @shapeMember _ _ _ _ f _ k hk he hf hm _ ih =>
    cases n with
    | zero => cases ends
    | succ n =>
      simp only [Context.endsWithin, hk, List.all_eq_true] at ends
      have inside := ends _ he
      cases n with
      | zero => cases inside
      | succ n =>
        simp only [Context.endsWithin, Definition.object, List.all_eq_true] at inside
        have below : k < n := ih (by simpa [hm] using inside f hf)
        omega
  | @tagged _ _ _ _ _ _ k hk ht hv _ ih =>
    cases n with
    | zero => cases ends
    | succ n =>
      have below : k < n := ih (by simpa [Context.endsWithin, hk, ht, hv] using ends)
      omega
  | @untagged _ _ variant _ _ k hk _ _ _ ih =>
    cases n with
    | zero => cases ends
    | succ n =>
      simp only [Context.endsWithin, hk, List.all_eq_true] at ends
      have below : k < n := ih (ends variant (by simp))
      omega

/-! ### Conformance and the walk -/

/-- A plain object of a shape. -/
theorem conforms_object_iff (c : Context) (tags : List String) (fields : List Field) (j : Json) :
    Conforms c tags (.object fields) j ↔
      ∃ members, j = .object members ∧ MeetsShape c.case tags (Conforms c []) fields members := by
  constructor
  · intro h
    cases h with
    | null hn => cases hn
    | object hk known present absent =>
      cases hk
      exact ⟨_, rfl, known, present, absent⟩
    | untagged hk => cases hk
    | reference hk => cases hk
    | literal hk => cases hk
    | scalar hk => cases hk
    | tagged hk => cases hk
    | array hk => cases hk
    | shapes hk => cases hk
  · rintro ⟨members, rfl, h⟩
    exact .object rfl h.known h.present h.absent

/-- Conformance is what one step asks, with conformance asked of the values further down. -/
theorem conforms_iff {c : Context} (tags : List String) {d : Definition} {j : Json}
    (hn : (j.isNull && takesNull d) = false) :
    Conforms c tags d j ↔ StepMeets c (Conforms c) (Conforms c) tags d j := by
  unfold StepMeets
  constructor
  · intro h
    cases h with
    | null ht => simp [Json.isNull, ht] at hn
    | reference hk hd h => rw [hk]; exact ⟨_, hd, h⟩
    | object hk known present absent => rw [hk]; exact ⟨_, rfl, known, present, absent⟩
    | array hk hc h => rw [hk]; exact ⟨_, rfl, hc, h⟩
    | shapes hk hc h =>
      rw [hk]
      exact ⟨_, rfl, hc, fun m hm => (conforms_object_iff c [] _ m).mp (h m hm)⟩
    | tagged hk ht hv h => rw [hk]; exact ⟨_, _, _, rfl, ht, hv, h⟩
    | untagged hk hv h => rw [hk]; exact ⟨_, hv, h⟩
    | literal hk hs => rw [hk]; exact hs
    | scalar hk hj h => rw [hk]; exact ⟨hj, h⟩
  · cases hk : d.kind with
    | reference target =>
      rintro ⟨definition, hd, h⟩
      exact .reference hk hd h
    | object shape =>
      rintro ⟨members, rfl, h⟩
      exact .object hk h.known h.present h.absent
    | array items =>
      cases items with
      | of element =>
        rintro ⟨elements, rfl, hc, h⟩
        exact .array hk hc h
      | shape fields =>
        rintro ⟨elements, rfl, hc, h⟩
        exact .shapes hk hc fun m hm => (conforms_object_iff c [] fields m).mpr (h m hm)
    | union discriminator variants =>
      cases discriminator with
      | some key =>
        rintro ⟨members, tag, variant, rfl, ht, hv, h⟩
        exact .tagged hk ht hv h
      | none =>
        rintro ⟨variant, hv, h⟩
        exact .untagged hk hv h
    | literal value => exact .literal hk
    | scalar kind =>
      rintro ⟨hj, h⟩
      exact .scalar hk hj h

/-- What is asked of the members only counts for members that are there. -/
theorem meetsShape_congr {case : KeyCase} {tags : List String} {P Q : Definition → Json → Prop}
    {shape : List Field} {members : Keyed Json}
    (h : ∀ f ∈ shape, ∀ m, Keyed.get? members (f.wireName case) = some m →
      (P f.definition m ↔ Q f.definition m)) :
    MeetsShape case tags P shape members ↔ MeetsShape case tags Q shape members := by
  constructor
  · intro hp
    exact hp.mono fun f hf m hm => (h f hf m hm).mp
  · intro hq
    exact hq.mono fun f hf m hm => (h f hf m hm).mpr

/-- Variants are tried in order: what decides about one is needed only where those before it have
not been met. -/
theorem exists_variant_congr {P Q : Definition → Json → Prop} {j : Json} (variants : List Variant)
    (h : ∀ front variant back, variants = front ++ variant :: back →
      (∀ u ∈ front, ¬ Q u.definition j) → (P variant.definition j ↔ Q variant.definition j)) :
    (∃ variant ∈ variants, P variant.definition j) ↔
      ∃ variant ∈ variants, Q variant.definition j := by
  induction variants with
  | nil => simp
  | cons variant rest ih =>
    have hv := h [] variant rest rfl (by simp)
    by_cases hq : Q variant.definition j
    · exact iff_of_true ⟨variant, by simp, hv.mpr hq⟩ ⟨variant, by simp, hq⟩
    · have hr := ih fun front w back he hf =>
        h (variant :: front) w back (by rw [he]; rfl) (by simpa [hq] using hf)
      simp [hv, hq, hr]

/-- One step asks for conformance if what it asks of the values that the walk goes down to is their
conformance. -/
theorem stepMeets_iff_conforms {c : Context} {near far : List String → Definition → Json → Prop}
    (tags : List String) {d : Definition} {j : Json} (hn : (j.isNull && takesNull d) = false)
    (hnear : ∀ tags d' j', (∀ k, Descends c d' j' k → Descends c d j (k + 1)) →
      (near tags d' j' ↔ Conforms c tags d' j'))
    (hfar : ∀ tags d' j', (∀ k, Descends c d' j' k → Descends c d j (k + 2)) →
      (far tags d' j' ↔ Conforms c tags d' j')) :
    StepMeets c near far tags d j ↔ Conforms c tags d j := by
  rw [conforms_iff tags hn]
  unfold StepMeets
  cases hk : d.kind with
  | reference target =>
    apply exists_congr
    intro definition
    apply and_congr_right
    intro ht
    exact hnear tags definition j fun k h => .reference hk hn ht h
  | object shape =>
    apply exists_congr
    intro members
    apply and_congr_right
    rintro rfl
    apply meetsShape_congr
    intro f hf m hm
    exact hnear [] f.definition m fun k h => .member hk hf hm h
  | array items =>
    cases items with
    | of element =>
      apply exists_congr
      intro elements
      apply and_congr_right
      rintro rfl
      apply and_congr_right
      intro _
      apply forall₂_congr
      intro m hm
      exact hnear [] element m fun k h => .element hk hm h
    | shape fields =>
      apply exists_congr
      intro elements
      apply and_congr_right
      rintro rfl
      apply and_congr_right
      intro _
      apply forall₂_congr
      intro m hm
      apply exists_congr
      intro members
      apply and_congr_right
      rintro rfl
      apply meetsShape_congr
      intro f hf m' hm'
      exact hfar [] f.definition m' fun k h => .shapeMember hk hm hf hm' h
  | union discriminator variants =>
    cases discriminator with
    | some key =>
      apply exists_congr
      intro members
      apply exists_congr
      intro tag
      apply exists_congr
      intro variant
      apply and_congr_right
      rintro rfl
      apply and_congr_right
      intro ht
      apply and_congr_right
      intro hv
      exact hnear _ variant.definition _ fun k h => .tagged hk ht hv h
    | none =>
      apply exists_variant_congr (P := near []) (Q := Conforms c [])
      rintro front variant back rfl hf
      exact hnear [] variant.definition j fun k h => .untagged hk hn hf h
  | literal value => exact Iff.rfl
  | scalar kind => exact Iff.rfl

/-- With levels for every branch, a judge is clean exactly on the values that conform. -/
theorem cleanBy_judge_iff (c : Context) (n : Nat) (tags : List String) (d : Definition) (j : Json)
    (hd : ∀ k, Descends c d j k → k < n) : CleanBy (judge c n) tags d j ↔ Conforms c tags d j := by
  induction n using Nat.strongRecOn generalizing tags d j with
  | ind n ih =>
    cases n with
    | zero => exact absurd (hd 0 .here) (by omega)
    | succ n =>
      by_cases hn : (j.isNull && takesNull d) = true
      · obtain ⟨hj, ht⟩ := Bool.and_eq_true_iff.mp hn
        obtain rfl : j = .null := by cases j <;> first | rfl | cases hj
        exact iff_of_true (cleanBy_judge_of_null n tags hn) (.null ht)
      · have hn : (j.isNull && takesNull d) = false := by simpa using hn
        rw [cleanBy_judge_iff_stepMeets c n tags hn]
        apply stepMeets_iff_conforms tags hn
        · intro tags' d' j' h
          apply ih n (by omega)
          intro k hk
          have hlt := hd (k + 1) (h k hk)
          omega
        · intro tags' d' j' h
          apply ih (n - 1) (by omega)
          intro k hk
          have hlt := hd (k + 2) (h k hk)
          omega

/-- A validation that goes no deeper than the nesting limit finds nothing wrong exactly in the
values that conform to the definition. -/
theorem validate_issues_eq_nil_iff_conforms (c : Context) (d : Definition) (j : Json)
    (shallow : ∀ k, Descends c d j k → k ≤ nestingLimit) :
    (c.validate d j).issues = [] ↔ Conforms c [] d j := by
  rw [← cleanBy_judge_iff c (nestingLimit + 1) [] d j fun k h => Nat.lt_succ_of_le (shallow k h)]
  exact (clean_nil_iff _).symm

/-- Where all branches end in time, the payloads that are accepted are those that conform. -/
theorem accepts_iff_conforms {c : Context} {n : Nat} {d : Definition} {j : Json}
    (few : n ≤ nestingLimit + 1) (ends : c.endsWithin n d j = true) :
    c.accepts d j = true ↔ Conforms c [] d j := by
  rw [Context.accepts, List.isEmpty_iff]
  exact validate_issues_eq_nil_iff_conforms c d j fun _ walk =>
    Nat.le_of_lt_succ (Nat.lt_of_lt_of_le (walk.lt_of_endsWithin ends) few)

/-! ### A card payment -/

def card : Definition := .object [{ name := "last_four", definition := .scalar .string }]

def cardRegistry : Registry := Registry.empty.put .global "Card" (.defined ⟨"Card", card⟩)

def payments : Context := { view := ⟨cardRegistry, .api "billing"⟩, case := .camel }

def payment : Definition :=
  .taggedUnion "kind" [{ tag := some "card", definition := .reference "Card" }]

def cardPayment : Json := .object [("kind", .string "card"), ("lastFour", .string "4242")]

theorem payments_card : payments.view.definition? "Card" = some card := by rfl

theorem payments_kind : payments.case.apply "kind" = "kind" := by decide +kernel

theorem payments_last_four : payments.case.apply "last_four" = "lastFour" := by decide +kernel

/-- The walk over the payment goes through the union and the reference to its one member. -/
theorem descends_cardPayment {k : Nat} (h : Descends payments payment cardPayment k) : k ≤ 3 := by
  cases h with
  | here => omega
  | reference hk => cases hk
  | untagged hk => cases hk
  | member hk => cases hk
  | tagged hk ht hv h =>
    cases hk
    rw [payments_kind] at ht
    cases ht
    cases hv
    cases h with
    | here => omega
    | untagged hk => cases hk
    | member hk => cases hk
    | tagged hk => cases hk
    | reference hk hn hd h =>
      cases hk
      rw [payments_card] at hd
      cases hd
      cases h with
      | here => omega
      | reference hk => cases hk
      | untagged hk => cases hk
      | tagged hk => cases hk
      | member hk hf hm h =>
        cases hk
        obtain rfl := List.mem_singleton.mp hf
        have hw : Field.wireName payments.case
            { name := "last_four", definition := .scalar .string } = "lastFour" :=
          payments_last_four
        rw [hw] at hm
        cases hm
        cases h with
        | here => omega
        | reference hk => cases hk
        | untagged hk => cases hk

/-- The payment conforms, and its validation finds nothing wrong. -/
theorem cardPayment_conforms :
    (∀ k, Descends payments payment cardPayment k → k ≤ nestingLimit) ∧
      (payments.validate payment cardPayment).issues = [] ∧
      Conforms payments [] payment cardPayment := by
  have shallow : ∀ k, Descends payments payment cardPayment k → k ≤ nestingLimit :=
    fun k h => Nat.le_trans (descends_cardPayment h) (by decide)
  have clean : (payments.validate payment cardPayment).issues = [] := by decide +kernel
  exact ⟨shallow, clean,
    (validate_issues_eq_nil_iff_conforms payments payment cardPayment shallow).mp clean⟩

end ApiContract
