import ApiContract.Payload.Coercion
import ApiContract.Proofs.Acceptance

/-!
# Payloads that conversion leaves alone

A payload that is accepted as it stands keeps its scalars: each is already of its kind. Only a union
without a discriminator may rewrite it, where a variant in front of the one that accepts a value
can make another value of it. Without such a variant conversion is the identity.
-/

namespace ApiContract

/-- Whether a payload meets every expectation, with some levels left. -/
def Context.acceptsWithin (c : Context) (n : Nat) (d : Definition) (j : Json) : Bool :=
  (Validation.judge c n [] d j).issues.isEmpty

/-- A definition occurs in another one or in one that it refers to. -/
inductive Definition.Occurs (view : View) (e : Definition) : Definition → Prop where
  | here : Occurs view e e
  | reference {d target definition} (hk : d.kind = .reference target)
      (hd : view.definition? target = some definition) (h : Occurs view e definition) :
      Occurs view e d
  | field {d shape f} (hk : d.kind = .object shape) (hf : f ∈ shape)
      (h : Occurs view e f.definition) : Occurs view e d
  | element {d element} (hk : d.kind = .array (.of element)) (h : Occurs view e element) :
      Occurs view e d
  | shapeField {d fields f} (hk : d.kind = .array (.shape fields)) (hf : f ∈ fields)
      (h : Occurs view e f.definition) : Occurs view e d
  | variant {d key variants variant} (hk : d.kind = .union key variants) (hv : variant ∈ variants)
      (h : Occurs view e variant.definition) : Occurs view e d

theorem Definition.Occurs.eq_of_scalar {view : View} {d e : Definition} {kind : ScalarKind}
    (h : Occurs view e d) (hs : d.kind = .scalar kind) : e = d := by
  cases h with
  | here => rfl
  | reference hk => rw [hs] at hk; cases hk
  | field hk => rw [hs] at hk; cases hk
  | element hk => rw [hs] at hk; cases hk
  | shapeField hk => rw [hs] at hk; cases hk
  | variant hk => rw [hs] at hk; cases hk

/-- A definition that is no union without a discriminator, or one without a boolean variant. -/
def Definition.NoBooleanVariant (d : Definition) : Prop :=
  ∀ variants, d.kind = .union none variants →
    ∀ v ∈ variants, v.definition.scalarKind? ≠ some .boolean

namespace Coercion

/-- A walk with some levels left comes to a part of the value. In a union without a discriminator
it goes on by the first variant that accepts the value. -/
inductive Visits (c : Context) (m : Nat) (e : Definition) (k : Json) :
    Nat → Definition → Json → Prop where
  | here : Visits c m e k m e k
  | reference {n d j target definition} (hk : d.kind = .reference target)
      (hd : c.view.definition? target = some definition) (h : Visits c m e k n definition j) :
      Visits c m e k (n + 1) d j
  | member {n d shape members f x} (hk : d.kind = .object shape) (hf : f ∈ shape)
      (hx : Keyed.get? members (f.wireName c.case) = some x)
      (h : Visits c m e k n f.definition x) : Visits c m e k (n + 1) d (.object members)
  | element {n d element elements x} (hk : d.kind = .array (.of element)) (hx : x ∈ elements)
      (h : Visits c m e k n element x) : Visits c m e k (n + 1) d (.array elements)
  | shapeMember {n d fields elements members f x} (hk : d.kind = .array (.shape fields))
      (he : .object members ∈ elements) (hf : f ∈ fields)
      (hx : Keyed.get? members (f.wireName c.case) = some x)
      (h : Visits c m e k (n - 1) f.definition x) : Visits c m e k (n + 1) d (.array elements)
  | tagged {n d key variants members tag variant} (hk : d.kind = .union (some key) variants)
      (ht : Keyed.get? members (c.case.apply key) = some (.string tag))
      (hv : Variant.tagged? variants tag = some variant)
      (h : Visits c m e k n variant.definition (.object members)) :
      Visits c m e k (n + 1) d (.object members)
  | untagged {n d front variant back j} (hk : d.kind = .union none (front ++ variant :: back))
      (hf : ∀ u ∈ front, c.acceptsWithin n u.definition j = false)
      (hv : c.acceptsWithin n variant.definition j = true)
      (h : Visits c m e k n variant.definition j) : Visits c m e k (n + 1) d j

/-- A variant in front of the first one that accepts a value makes another value of it, which it
accepts. -/
inductive Captured (c : Context) : Nat → Definition → Json → Prop where
  | intro {n d front u variant back j} (hk : d.kind = .union none (front ++ variant :: back))
      (hf : ∀ u ∈ front, c.acceptsWithin n u.definition j = false)
      (hv : c.acceptsWithin n variant.definition j = true) (hu : u ∈ front)
      (ha : c.accepts u.definition (convert c n u.definition j) = true)
      (hne : convert c n u.definition j ≠ j) : Captured c (n + 1) d j

end Coercion

namespace Validation

theorem acceptsWithin_iff (c : Context) (n : Nat) (d : Definition) (j : Json) :
    c.acceptsWithin n d j = true ↔ CleanBy (judge c n) [] d j := by
  rw [Context.acceptsWithin, List.isEmpty_iff, CleanBy, clean_nil_iff]

end Validation

/-! ### Scalars -/

namespace ScalarKind

open Validation (hasKind)

/-- A value of a kind is converted to itself, if at all. -/
theorem coerce?_of_hasKind {kind : ScalarKind} {j : Json} (h : hasKind kind j = true) :
    (kind.coerce? j).getD j = j := by
  cases kind <;> cases j <;> first
    | rfl
    | cases h
    | simp_all [hasKind, coerce?, Json.isNull, completeDatetime?, completeTime?, Json.string?]

end ScalarKind

namespace Coercion

open Validation (judge CleanBy StepMeets)

variable {next : Converter}

/-- A literal is the only value that it makes of one equal to it. -/
theorem literal_of_sameValue {value j : Json} (h : j.sameValue value = true) :
    literal value j = j := by
  cases value <;> cases j <;> first | rfl | cases h

/-! ### Containers -/

/-- Members that their fields leave alone stay as they are. -/
theorem object_eq_self {case : KeyCase} {shape : List Field} {members : Keyed Json}
    (h : ∀ f ∈ shape, ∀ m, Keyed.get? members (f.wireName case) = some m →
      next f.definition m = m) :
    object case next shape (.object members) = .object members := by
  simp only [object, Json.object.injEq]
  induction shape with
  | nil => rfl
  | cons f rest ih =>
    have hf : Keyed.modify (f.wireName case) (next f.definition) members = members :=
      Keyed.modify_eq_self _ _ _ (h f List.mem_cons_self)
    rw [List.foldl_cons, hf]
    exact ih fun g hg => h g (List.mem_cons_of_mem f hg)

theorem array_eq_self {convert : Json → Json} {elements : List Json}
    (h : ∀ m ∈ elements, convert m = m) : array convert (.array elements) = .array elements := by
  rw [array, List.map_congr_left h, List.map_id']

/-! ### Unions -/

/-- The variants in front make nothing else of a value that the next one leaves alone. -/
theorem firstAccepted?_eq_self {c : Context} {j : Json} {front : List Variant} {variant : Variant}
    (back : List Variant)
    (hf : ∀ u ∈ front, c.accepts u.definition (next u.definition j) = true →
      next u.definition j = j)
    (ha : c.accepts variant.definition j = true) (hv : next variant.definition j = j) :
    firstAccepted? c next j (front ++ variant :: back) = some j := by
  induction front with
  | nil => simp [firstAccepted?, hv, ha]
  | cons u rest ih =>
    have hr := ih fun w hw => hf w (List.mem_cons_of_mem u hw)
    simp only [List.cons_append, firstAccepted?]
    split
    · rename_i hu
      rw [hf u List.mem_cons_self hu]
    · exact hr

theorem untaggedUnion_eq_self {c : Context} {variants : List Variant} {j : Json}
    (hb : ∀ v ∈ variants, v.definition.scalarKind? ≠ some .boolean)
    (h : firstAccepted? c next j variants = some j) : untaggedUnion c next variants j = j := by
  have hn : (variants.any fun v => v.definition.scalarKind? == some .boolean) = false := by
    simpa using hb
  simp [untaggedUnion, hn, h]

/-- The first of the variants that accept a value. -/
theorem exists_first_accepting {c : Context} {n : Nat} {variants : List Variant} {j : Json}
    (h : ∃ v ∈ variants, c.acceptsWithin n v.definition j = true) :
    ∃ front variant back, variants = front ++ variant :: back ∧
      (∀ u ∈ front, c.acceptsWithin n u.definition j = false) ∧
      c.acceptsWithin n variant.definition j = true := by
  have hs : (variants.find? fun v => c.acceptsWithin n v.definition j).isSome = true := by
    simpa using h
  obtain ⟨variant, hv⟩ := Option.isSome_iff_exists.mp hs
  obtain ⟨ha, front, back, rfl, hf⟩ := List.find?_eq_some_iff_append.mp hv
  exact ⟨front, variant, back, rfl, fun u hu => by simpa using hf u hu, ha⟩

/-! ### The walk -/

/-- Conversion leaves alone what a walk with the same levels accepts, if no union on the way makes
another value of its own. -/
theorem convert_eq_self (c : Context) {n : Nat} (hle : n ≤ nestingLimit + 1) {tags : List String}
    {d : Definition} {j : Json} (clean : CleanBy (judge c n) tags d j)
    (noBoolean : ∀ e, Definition.Occurs c.view e d → e.NoBooleanVariant)
    (uncaptured : ∀ m e k, Visits c m e k n d j → ¬ Captured c m e k) : convert c n d j = j := by
  induction n using Nat.strongRecOn generalizing tags d j with
  | ind n ih =>
    cases n with
    | zero => rfl
    | succ n =>
      rw [convert_succ, step]
      by_cases hj : j.isNull = true
      · rw [if_pos hj]
      rw [if_neg hj]
      have hn : (j.isNull && Validation.takesNull d) = false := by simp [hj]
      rw [Validation.cleanBy_judge_iff_stepMeets c n tags hn] at clean
      unfold StepMeets at clean
      cases hk : d.kind with
      | reference target =>
        rw [hk] at clean
        obtain ⟨definition, hd, h⟩ := clean
        simp only [hd]
        exact ih n (by omega) (by omega) h (fun e he => noBoolean e (.reference hk hd he))
          fun m e k hv => uncaptured m e k (.reference hk hd hv)
      | object shape =>
        rw [hk] at clean
        obtain ⟨members, rfl, h⟩ := clean
        apply object_eq_self
        intro f hf x hx
        exact ih n (by omega) (by omega) (h.present f hf x hx)
          (fun e he => noBoolean e (.field hk hf he))
          fun m e k hv => uncaptured m e k (.member hk hf hx hv)
      | array items =>
        rw [hk] at clean
        cases items with
        | of element =>
          obtain ⟨elements, rfl, -, h⟩ := clean
          apply array_eq_self
          intro x hx
          exact ih n (by omega) (by omega) (h x hx) (fun e he => noBoolean e (.element hk he))
            fun m e k hv => uncaptured m e k (.element hk hx hv)
        | shape fields =>
          obtain ⟨elements, rfl, -, h⟩ := clean
          apply array_eq_self
          intro y hy
          obtain ⟨members, rfl, h⟩ := h y hy
          apply object_eq_self
          intro f hf x hx
          exact ih (n - 1) (by omega) (by omega) (h.present f hf x hx)
            (fun e he => noBoolean e (.shapeField hk hf he))
            fun m e k hv => uncaptured m e k (.shapeMember hk hy hf hx hv)
      | union discriminator variants =>
        rw [hk] at clean
        cases discriminator with
        | some key =>
          obtain ⟨members, tag, variant, rfl, ht, hv, h⟩ := clean
          have hc : Variant.chosenBy? variants (c.case.apply key) (.object members) =
              some variant := by
            simp [Variant.chosenBy?, Json.get?, ht, Json.string?, hv]
          have hm : variant ∈ variants := List.mem_of_find?_eq_some hv
          simp only [hc]
          exact ih n (by omega) (by omega) h (fun e he => noBoolean e (.variant hk hm he))
            fun m e k hw => uncaptured m e k (.tagged hk ht hv hw)
        | none =>
          simp only [← Validation.acceptsWithin_iff] at clean
          obtain ⟨front, variant, back, rfl, hf, hv⟩ := exists_first_accepting clean
          have hm : variant ∈ front ++ variant :: back := by simp
          have hc := (Validation.acceptsWithin_iff c n variant.definition j).mp hv
          have hs : convert c n variant.definition j = j :=
            ih n (by omega) (by omega) hc (fun e he => noBoolean e (.variant hk hm he))
              fun m e k hw => uncaptured m e k (.untagged hk hf hv hw)
          have ha : c.accepts variant.definition j = true :=
            (Validation.acceptsWithin_iff c (nestingLimit + 1) variant.definition j).mpr
              (Validation.cleanBy_judge_mono c (by omega) [] variant.definition j hc)
          apply untaggedUnion_eq_self (noBoolean d .here _ hk)
          refine firstAccepted?_eq_self back ?_ ha hs
          intro u hu hau
          by_cases hne : convert c n u.definition j = j
          · exact hne
          · exact absurd (.intro hk hf hv hu hau hne) (uncaptured (n + 1) d j .here)
      | literal value =>
        rw [hk] at clean
        exact literal_of_sameValue clean
      | scalar kind =>
        rw [hk] at clean
        exact ScalarKind.coerce?_of_hasKind clean.2.ofKind

end Coercion

/-- Conversion leaves an accepted payload alone unless one of its unions without a discriminator has
a boolean variant or makes another value of its own. -/
theorem coerce_eq_self_of_accepts (c : Context) (d : Definition) (j : Json)
    (accepted : c.accepts d j = true)
    (noBoolean : ∀ e, Definition.Occurs c.view e d → e.NoBooleanVariant)
    (uncaptured : ∀ n e k, Coercion.Visits c n e k (nestingLimit + 1) d j →
      ¬ Coercion.Captured c n e k) : c.coerce d j = j :=
  Coercion.convert_eq_self c (Nat.le_refl _)
    ((Validation.acceptsWithin_iff c (nestingLimit + 1) d j).mp accepted) noBoolean uncaptured

/-! ### The size of a shirt -/

def shop : Context := { view := ⟨.empty, .global⟩, case := .preserve }

def sizeVariants : List Variant :=
  [{ definition := .scalar .integer }, { definition := .scalar .string }]

def shirtSize : Definition := { kind := .union none sizeVariants }

theorem scalar_of_mem_sizeVariants {v : Variant} (h : v ∈ sizeVariants) :
    ∃ kind, v.definition.kind = .scalar kind := by
  simp only [sizeVariants, List.mem_cons, List.not_mem_nil, or_false] at h
  rcases h with rfl | rfl
  · exact ⟨.integer, rfl⟩
  · exact ⟨.string, rfl⟩

def shirt : Definition := .object [{ name := "size", definition := shirtSize }]

/-- Sizes are numbers or letters. -/
theorem noBooleanVariant_of_occurs_shirt {e : Definition}
    (h : Definition.Occurs shop.view e shirt) : e.NoBooleanVariant := by
  cases h with
  | here =>
    intro variants hk
    cases hk
  | reference hk => cases hk
  | element hk => cases hk
  | shapeField hk => cases hk
  | variant hk => cases hk
  | field hk hf h =>
    cases hk
    obtain rfl := List.mem_singleton.mp hf
    cases h with
    | here =>
      intro variants hk
      cases hk
      simp [sizeVariants, Definition.scalarKind?, Definition.scalar, Kind.scalar?]
    | reference hk => cases hk
    | element hk => cases hk
    | shapeField hk => cases hk
    | field hk => cases hk
    | variant hk hv h =>
      cases hk
      obtain ⟨kind, hs⟩ := scalar_of_mem_sizeVariants hv
      obtain rfl := h.eq_of_scalar hs
      intro variants hk
      rw [hs] at hk
      cases hk

/-- A size in digits is accepted as a string and becomes a number all the same. -/
theorem coerce_numbers_size :
    (∀ e, Definition.Occurs shop.view e shirt → e.NoBooleanVariant) ∧
      shop.accepts shirt (.object [("size", .string "5")]) = true ∧
      shop.coerce shirt (.object [("size", .string "5")]) = .object [("size", .int 5)] ∧
      Json.object [("size", .string "5")] ≠ .object [("size", .int 5)] := by
  refine ⟨fun e => noBooleanVariant_of_occurs_shirt, ?_, ?_, ?_⟩
  · decide +kernel
  · decide +kernel
  · simp

def largeShirt : Json := .object [("size", .string "L")]

theorem convert_large (n : Nat) :
    Coercion.convert shop n (.scalar .integer) (.string "L") = .string "L" := by
  cases n with
  | zero => rfl
  | succ n =>
    rw [Coercion.convert_succ]
    rfl

/-- No number is made of the letter in front of the string that it is accepted as. -/
theorem not_captured_of_visits_largeShirt {n m : Nat} {e : Definition} {k : Json}
    (h : Coercion.Visits shop n e k m shirt largeShirt) : ¬ Coercion.Captured shop n e k := by
  intro hcap
  cases h with
  | here =>
    cases hcap with
    | intro hk => cases hk
  | reference hk => cases hk
  | untagged hk => cases hk
  | tagged hk => cases hk
  | member hk hf hx h =>
    cases hk
    obtain rfl := List.mem_singleton.mp hf
    have hw : Field.wireName shop.case { name := "size", definition := shirtSize } = "size" := rfl
    rw [hw] at hx
    cases hx
    cases h with
    | here =>
      cases hcap with
      | @intro n _ front u variant back _ hk _ _ hu _ hne =>
        have hs : sizeVariants = front ++ variant :: back := by injection hk
        have hf : front = [] ∨ front = [{ definition := .scalar .integer }] := by
          match front, hs with
          | [], _ => exact .inl rfl
          | [w], hs => cases hs; exact .inr rfl
          | w :: w' :: rest, hs => simp [sizeVariants] at hs
        rcases hf with rfl | rfl
        · cases hu
        · obtain rfl := List.mem_singleton.mp hu
          exact hne (convert_large n)
    | reference hk => cases hk
    | @untagged _ _ front variant back _ hk _ _ h =>
      have hs : sizeVariants = front ++ variant :: back := by injection hk
      obtain ⟨kind, hv⟩ := scalar_of_mem_sizeVariants (by simp [hs] : variant ∈ sizeVariants)
      cases h with
      | here =>
        cases hcap with
        | intro hk => rw [hv] at hk; cases hk
      | reference hk => rw [hv] at hk; cases hk
      | untagged hk => rw [hv] at hk; cases hk

theorem coerce_largeShirt :
    shop.accepts shirt largeShirt = true ∧ shop.coerce shirt largeShirt = largeShirt := by
  have accepted : shop.accepts shirt largeShirt = true := by decide +kernel
  exact ⟨accepted, coerce_eq_self_of_accepts shop shirt largeShirt accepted
    (fun e => noBooleanVariant_of_occurs_shirt) fun n e k => not_captured_of_visits_largeShirt⟩

end ApiContract
