import ApiContract.Proofs.ResponseBodies

/-!
# What definitions that are the same accept

Definitions that are written alike differ at most in the sign of a zero and in what is said about
them by the way. They accept the same values.
-/

namespace ApiContract

/-! ### Bounds -/

namespace Binary64

variable {x y : Binary64}

theorem scaled_of_sameValue (h : x.sameValue y = true) (e : Int) : x.scaled e = y.scaled e := by
  simp only [sameValue, Bool.and_eq_true, Bool.or_eq_true, beq_iff_eq] at h
  obtain ⟨⟨significand, exponent⟩, zero | sign⟩ := h
  · have zero' := significand.symm.trans zero
    simp [scaled, zero, zero']
  · simp [scaled, significand, exponent, sign]

theorem le_congr {x' y' : Binary64} (hx : x.sameValue x' = true) (hy : y.sameValue y' = true) :
    x.le y = x'.le y' := by
  have exponent {a b : Binary64} (h : a.sameValue b = true) : a.exponent = b.exponent := by
    simp only [sameValue, Bool.and_eq_true, beq_iff_eq] at h
    exact h.1.2
  simp only [le, scaled_of_sameValue hx, scaled_of_sameValue hy, exponent hx, exponent hy]

end Binary64

/-! ### What one of two definitions says -/

theorem Json.eq_null_of_sameValue {j : Json} (h : Json.null.sameValue j = true) : j = .null := by
  cases j <;> simp_all [sameValue]

/-- What is written the same way is the same, if what is written tells it. -/
theorem Json.eq_of_sameMembers {α : Type} {ms ns : Keyed Json} {key : String} {write : α → Json}
    (tells : ∀ a b, (write a).sameValue (write b) = true → a = b) (h : sameMembers ms ns = true)
    {x y : Option α} (hx : ms.get? key = x.map write) (hy : ns.get? key = y.map write) : x = y := by
  have same := get?_of_sameMembers h key
  rw [hx, hy] at same
  cases x with
  | none =>
    cases y with
    | none => rfl
    | some b => cases same
  | some a =>
    cases y with
    | none => cases same
    | some b =>
      cases same with
      | some same => exact congrArg some (tells a b same)

theorem StringFormat.eq_of_sameValue (f g : StringFormat)
    (h : f.toJson.sameValue g.toJson = true) : f = g := by
  cases f <;> cases g <;>
    simp_all [StringFormat.toJson, StringFormat.name, Json.sameValue, Json.sameMembers]

/-- Texts are equal as values only if they are equal. -/
theorem Allowed.eq_of_sameValue (a b : Allowed) (h : a.toJson.sameValue b.toJson = true) :
    a = b := by
  cases a with
  | named type =>
    cases b with
    | named type' => simpa [Allowed.toJson, Json.sameValue] using h
    | inline values => simp [Allowed.toJson, Json.strings, Json.sameValue] at h
  | inline values =>
    cases b with
    | named type => simp [Allowed.toJson, Json.strings, Json.sameValue] at h
    | inline values' =>
      have elements := Json.forall₂_of_sameElements h
      rw [List.forall₂_map_left_iff, List.forall₂_map_right_iff] at elements
      have same : List.Forall₂ Eq values values' :=
        elements.imp fun x y same => by simpa [Json.sameValue] using same
      rw [List.forall₂_eq_eq_eq] at same
      rw [same]

namespace Definition.Alike

variable {d e : Definition}

theorem symm (h : d.Alike e) : e.Alike d := by
  obtain ⟨ms, ns, hd, he, same⟩ := h
  exact ⟨ns, ms, he, hd, Json.sameMembers_of_left same (Json.sameMembers_refl ms)⟩

theorem format (h : d.Alike e) : d.format = e.format := by
  obtain ⟨ms, ns, hd, he, same⟩ := h
  exact Json.eq_of_sameMembers StringFormat.eq_of_sameValue same hd.format he.format

theorem allowed (h : d.Alike e) : d.allowed = e.allowed := by
  obtain ⟨ms, ns, hd, he, same⟩ := h
  exact Json.eq_of_sameMembers Allowed.eq_of_sameValue same hd.allowed he.allowed

theorem default?_isSome (h : d.Alike e) (hd : d.default?.isSome = true) :
    e.default?.isSome = true := by
  cases he : e.default? with
  | some j => rfl
  | none => simp [h.default?_none he] at hd

/-- The bounds of two definitions that are written alike let the same numbers pass. -/
theorem bounds (h : d.Alike e) {x : Binary64} (hx : d.Bounds x) : e.Bounds x := by
  obtain ⟨ms, ns, hd, he, same⟩ := h
  have told {key : String} {bound : Option Binary64} {y : Binary64}
      (hm : ms.get? key = bound.map .float) (hn : ns.get? key = some (.float y)) :
      ∃ z, bound = some z ∧ z.sameValue y = true := by
    obtain ⟨j, hj, alike⟩ := Json.exists_get?_of_sameMembers same hn
    obtain ⟨z, hz, rfl⟩ := Option.map_eq_some_iff.mp (hm.symm.trans hj)
    exact ⟨z, hz, alike⟩
  refine ⟨fun least hl => ?_, fun greatest hg => ?_⟩
  · obtain ⟨z, hz, alike⟩ := told hd.min (he.min.trans (congrArg (Option.map Json.float) hl))
    have := hx.low z hz
    rwa [Binary64.lt, Binary64.le_congr alike (Binary64.sameValue_refl x)] at this
  · obtain ⟨z, hz, alike⟩ := told hd.max (he.max.trans (congrArg (Option.map Json.float) hg))
    have := hx.high z hz
    rwa [Binary64.lt, Binary64.le_congr (Binary64.sameValue_refl x) alike] at this

theorem counts (h : d.Alike e) {elements : List Json} (hc : d.Counts elements) :
    e.Counts elements := fun x hx => h.bounds (hc x hx)

end Definition.Alike

namespace Kind.Alike

variable {k : Kind}

/-- What equals fields in place as a value is fields in place. -/
theorem eq_shapes {fields : List Field} (h : k.Alike (.array (.shape fields))) :
    ∃ others, k = .array (.shape others) ∧ List.Forall₂ Field.Alike others fields := by
  have akin := h.akin
  obtain ⟨ms, ns, hk, hl, same⟩ := h
  cases akin with
  | array items =>
    obtain ⟨i, hi, alike⟩ := Json.exists_get?_of_sameMembers same hl.2
    obtain rfl := Option.some.inj (hk.2.symm.trans hi)
    cases items with
    | of other => simp [Items.toJson, Json.sameValue, Json.sameMembers] at alike
    | shape others =>
      simp only [Items.toJson, Json.sameValue, Json.sameMembers, Bool.and_true, BEq.rfl,
        Bool.true_and] at alike
      exact ⟨others, rfl, Field.forall₂_alike (Json.forall₂_of_sameElements alike)⟩

end Kind.Alike

/-- Of two lists of variants that are alike, the variants with a tag are alike. -/
theorem Variant.exists_tagged?_of_alike {vs ws : List Variant} {tag : String} {v : Variant}
    (h : List.Forall₂ Variant.Alike vs ws) (hv : Variant.tagged? vs tag = some v) :
    ∃ w, Variant.tagged? ws tag = some w ∧ v.Alike w := by
  unfold Variant.tagged? at hv ⊢
  induction h with
  | nil => cases hv
  | @cons v' w vs ws alike _ ih =>
    rw [List.find?_cons] at hv ⊢
    rw [← alike.tag]
    cases tagged : v'.tag == some tag with
    | true =>
      rw [tagged] at hv
      cases hv
      exact ⟨w, rfl, alike⟩
    | false =>
      rw [tagged] at hv
      exact ih hv

/-! ### What two definitions accept -/

namespace Validation

variable {c : Context} {d e : Definition} {j : Json}

/-- Whether `null` passes goes by flags and literals, which are the same. -/
theorem takesNull_of_alike (h : d.Alike e) (taken : takesNull d = true) : takesNull e = true := by
  simp only [takesNull, Bool.or_eq_true] at taken ⊢
  rw [← h.nullable]
  refine taken.imp_right fun null => ?_
  have kinds := h.symm.kind
  cases hk : d.kind with
  | literal value =>
    rw [hk] at null kinds
    cases value with
    | null =>
      obtain ⟨other, he, same⟩ := kinds.eq_literal
      rw [he, Json.eq_null_of_sameValue (Json.sameValue_of_left same (Json.sameValue_refl other))]
    | _ => cases null
  | _ => simp [hk] at null

theorem MeetsScalar.of_alike {view : View} {kind : ScalarKind} (h : d.Alike e)
    (meets : MeetsScalar view d kind j) : MeetsScalar view e kind j where
  ofKind := meets.ofKind
  value numeric x hx := h.bounds (meets.value numeric x hx)
  length textual s hs x hx := h.bounds (meets.length textual s hs x hx)
  format s hs format hf := meets.format s hs format (h.format.trans hf)
  allowed values hv := by
    refine meets.allowed values ?_
    rwa [allowedValues?, h.allowed]

/-- An object meets a shape that is written like one that it meets. -/
theorem MeetsShape.of_alike {case : KeyCase} {tags : List String} {P Q : Definition → Json → Prop}
    {shape fields : List Field} {members : Keyed Json}
    (alike : List.Forall₂ Field.Alike shape fields)
    (each : ∀ (f g : Field) (m : Json), f.Alike g → P f.definition m → Q g.definition m)
    (meets : MeetsShape case tags P shape members) : MeetsShape case tags Q fields members where
  known key hk := by
    rw [← Field.map_wireName_of_alike alike]
    exact meets.known key hk
  present g hg m hm := by
    obtain ⟨f, hf, same⟩ := exists_of_forall₂ alike.flip hg
    exact each f g m same (meets.present f hf m (by rwa [same.wireName_eq]))
  absent g hg hm := by
    obtain ⟨f, hf, same⟩ := exists_of_forall₂ alike.flip hg
    rcases meets.absent f hf (by rwa [same.wireName_eq]) with optional | filled
    · exact .inl (same.definition.optional ▸ optional)
    · exact .inr (same.definition.default?_isSome filled)

/-- What one of two definitions that are written alike accepts, with some levels left, the other one
accepts. -/
theorem cleanBy_of_alike {n : Nat} {tags : List String} (alike : d.Alike e)
    (clean : CleanBy (judge c n) tags d j) : CleanBy (judge c n) tags e j := by
  induction n using Nat.strongRecOn generalizing tags d e j with
  | ind n ih =>
    cases n with
    | zero => exact absurd clean (not_cleanBy_judge_zero c tags d j)
    | succ n =>
      by_cases taken : (j.isNull && takesNull d) = true
      · obtain ⟨null, taken⟩ := Bool.and_eq_true_iff.mp taken
        exact cleanBy_judge_of_null n tags (by simp [null, takesNull_of_alike alike taken])
      have present : (j.isNull && takesNull d) = false := by simpa using taken
      have present' : (j.isNull && takesNull e) = false := by
        rw [Bool.eq_false_iff] at present ⊢
        intro taken
        obtain ⟨null, taken⟩ := Bool.and_eq_true_iff.mp taken
        exact present (by simp [null, takesNull_of_alike alike.symm taken])
      rw [cleanBy_judge_iff_stepMeets c n tags present] at clean
      rw [cleanBy_judge_iff_stepMeets c n tags present']
      have below : ∀ (f g : Field) (m : Json), f.Alike g → CleanBy (judge c n) [] f.definition m →
          CleanBy (judge c n) [] g.definition m :=
        fun f g m same => ih n (by omega) same.definition
      have farBelow : ∀ (f g : Field) (m : Json), f.Alike g →
          CleanBy (judge c (n - 1)) [] f.definition m →
          CleanBy (judge c (n - 1)) [] g.definition m :=
        fun f g m same => ih (n - 1) (by omega) same.definition
      have kinds := alike.kind
      unfold StepMeets at clean ⊢
      cases he : e.kind with
      | reference target =>
        rw [he] at kinds
        rw [kinds.eq_reference] at clean
        exact clean
      | object shape =>
        rw [he] at kinds
        obtain ⟨other, hd, same⟩ := kinds.eq_object
        rw [hd] at clean
        obtain ⟨members, rfl, meets⟩ := clean
        exact ⟨members, rfl, meets.of_alike same below⟩
      | array items =>
        rw [he] at kinds
        cases items with
        | of element =>
          obtain ⟨other, hd, same⟩ := kinds.eq_arrayOf
          rw [hd] at clean
          obtain ⟨elements, rfl, hc, each⟩ := clean
          exact ⟨elements, rfl, alike.counts hc, fun m hm => ih n (by omega) same (each m hm)⟩
        | shape fields =>
          obtain ⟨others, hd, same⟩ := kinds.eq_shapes
          rw [hd] at clean
          obtain ⟨elements, rfl, hc, each⟩ := clean
          refine ⟨elements, rfl, alike.counts hc, fun m hm => ?_⟩
          obtain ⟨members, rfl, meets⟩ := each m hm
          exact ⟨members, rfl, meets.of_alike same farBelow⟩
      | union key variants =>
        rw [he] at kinds
        obtain ⟨others, hd, same⟩ := kinds.eq_union
        rw [hd] at clean
        cases key with
        | some key =>
          obtain ⟨members, tag, v, rfl, ht, hv, chosen⟩ := clean
          obtain ⟨w, hw, like⟩ := Variant.exists_tagged?_of_alike same hv
          exact ⟨members, tag, w, rfl, ht, hw, ih n (by omega) like.definition chosen⟩
        | none =>
          obtain ⟨v, hv, met⟩ := clean
          obtain ⟨w, hw, like⟩ := exists_of_forall₂ same hv
          exact ⟨w, hw, ih n (by omega) like.definition met⟩
      | literal value =>
        rw [he] at kinds
        obtain ⟨other, hd, same⟩ := kinds.eq_literal
        rw [hd] at clean
        have back := Json.sameValue_of_left clean (Json.sameValue_refl j)
        exact Json.sameValue_of_left back same
      | scalar kind =>
        rw [he] at kinds
        rw [kinds.eq_scalar] at clean
        exact ⟨clean.1, clean.2.of_alike alike⟩

end Validation

/-- Definitions that are written alike accept the same values, with as many levels left. -/
theorem acceptsWithin_congr {c : Context} {d e : Definition} (alike : d.Alike e) (n : Nat)
    (j : Json) : c.acceptsWithin n d j = c.acceptsWithin n e j := by
  rw [Bool.eq_iff_iff, Validation.acceptsWithin_iff, Validation.acceptsWithin_iff]
  exact ⟨Validation.cleanBy_of_alike alike, Validation.cleanBy_of_alike alike.symm⟩

end ApiContract
