import ApiContract.Proofs.AcceptedParams
import ApiContract.Proofs.SingleFaults

/-!
# Tags that a variant knows nothing of

A tagged union takes an object with its tag though the variant has no field for the tag: what the
variant tells of that key is dropped. That works through references and through tagged unions
further in. It does not work where the variant comes to an untagged union: a trial of its variants
that fails is told as one issue of the union, and that issue is not about the key.
-/

namespace ApiContract

open Validation

/-- Nothing that a definition leads to has a key for one of its fields or for a tag. -/
inductive Definition.LeavesKey (c : Context) (wire : String) : Definition → Prop where
  | object {d shape} (hk : d.kind = .object shape) (free : ∀ f ∈ shape, f.wireName c.case ≠ wire) :
      LeavesKey c wire d
  | reference {d target} (hk : d.kind = .reference target)
      (h : ∀ definition, c.view.definition? target = some definition →
        LeavesKey c wire definition) : LeavesKey c wire d
  | tagged {d key variants} (hk : d.kind = .union (some key) variants)
      (apart : c.case.apply key ≠ wire) (h : ∀ v ∈ variants, LeavesKey c wire v.definition) :
      LeavesKey c wire d
  | untagged {d variants} (hk : d.kind = .union none variants)
      (h : ∀ v ∈ variants, LeavesKey c wire v.definition) : LeavesKey c wire d

namespace Validation

variable {c : Context} {excused excused' : List String} {wire : String} {j : Json}
  {members : Keyed Json} {d : Definition} {n : Nat}

/-- A tolerated key may be put in. -/
theorem MeetsShape.insert {case : KeyCase} {P : Definition → Json → Prop} {shape : List Field}
    (h : MeetsShape case excused P shape members) (free : ∀ f ∈ shape, f.wireName case ≠ wire)
    (more : excused ⊆ excused') (tolerated : wire ∈ excused') :
    MeetsShape case excused' P shape (Keyed.insert wire j members) where
  known key hk := by
    rcases (Keyed.mem_keys_insert wire j members key).mp hk with rfl | hk
    · exact .inr tolerated
    · exact (h.known key hk).imp_right (@more key)
  present f hf m hm := h.present f hf m (by rwa [Keyed.get?_insert, if_neg (free f hf)] at hm)
  absent f hf hm := h.absent f hf (by rwa [Keyed.get?_insert, if_neg (free f hf)] at hm)

/-! ### Variants -/

theorem paramsWithin_tagged {key tag : String} {variants : List Variant} {variant : Variant}
    (hk : d.kind = .union (some key) variants)
    (ht : Keyed.get? members (c.case.apply key) = some (.string tag))
    (hv : Variant.tagged? variants tag = some variant) :
    c.paramsWithin (n + 1) d (.object members) =
      holdTag key (.string tag) (c.paramsWithin n variant.definition (.object members)) := by
  rw [Context.paramsWithin, judge_union hk, params_taggedUnion ht hv, Context.paramsWithin]

/-! ### Tolerated tags -/

/-- An object stays clean with an excused key that its shape does not have, and that key gives no
param. -/
theorem clean_insert_of_described {shape : List Field} {tags : List Path} {key : String}
    (described : Describes c shape members tags [] d (.object members))
    (lacks : Keyed.get? members (c.case.apply key) = none)
    (free : ∀ f ∈ shape, f.wireName c.case ≠ c.case.apply key) (more : excused ⊆ excused')
    (tolerated : c.case.apply key ∈ excused')
    (clean : CleanBy (judge c n) excused d (.object members)) :
    let tagged := Json.object (Keyed.insert (c.case.apply key) j members)
    CleanBy (judge c n) excused' d tagged ∧
      ∃ ps, c.paramsWithin n d tagged = .object ps ∧
        ((∀ f ∈ shape, f.name ≠ key) → Keyed.get? ps key = none) := by
  intro tagged
  generalize here : ([] : Path) = place at described
  generalize whole : Json.object members = w at described clean
  induction described generalizing n excused excused' with
  | member | element | shapes => cases here
  | object hk =>
    obtain ⟨n, rfl⟩ := level_of_cleanBy clean
    rw [cleanBy_object_iff hk] at clean
    refine ⟨(cleanBy_object_iff hk).mpr (clean.insert free more tolerated), ?_⟩
    rw [Context.paramsWithin, judge_object hk, params_object (placed_judge c n)]
    refine ⟨_, rfl, fun unnamed => get?_named_of_not_mem fun named => ?_⟩
    obtain ⟨f, hf, same⟩ := List.mem_map.mp named
    exact unnamed f hf same
  | reference hk hd _ ih =>
    subst whole
    obtain ⟨n, rfl⟩ := level_of_cleanBy clean
    rw [CleanBy, judge_reference hk hd rfl] at clean
    rw [CleanBy, Context.paramsWithin, judge_reference hk hd rfl]
    exact ih more tolerated here rfl clean
  | @tagged _ _ _ inner _ _ tag _ hk ht hv _ ih =>
    cases whole
    obtain ⟨n, rfl⟩ := level_of_cleanBy clean
    have apart : c.case.apply inner ≠ c.case.apply key := fun same => by
      cases ht.symm.trans (same ▸ lacks)
    have kept : Keyed.get? (Keyed.insert (c.case.apply key) j members) (c.case.apply inner) =
        some (.string tag) := by
      rwa [Keyed.get?_insert, if_neg apart]
    obtain ⟨below, ps, params, none⟩ := ih (List.cons_subset_cons _ more) (.tail _ tolerated) here
      rfl ((cleanBy_tagged_iff hk ht hv).mp clean)
    refine ⟨(cleanBy_tagged_iff hk kept hv).mpr below, withTag inner (.string tag) ps, ?_, ?_⟩
    · rw [paramsWithin_tagged hk kept hv, params]
      rfl
    · intro unnamed
      rw [get?_withTag, if_neg (by rintro rfl; exact apart rfl), none unnamed]

/-! ### Refused tags -/

/-- No object with a key is clean where nothing has that key. -/
theorem not_clean_of_leavesKey (leaves : d.LeavesKey c wire) (has : wire ∈ Keyed.keys members)
    (counted : wire ∉ excused) : ¬ CleanBy (judge c n) excused d (.object members) := by
  intro clean
  induction leaves generalizing n excused with
  | object hk free =>
    obtain ⟨n, rfl⟩ := level_of_cleanBy clean
    rw [cleanBy_object_iff hk] at clean
    obtain ⟨f, hf, same⟩ := List.mem_map.mp ((clean.known wire has).resolve_right counted)
    exact free f hf same
  | reference hk _ ih =>
    obtain ⟨n, rfl⟩ := level_of_cleanBy clean
    obtain ⟨definition, hd, clean⟩ := (cleanBy_reference_iff hk rfl).mp clean
    exact ih definition hd counted clean
  | tagged hk apart _ ih =>
    obtain ⟨n, rfl⟩ := level_of_cleanBy clean
    obtain ⟨tag, variant, ht, hv, clean⟩ := (cleanBy_taggedUnion_iff hk).mp clean
    exact ih variant (List.mem_of_find?_eq_some hv)
      (List.not_mem_cons_of_ne_of_not_mem (Ne.symm apart) counted) clean
  | untagged hk _ ih =>
    obtain ⟨n, rfl⟩ := level_of_cleanBy clean
    obtain ⟨variant, hv, clean⟩ := (cleanBy_untaggedUnion_iff hk rfl).mp clean
    exact ih variant hv List.not_mem_nil clean

/-- Where nothing else has the key of a tag, an object is taken with it only if a shape describes
the object and no untagged union is tried on the way. -/
theorem described_of_clean_insert (leaves : d.LeavesKey c wire)
    (clean : CleanBy (judge c n) excused d (.object (Keyed.insert wire j members))) :
    ∃ shape tags, Describes c shape members tags [] d (.object members) := by
  induction leaves generalizing n excused with
  | @object _ shape hk => exact ⟨shape, _, .object hk⟩
  | reference hk _ ih =>
    obtain ⟨n, rfl⟩ := level_of_cleanBy clean
    obtain ⟨definition, hd, clean⟩ := (cleanBy_reference_iff hk rfl).mp clean
    obtain ⟨shape, tags, described⟩ := ih definition hd clean
    exact ⟨shape, tags, .reference hk hd described⟩
  | tagged hk apart _ ih =>
    obtain ⟨n, rfl⟩ := level_of_cleanBy clean
    obtain ⟨tag, variant, ht, hv, clean⟩ := (cleanBy_taggedUnion_iff hk).mp clean
    rw [Keyed.get?_insert, if_neg apart] at ht
    obtain ⟨shape, tags, described⟩ := ih variant (List.mem_of_find?_eq_some hv) clean
    exact ⟨shape, _, .tagged hk ht hv described⟩
  | untagged hk leaves =>
    obtain ⟨n, rfl⟩ := level_of_cleanBy clean
    obtain ⟨variant, hv, clean⟩ := (cleanBy_untaggedUnion_iff hk rfl).mp clean
    have has : wire ∈ Keyed.keys (Keyed.insert wire j members) :=
      (Keyed.mem_keys_insert wire j members wire).mpr (.inl rfl)
    exact absurd clean (not_clean_of_leavesKey (leaves variant hv) has List.not_mem_nil)

end Validation

/-- A union takes an object that the variant of a tag takes also with the tag, and holds the tag in
the params, if the variant comes to the shape of the object without trying an untagged union, and no
field has the key or the name of the tag. Where nothing that the variant leads to has the key, it
takes the object with the tag only if the variant comes to its shape in that way. -/
theorem tag_tolerated (c : Context) {d : Definition} {key tag : String} {variants : List Variant}
    {v : Variant} {members : Keyed Json} (hk : d.kind = .union (some key) variants)
    (hv : Variant.tagged? variants tag = some v)
    (lacks : Keyed.get? members (c.case.apply key) = none)
    (accepted : c.acceptsWithin nestingLimit v.definition (.object members) = true) :
    let tagged := Json.object (Keyed.insert (c.case.apply key) (.string tag) members)
    (∀ shape tags, Describes c shape members tags [] v.definition (.object members) →
      (∀ f ∈ shape, f.wireName c.case ≠ c.case.apply key) →
      c.accepts d tagged = true ∧
        ((∀ f ∈ shape, f.name ≠ key) →
          ∃ ps, (c.validate d tagged).params = .object ps ∧
            Keyed.get? ps key = some (.string tag))) ∧
    (v.definition.LeavesKey c (c.case.apply key) → c.accepts d tagged = true →
      ∃ shape tags, Describes c shape members tags [] v.definition (.object members)) := by
  intro tagged
  have ht : Keyed.get? (Keyed.insert (c.case.apply key) (.string tag) members)
      (c.case.apply key) = some (.string tag) := by
    rw [Keyed.get?_insert, if_pos rfl]
  have taken : c.accepts d tagged = true ↔
      CleanBy (judge c nestingLimit) [c.case.apply key] v.definition tagged := by
    rw [Context.accepts, List.isEmpty_iff, ← clean_nil_iff]
    exact cleanBy_tagged_iff hk ht hv
  constructor
  · intro shape tags described free
    obtain ⟨clean, ps, params, none⟩ := clean_insert_of_described (j := .string tag) described lacks
      free (List.nil_subset _) List.mem_cons_self ((acceptsWithin_iff ..).mp accepted)
    refine ⟨taken.mpr clean, fun unnamed => ⟨withTag key (.string tag) ps, ?_, ?_⟩⟩
    · rw [Context.validate, ← Context.paramsWithin, paramsWithin_tagged hk ht hv, params]
      rfl
    · rw [get?_withTag, if_pos rfl, none unnamed]
      rfl
  · exact fun leaves accepted => described_of_clean_insert leaves (taken.mp accepted)

def byCharge : Variant := { tag := some "charge", definition := .reference "Charge" }

/-- A charge is taken as a payment, behind a reference and two more tags. -/
theorem charge_tag_tolerated :
    let card : Keyed Json :=
      [("cardNetwork", .string "visa"), ("cardNo", .string "4"), ("chargeKind", .string "card")]
    let paid := Json.object (Keyed.insert "paymentKind" (.string "charge") card)
    let payment := Definition.taggedUnion "payment_kind" [byCharge]
    billsApi.accepts payment paid = true ∧
      ∃ ps, (billsApi.validate payment paid).params = .object ps ∧
        Keyed.get? ps "payment_kind" = some (.string "charge") := by
  intro card paid payment
  have key : billsApi.case.apply "payment_kind" = "paymentKind" := by decide +kernel
  have kind : Keyed.get? card (billsApi.case.apply "charge_kind") = some (.string "card") := by
    decide +kernel
  have network : Keyed.get? card (billsApi.case.apply "card_network") = some (.string "visa") := by
    decide +kernel
  have described : Describes billsApi [cardNo] card _ [] (.reference "Charge") (.object card) :=
    .reference rfl rfl (.tagged rfl kind rfl (.tagged rfl network rfl (.object rfl)))
  have lacks : Keyed.get? card (billsApi.case.apply "payment_kind") = none := by decide +kernel
  have chosen : Variant.tagged? [byCharge] "charge" = some byCharge := rfl
  obtain ⟨tolerated, -⟩ := tag_tolerated billsApi (d := payment) rfl chosen lacks
    (by decide +kernel)
  obtain ⟨accepted, params⟩ := tolerated _ _ described (by decide +kernel)
  rw [key] at accepted params
  exact ⟨accepted, params (by decide +kernel)⟩

def box : Definition :=
  .union [.object [{ name := "width", definition := .scalar .integer }],
    .object [{ name := "weight", definition := .scalar .integer }]]

def networkByKind : Field :=
  { name := "kind", definition := .scalar .string, rename := some "network" }

/-- The width of a box is taken, and is refused with the tag for a box. A card is taken with the tag
for a card, but its network is held where the tag should be. -/
theorem tags_not_tolerated :
    let c : Context := ⟨⟨{}, .global⟩, .preserve⟩
    let card := Definition.object [networkByKind]
    let delivery := Definition.taggedUnion "kind" [{ tag := some "box", definition := box },
      { tag := some "card", definition := card }]
    let paid := Json.object [("kind", .string "card"), ("network", .string "visa")]
    (c.accepts box (.object [("width", .int 1)]) = true ∧ box.LeavesKey c "kind" ∧
        c.accepts delivery (.object [("kind", .string "box"), ("width", .int 1)]) = false) ∧
      c.accepts card (.object [("network", .string "visa")]) = true ∧ card.LeavesKey c "kind" ∧
        c.accepts delivery paid = true ∧
        (c.validate delivery paid).params = .object [("kind", .string "visa")] := by
  intro c card delivery paid
  have boxLeaves : box.LeavesKey c "kind" := by
    refine .untagged rfl fun v hv => ?_
    obtain ⟨d, hd, rfl⟩ := List.mem_map.mp hv
    obtain rfl | rfl : d = _ ∨ d = _ := by simpa using hd
    · exact .object rfl (by decide +kernel)
    · exact .object rfl (by decide +kernel)
  have cardLeaves : card.LeavesKey c "kind" := .object rfl (by decide +kernel)
  exact ⟨⟨by decide +kernel, boxLeaves, by decide +kernel⟩, by decide +kernel, cardLeaves,
    by decide +kernel, rfl⟩

end ApiContract
