import ApiContract.Proofs.DefinitionSearch
import ApiContract.Proofs.NamedConformance

/-!
# Params accepted again by name

The params of an accepted payload are a payload themselves, with the names of fields for keys.
Tagged unions add their tags to the params of one object, and fields without a value their defaults.
Where no field is renamed and no name is given twice in a shape, the params conform to the
definition that they were read with.
-/

namespace ApiContract

open Validation

/-- A definition renames no field, has a default that it accepts by name if any, and tells only
shapes apart by a tag. -/
structure Definition.NamesItsKeys (c : Context) (d : Definition) : Prop where
  unrenamed : ∀ f ∈ d.fields, f.rename = none
  default : ∀ j, d.default? = some j → c.byName.accepts d j = true
  tagged : ∀ v ∈ d.taggedVariants, v.definition.ComesToShapes c.view fun _ => True

/-- No two fields of a shape have one name. -/
def Definition.NamesApart (d : Definition) : Prop := (d.fields.map Field.name).Nodup

theorem Definition.NamesApart.of_object {d : Definition} (h : d.NamesApart) {shape : List Field}
    (hk : d.kind = .object shape) : (shape.map Field.name).Nodup :=
  fields_of_object hk ▸ h

theorem Definition.NamesApart.of_shapes {d : Definition} (h : d.NamesApart) {fields : List Field}
    (hk : d.kind = .array (.shape fields)) : (fields.map Field.name).Nodup :=
  fields_of_shapes hk ▸ h

instance (d : Definition) : Decidable d.NamesApart :=
  inferInstanceAs (Decidable (d.fields.map Field.name).Nodup)

/-- Whether a definition names its keys, where tagged variants come to shapes within some levels. -/
def Context.namesItsKeys (c : Context) (n : Nat) (d : Definition) : Bool :=
  d.fields.all (·.rename.isNone) && d.default?.all (c.byName.accepts d) &&
    d.taggedVariants.all fun v => c.view.comesToShapes (fun _ => true) n v.definition

theorem Context.namesItsKeys_sound {c : Context} {n : Nat} {d : Definition}
    (h : c.namesItsKeys n d = true) : d.NamesItsKeys c := by
  simp only [namesItsKeys, Bool.and_eq_true, List.all_eq_true] at h
  obtain ⟨⟨unrenamed, default⟩, tagged⟩ := h
  refine ⟨fun f hf => by simpa using unrenamed f hf, ?_, ?_⟩
  · intro j hj
    simpa [hj] using default
  · intro v hv
    exact View.comesToShapes_sound (fun _ _ => trivial) (tagged v hv)

namespace Validation

/-- A record holds some params and, under tags that these lack, what the payload has there. -/
def HoldsTags (case : KeyCase) (tags : List String) (payload params record : Keyed Json) : Prop :=
  ∀ name, Keyed.get? record name = (Keyed.get? params name).or
    (if name ∈ tags then Keyed.get? payload (case.apply name) else none)

variable {case : KeyCase} {tags : List String} {payload params record : Keyed Json}

theorem holdsTags_nil : HoldsTags case [] payload params params := by
  intro name
  simp

theorem HoldsTags.of_param (h : HoldsTags case tags payload params record) {name : String}
    {x : Json} (hx : Keyed.get? params name = some x) : Keyed.get? record name = some x := by
  rw [h name, hx]
  rfl

/-- A record that holds params with a tag holds the params, the tag being one that it may add. -/
theorem HoldsTags.of_withTag {key tag : String}
    (h : HoldsTags case tags payload (withTag key (.string tag) params) record)
    (ht : Keyed.get? payload (case.apply key) = some (.string tag)) :
    HoldsTags case (key :: tags) payload params record := by
  intro name
  rw [h name, get?_withTag]
  by_cases hn : name = key
  · subst hn
    cases hp : Keyed.get? params name with
    | some x => simp
    | none => simp [ht]
  · simp [hn]

/-- What a tag is read from stands in params as the tag, or not at all. -/
def KeepsTags (case : KeyCase) (payload params : Keyed Json) : Prop :=
  ∀ name s x, Keyed.get? payload (case.apply name) = some (.string s) →
    Keyed.get? params name = some x → x = .string s

/-- A tag added under any key leaves what is read of the payload under a name as it is there. -/
theorem eq_of_get?_withTag {name key s tag : String} {x : Json}
    (ht : Keyed.get? payload (case.apply key) = some (.string tag))
    (hs : Keyed.get? payload (case.apply name) = some (.string s))
    (kept : ∀ x, Keyed.get? params name = some x → x = .string s)
    (hx : Keyed.get? (withTag key (.string tag) params) name = some x) : x = .string s := by
  rw [get?_withTag] at hx
  split at hx
  · rename_i hn
    subst hn
    rw [ht] at hs
    cases hs
    cases hp : Keyed.get? params name with
    | some y =>
      rw [hp] at hx
      cases hx
      exact kept y hp
    | none =>
      rw [hp] at hx
      exact (Option.some.inj hx).symm
  · exact kept x hx

theorem KeepsTags.withTag {key tag : String} (h : KeepsTags case payload params)
    (ht : Keyed.get? payload (case.apply key) = some (.string tag)) :
    KeepsTags case payload (withTag key (.string tag) params) :=
  fun name s _ hs hx => eq_of_get?_withTag ht hs (fun y => h name s y hs) hx

/-- The tag that a record holds is the one that the payload has. -/
theorem HoldsTags.get?_tag {key tag : String}
    (h : HoldsTags case (key :: tags) payload params record)
    (kept : ∀ x, Keyed.get? params key = some x → x = .string tag)
    (ht : Keyed.get? payload (case.apply key) = some (.string tag)) :
    Keyed.get? record key = some (.string tag) := by
  cases hp : Keyed.get? params key with
  | some x => rw [h.of_param hp, kept x hp]
  | none => rw [h key, hp, if_pos List.mem_cons_self, ht, Option.none_or]

section Shape

variable {value : Definition → Json → Json} {shape : List Field} {P Q : Definition → Json → Prop}

/-- What the payload has as a string for a name is the param under this name, if there is one. -/
theorem eq_of_get?_named {name s : String} {x : Json} (distinct : (shape.map Field.name).Nodup)
    (unrenamed : ∀ f ∈ shape, f.name = name → f.rename = none)
    (strings : ∀ f ∈ shape, ∀ s, Keyed.get? payload (f.wireName case) = some (.string s) →
      value f.definition (.string s) = .string s)
    (hs : Keyed.get? payload (case.apply name) = some (.string s))
    (hx : Keyed.get? (named case value shape payload) name = some x) : x = .string s := by
  by_cases hn : name ∈ shape.map Field.name
  · obtain ⟨f, hf, rfl⟩ := List.mem_map.mp hn
    rw [← Field.wireName_of_unrenamed (unrenamed f hf rfl)] at hs
    rw [get?_named_of_given distinct hf hs, strings f hf s hs] at hx
    exact (Option.some.inj hx).symm
  · rw [get?_named_of_not_mem hn] at hx
    cases hx

/-- The params of a shape keep tags, as strings are their own params. -/
theorem keepsTags_named (distinct : (shape.map Field.name).Nodup)
    (unrenamed : ∀ f ∈ shape, f.rename = none)
    (strings : ∀ f ∈ shape, ∀ s, Keyed.get? payload (f.wireName case) = some (.string s) →
      value f.definition (.string s) = .string s) :
    KeepsTags case payload (named case value shape payload) :=
  fun _ _ _ => eq_of_get?_named distinct (fun f hf _ => unrenamed f hf) strings

/-- The params of a shape meet it by name, with the tags around them. -/
theorem meetsShape_byName (tags : List String) (distinct : (shape.map Field.name).Nodup)
    (unrenamed : ∀ f ∈ shape, f.rename = none)
    (meets : MeetsShape case (tags.map case.apply) P shape payload)
    (given : ∀ f ∈ shape, ∀ x, Keyed.get? payload (f.wireName case) = some x →
      Q f.definition (value f.definition x))
    (defaulted : ∀ f ∈ shape, ∀ j, f.definition.default? = some j → Q f.definition j)
    (holds : HoldsTags case tags payload (named case value shape payload) record) :
    MeetsShape .preserve tags Q shape record where
  known := by
    intro name hn
    by_cases hs : name ∈ shape.map Field.name
    · obtain ⟨f, hf, rfl⟩ := List.mem_map.mp hs
      exact .inl (List.mem_map.mpr ⟨f, hf, Field.wireName_preserve (unrenamed f hf)⟩)
    · obtain ⟨x, hx⟩ := (Keyed.mem_keys_iff _ _).mp hn
      rw [holds name, get?_named_of_not_mem hs, Option.none_or] at hx
      split at hx
      · exact .inr ‹_›
      · cases hx
  present := by
    intro f hf x hx
    rw [Field.wireName_preserve (unrenamed f hf)] at hx
    cases hw : Keyed.get? payload (f.wireName case) with
    | some w =>
      rw [holds.of_param (get?_named_of_given distinct hf hw)] at hx
      cases hx
      exact given f hf w hw
    | none =>
      have hp : Keyed.get? (named case value shape payload) f.name = f.definition.default? := by
        rw [get?_named distinct hf, fieldParam, hw]
        rfl
      cases hd : f.definition.default? with
      | some j =>
        rw [hd] at hp
        rw [holds.of_param hp] at hx
        cases hx
        exact defaulted f hf x hd
      | none =>
        -- no tag around the object has the name of a field that is left out
        rw [holds f.name, hp, hd, ← Field.wireName_of_unrenamed (unrenamed f hf), hw] at hx
        simp at hx
  absent := by
    intro f hf hn
    rw [Field.wireName_preserve (unrenamed f hf), holds f.name, Option.or_eq_none_iff,
      get?_named distinct hf, fieldParam, Option.or_eq_none_iff, Option.map_eq_none_iff] at hn
    exact meets.absent f hf hn.1.1

end Shape

def ReadsByName (c : Context) (d : Definition) : Prop := d.NamesItsKeys c ∧ d.NamesApart

variable {c : Context} {d : Definition}

/-- A default conforms by name to the definition that has it. -/
theorem conforms_default (h : ReadsByName c d) {j : Json} (hj : d.default? = some j) :
    Conforms c.byName [] d j :=
  conforms_of_cleanBy ((acceptsWithin_iff c.byName (nestingLimit + 1) d j).mp (h.1.default j hj))

/-- Read through tagged unions, the params of an object conform by name in every record that holds
them and the tags around. -/
theorem conforms_byName_of_comesToShapes (shapes : d.ComesToShapes c.view fun _ => True) {n : Nat}
    (tags : List String) {members : Keyed Json}
    (clean : CleanBy (judge c n) (tags.map c.case.apply) d (.object members))
    (reads : d.Throughout c.view (ReadsByName c))
    (below : ∀ k < n, ∀ e w, CleanBy (judge c k) [] e w → e.Throughout c.view (ReadsByName c) →
      Conforms c.byName [] e (c.paramsWithin k e w)) :
    ∃ ps, c.paramsWithin n d (.object members) = .object ps ∧ KeepsTags c.case members ps ∧
      ∀ record, HoldsTags c.case tags members ps record →
        Conforms c.byName tags d (.object record) := by
  induction shapes generalizing n tags with
  | @object d shape hk =>
    cases n with
    | zero => exact absurd clean (not_cleanBy_judge_zero c _ _ _)
    | succ n =>
      have hs := stepYields_of_clean clean
      generalize c.paramsWithin (n + 1) d (.object members) = p at hs ⊢
      cases hs with
      | object hk' meets =>
        rw [hk] at hk'
        cases hk'
        have distinct : (shape.map Field.name).Nodup := reads.self.2.of_object hk
        have unrenamed : ∀ f ∈ shape, f.rename = none :=
          Definition.fields_of_object hk ▸ reads.self.1.unrenamed
        refine ⟨_, rfl, keepsTags_named distinct unrenamed ?_, ?_⟩
        · intro f hf s hs
          exact paramsWithin_string (meets.present f hf _ hs)
        · intro record holds
          have named := meetsShape_byName tags distinct unrenamed meets
            (Q := Conforms c.byName [])
            (fun f hf x hx => below n (by omega) _ _ (meets.present f hf x hx) (reads.field hk hf))
            (fun f hf j hj => conforms_default (reads.field hk hf).self hj) holds
          exact .object hk named.known named.present named.absent
      | _ => simp_all only [reduceCtorEq]
  | @reference d target hk _ ih =>
    cases n with
    | zero => exact absurd clean (not_cleanBy_judge_zero c _ _ _)
    | succ n =>
      have hs := stepYields_of_clean clean
      generalize hp : c.paramsWithin (n + 1) d (.object members) = p at hs ⊢
      cases hs with
      | @reference _ _ definition hk' hd h =>
        rw [hk] at hk'
        cases hk'
        obtain ⟨ps, hps, keeps, conforms⟩ := ih definition hd tags h (reads.reference hk hd)
          fun k hlt => below k (by omega)
        exact ⟨ps, hps, keeps, fun record holds => .reference hk hd (conforms record holds)⟩
      | _ => simp_all only [reduceCtorEq]
  | @tagged d key variants hk _ ih =>
    cases n with
    | zero => exact absurd clean (not_cleanBy_judge_zero c _ _ _)
    | succ n =>
      have hs := stepYields_of_clean clean
      generalize hp : c.paramsWithin (n + 1) d (.object members) = p at hs ⊢
      cases hs with
      | @tagged _ _ _ tag variant hk' ht hv h =>
        rw [hk] at hk'
        cases hk'
        have hm : variant ∈ variants := List.mem_of_find?_eq_some hv
        obtain ⟨ps, hps, keeps, conforms⟩ := ih variant hm (key :: tags) h
          (reads.variant hk hm) fun k hlt => below k (by omega)
        refine ⟨_, by rw [hps]; rfl, keeps.withTag ht, ?_⟩
        intro record holds
        have holds' := holds.of_withTag ht
        have hr := holds'.get?_tag (fun x => keeps key tag x ht) ht
        have named := conforms record holds'
        rw [← KeyCase.apply_preserve key] at hr named
        exact .tagged hk hr hv named
      | _ => simp_all only [Kind.union.injEq, reduceCtorEq, false_and]

/-- The params of what a walk accepts conform by name. -/
theorem conforms_byName_paramsWithin {n : Nat} {w : Json} (clean : CleanBy (judge c n) [] d w)
    (reads : d.Throughout c.view (ReadsByName c)) :
    Conforms c.byName [] d (c.paramsWithin n d w) := by
  induction n using Nat.strongRecOn generalizing d w with
  | ind n ih =>
    cases n with
    | zero => exact absurd clean (not_cleanBy_judge_zero c [] d w)
    | succ n =>
      -- an object or a tagged union is read as one that comes to shapes, with no tags around
      have record : ∀ members, w = .object members →
          (d.ComesToShapes c.view fun _ => True) →
          Conforms c.byName [] d (c.paramsWithin (n + 1) d w) := by
        rintro members rfl shapes
        obtain ⟨ps, hps, -, conforms⟩ := conforms_byName_of_comesToShapes shapes [] clean reads
          fun k hlt e w h he => ih k hlt h he
        rw [hps]
        exact conforms ps holdsTags_nil
      have hs := stepYields_of_clean clean
      generalize c.paramsWithin (n + 1) d w = p at hs record ⊢
      cases hs with
      | null hn => exact .null hn
      | reference hk hd h => exact .reference hk hd (ih n (by omega) h (reads.reference hk hd))
      | object hk h => exact record _ rfl (.object hk trivial)
      | @array element elements hk hc h =>
        refine .array hk (by simpa [Definition.Counts] using hc) ?_
        intro y hy
        obtain ⟨x, hx, rfl⟩ := List.mem_map.mp hy
        exact ih n (by omega) (h x hx) (reads.element hk)
      | @shapes fields elements hk hc h =>
        have distinct : (fields.map Field.name).Nodup := reads.self.2.of_shapes hk
        have unrenamed : ∀ f ∈ fields, f.rename = none :=
          Definition.fields_of_shapes hk ▸ reads.self.1.unrenamed
        refine .shapes hk (by simpa [Definition.Counts] using hc) ?_
        intro y hy
        obtain ⟨x, hx, rfl⟩ := List.mem_map.mp hy
        obtain ⟨members, rfl, meets⟩ := h x hx
        have named := meetsShape_byName [] distinct unrenamed meets (Q := Conforms c.byName [])
          (fun f hf z hz => ih (n - 1) (by omega) (meets.present f hf z hz)
            (reads.shapeField hk hf))
          (fun f hf j hj => conforms_default (reads.shapeField hk hf).self hj) holdsTags_nil
        exact (conforms_object_iff c.byName [] fields _).mpr ⟨_, rfl, named⟩
      | tagged hk ht hv h =>
        have shapes := reads.self.1.tagged
        rw [Definition.taggedVariants_of_union hk] at shapes
        exact record _ rfl (.tagged hk shapes)
      | untagged hk hf hv =>
        exact .untagged hk (by simp)
          (ih n (by omega) ((acceptsWithin_iff c n _ _).mp hv) (reads.variant hk (by simp)))
      | literal hk hs => exact .literal hk hs
      | scalar hk hn h => exact .scalar hk hn h

end Validation

/-- The params of an accepted payload are accepted by name. -/
theorem accepts_byName_params (c : Context) (d : Definition) (w : Json)
    (accepted : c.accepts d w = true)
    (named : ∀ e, Definition.Occurs c.view e d → e.NamesItsKeys c)
    (apart : ∀ e, Definition.Occurs c.view e d → e.NamesApart)
    (shallow : ∀ k, Descends c.byName d (c.validate d w).params k → k ≤ nestingLimit) :
    c.byName.accepts d (c.validate d w).params = true := by
  have clean := (acceptsWithin_iff c (nestingLimit + 1) d w).mp accepted
  have conforms : Conforms c.byName [] d (c.validate d w).params :=
    conforms_byName_paramsWithin clean fun e he => ⟨named e he, apart e he⟩
  rw [Context.accepts, List.isEmpty_iff]
  exact (validate_issues_eq_nil_iff_conforms c.byName d _ shallow).mpr conforms

/-! ### A charge on a card -/

def charge : Definition :=
  .taggedUnion "pay_method" [{
    tag := some "card"
    definition := .object [
      { name := "last_four", definition := .scalar .string },
      { name := "attempts_made",
        definition := { Definition.scalar .integer with default? := some (.int 1) } },
      { name := "cost_center", definition := .union [.scalar .integer, .scalar .string] }] }]

def billingEvent : Definition :=
  .taggedUnion "event_kind" [{ tag := some "charge", definition := charge },
    { tag := some "card", definition := .reference "Card" }]

def chargeEvent : Json :=
  .object [("costCenter", .string "R7"), ("eventKind", .string "charge"),
    ("lastFour", .string "4242"), ("payMethod", .string "card")]

/-- The params of the charge hold its default and both tags, and are accepted by name. -/
theorem chargeEvent_accepted_byName :
    payments.accepts billingEvent chargeEvent = true ∧
      (payments.validate billingEvent chargeEvent).params =
        .object [("attempts_made", .int 1), ("cost_center", .string "R7"),
          ("event_kind", .string "charge"), ("last_four", .string "4242"),
          ("pay_method", .string "card")] ∧
      payments.byName.accepts billingEvent (payments.validate billingEvent chargeEvent).params =
        true := by
  have accepted : payments.accepts billingEvent chargeEvent = true := by decide +kernel
  have params : (payments.validate billingEvent chargeEvent).params =
      .object [("attempts_made", .int 1), ("cost_center", .string "R7"),
        ("event_kind", .string "charge"), ("last_four", .string "4242"),
        ("pay_method", .string "card")] := by decide +kernel
  have checked : payments.view.everywhere
      (fun e => payments.namesItsKeys 2 e && decide e.NamesApart) 5 billingEvent = true := by
    decide +kernel
  have below : ∀ e, Definition.Occurs payments.view e billingEvent →
      payments.namesItsKeys 2 e = true ∧ e.NamesApart := by
    intro e he
    simpa using View.check_of_occurs checked he
  refine ⟨accepted, params, accepts_byName_params payments billingEvent chargeEvent accepted
    (fun e he => Context.namesItsKeys_sound (below e he).1) (fun e he => (below e he).2) ?_⟩
  intro k hk
  have hlt : k < 5 := Descends.lt_of_everywhere (c := payments.byName) checked hk
  exact Nat.le_trans (Nat.le_of_lt hlt) (by decide)

/-! ### A price that is named twice -/

def pricedTwice : Definition :=
  .object [
    { name := "price"
      definition := { Definition.scalar .integer with default? := some (.int 0) } },
    { name := "price", definition := (Definition.scalar .string).orAbsent }]

/-- The default of the first field is no value for the second one of its name. -/
theorem pricedTwice_refused_byName :
    (∀ e, Definition.Occurs shop.view e pricedTwice → e.NamesItsKeys shop) ∧
      (∀ k, Descends shop.byName pricedTwice (.object [("price", .int 0)]) k →
        k ≤ nestingLimit) ∧
      shop.accepts pricedTwice (.object []) = true ∧
      (shop.validate pricedTwice (.object [])).params = .object [("price", .int 0)] ∧
      shop.byName.accepts pricedTwice (.object [("price", .int 0)]) = false := by
  have checked : shop.view.everywhere (shop.namesItsKeys 0) 2 pricedTwice = true := by
    decide +kernel
  refine ⟨?_, ?_, ?_, ?_, ?_⟩
  · intro e he
    exact Context.namesItsKeys_sound (View.check_of_occurs checked he)
  · intro k hk
    have hlt : k < 2 := Descends.lt_of_everywhere (c := shop.byName) checked hk
    exact Nat.le_trans (Nat.le_of_lt hlt) (by decide)
  · decide +kernel
  · decide +kernel
  · decide +kernel

end ApiContract
