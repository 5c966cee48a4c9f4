import ApiContract.Proofs.Conformance
import ApiContract.Proofs.RestoredRecords
import Mathlib.Data.List.Induction

/-!
# Params judged by name

Params can be judged by the definition that they were read with, with the names of fields for keys.
Where no field is renamed or filled in and no object is kept verbatim, params read from a payload are
accepted by name by the definition that accepted the payload, and another definition that accepts the
params by name has the payload conform to it as well.
-/

namespace ApiContract

open Validation

/-- The same names and types, with the names of fields for keys. -/
def Context.byName (c : Context) : Context := { c with case := .preserve }

theorem Field.wireName_preserve {f : Field} (h : f.rename = none) :
    f.wireName .preserve = f.name := by
  rw [wireName, h]
  rfl

theorem Field.wireName_of_unrenamed {f : Field} (h : f.rename = none) (case : KeyCase) :
    f.wireName case = case.apply f.name := by
  rw [wireName, h]
  rfl

/-- A reversible definition that renames no field, spells its fields apart, and keeps no object or
list verbatim. -/
structure Definition.Plain (c : Context) (d : Definition) : Prop extends d.Reversible c where
  unrenamed : ∀ shape, d.kind = .object shape ∨ d.kind = .array (.shape shape) →
    ∀ f ∈ shape, f.rename = none
  apart : ∀ shape, d.kind = .object shape ∨ d.kind = .array (.shape shape) →
    (shape.map (Field.wireName c.case)).Nodup
  known : d.kind ≠ .scalar .unknown
  leaf : ∀ value, d.kind = .literal value → value.isLeaf = true

/-- The object that stands for the elements of an array with fields in place. -/
theorem Definition.plain_of_shapeField {c : Context} {d : Definition} {fields : List Field}
    (hk : d.kind = .array (.shape fields))
    (plain : ∀ e, Occurs c.view e d → e.Plain c) {e : Definition}
    (h : Occurs c.view e (.object fields)) : e.Plain c := by
  cases h with
  | here =>
    have hd := plain d .here
    have he : ∀ shape, (Definition.object fields).kind = .object shape ∨
        (Definition.object fields).kind = .array (.shape shape) → shape = fields := by
      rintro shape (h | h) <;> cases h
      rfl
    refine ⟨⟨rfl, ?_, fun key variants h => by cases h⟩, ?_, ?_, nofun, fun value h => by cases h⟩
    · intro shape h
      exact he shape h ▸ hd.distinct fields (.inr hk)
    · intro shape h
      exact he shape h ▸ hd.unrenamed fields (.inr hk)
    · intro shape h
      exact he shape h ▸ hd.apart fields (.inr hk)
  | field h hf he =>
    cases h
    exact plain e (.shapeField hk hf he)
  | reference h => cases h
  | element h => cases h
  | shapeField h => cases h
  | variant h => cases h

namespace Json

/-- The second value is the first one with names for keys: each name stands for the key that it is
spelled as. -/
inductive ReadAs (case : KeyCase) : Json → Json → Prop where
  | leaf {j} (h : j.isLeaf = true) : ReadAs case j j
  | array {elements others} (count : others.length = elements.length)
      (below : ∀ (i : Nat) x y, elements[i]? = some x → others[i]? = some y → ReadAs case x y) :
      ReadAs case (.array elements) (.array others)
  | object {members params}
      (back : ∀ name ∈ Keyed.keys params, case.apply name ∈ Keyed.keys members)
      (forth : ∀ key ∈ Keyed.keys members, ∃ name ∈ Keyed.keys params, case.apply name = key)
      (below : ∀ name x y, Keyed.get? members (case.apply name) = some x →
        Keyed.get? params name = some y → ReadAs case x y) :
      ReadAs case (.object members) (.object params)

theorem ReadAs.eq_of_isLeaf {case : KeyCase} {w p : Json} (h : ReadAs case w p)
    (hp : p.isLeaf = true) : w = p := by
  cases h with
  | leaf => rfl
  | array => cases hp
  | object => cases hp

end Json

namespace WireKeys

variable {case : KeyCase} {value : Definition → Json → Json} {shape : List Field}
  {payload record : Keyed Json} {tags : List String}

/-- A record holds the params of a payload: those of the fields under their names, and some tags. -/
structure ReadFrom (case : KeyCase) (value : Definition → Json → Json) (shape : List Field)
    (tags : List String) (payload record : Keyed Json) : Prop
    extends HoldsParams case value shape payload record where
  unrenamed : ∀ f ∈ shape, f.rename = none
  known : ∀ key ∈ Keyed.keys payload,
    key ∈ shape.map (Field.wireName case) ∨ key ∈ tags.map case.apply
  declared : ∀ name ∈ Keyed.keys record, name ∈ shape.map Field.name ∨ name ∈ tags
  tag : ∀ name ∈ tags, ∃ s, Keyed.get? payload (case.apply name) = some (.string s) ∧
    Keyed.get? record name = some (.string s)

/-- A record is read from the payload with names for keys. -/
theorem ReadFrom.readAs (h : ReadFrom case value shape tags payload record)
    (below : ∀ f ∈ shape, ∀ x, Keyed.get? payload (f.wireName case) = some x →
      x.ReadAs case (value f.definition x)) :
    (Json.object payload).ReadAs case (.object record) := by
  have param : ∀ f ∈ shape, Keyed.get? record f.name =
      (Keyed.get? payload (case.apply f.name)).map (value f.definition) := by
    intro f hf
    rw [← Field.wireName_of_unrenamed (h.unrenamed f hf) case]
    exact h.param f hf
  refine .object ?_ ?_ ?_
  · intro name hn
    rcases h.declared name hn with hs | ht
    · obtain ⟨f, hf, rfl⟩ := List.mem_map.mp hs
      obtain ⟨y, hy⟩ := (Keyed.mem_keys_iff _ _).mp hn
      rw [param f hf] at hy
      obtain ⟨x, hx, -⟩ := Option.map_eq_some_iff.mp hy
      exact Keyed.mem_keys_of_get? hx
    · obtain ⟨s, hs, -⟩ := h.tag name ht
      exact Keyed.mem_keys_of_get? hs
  · intro key hk
    rcases h.known key hk with hs | ht
    · obtain ⟨f, hf, rfl⟩ := List.mem_map.mp hs
      obtain ⟨x, hx⟩ := (Keyed.mem_keys_iff _ _).mp hk
      refine ⟨f.name, Keyed.mem_keys_of_get? (v := value f.definition x) ?_,
        (Field.wireName_of_unrenamed (h.unrenamed f hf) case).symm⟩
      rw [h.param f hf, hx]
      rfl
    · obtain ⟨name, hn, rfl⟩ := List.mem_map.mp ht
      obtain ⟨s, -, hs⟩ := h.tag name hn
      exact ⟨name, Keyed.mem_keys_of_get? hs, rfl⟩
  · intro name x y hx hy
    rcases h.declared name (Keyed.mem_keys_of_get? hy) with hs | ht
    · obtain ⟨f, hf, rfl⟩ := List.mem_map.mp hs
      rw [param f hf, hx] at hy
      cases hy
      apply below f hf
      rw [Field.wireName_of_unrenamed (h.unrenamed f hf) case]
      exact hx
    · obtain ⟨s, hp, hr⟩ := h.tag name ht
      rw [hp] at hx
      rw [hr] at hy
      cases hx
      cases hy
      exact .leaf rfl

/-- A record meets its shape by name if the payload meets it. -/
theorem ReadFrom.meetsShape (h : ReadFrom case value shape tags payload record)
    {P Q : Definition → Json → Prop}
    (meets : MeetsShape case (tags.map case.apply) P shape payload)
    (present : ∀ f ∈ shape, ∀ x, Keyed.get? payload (f.wireName case) = some x →
      Q f.definition (value f.definition x)) : MeetsShape .preserve tags Q shape record where
  known := by
    intro name hn
    rcases h.declared name hn with hs | ht
    · obtain ⟨f, hf, rfl⟩ := List.mem_map.mp hs
      exact .inl (List.mem_map.mpr ⟨f, hf, Field.wireName_preserve (h.unrenamed f hf)⟩)
    · exact .inr ht
  present := by
    intro f hf y hy
    rw [Field.wireName_preserve (h.unrenamed f hf), h.param f hf] at hy
    obtain ⟨x, hx, rfl⟩ := Option.map_eq_some_iff.mp hy
    exact present f hf x hx
  absent := by
    intro f hf hn
    rw [Field.wireName_preserve (h.unrenamed f hf), h.param f hf, Option.map_eq_none_iff] at hn
    exact meets.absent f hf hn

/-- The params of fields with names of their own are read from the payload by these. -/
theorem readFrom_named {P : Definition → Json → Prop} (distinct : (shape.map Field.name).Nodup)
    (noDefault : ∀ f ∈ shape, f.definition.default? = none)
    (unrenamed : ∀ f ∈ shape, f.rename = none) (meets : MeetsShape case [] P shape payload) :
    ReadFrom case value shape [] payload (named case value shape payload) where
  toHoldsParams := holdsParams_named distinct noDefault
  unrenamed := unrenamed
  known := meets.known
  declared := by
    intro name hn
    by_contra hs
    have hs : name ∉ shape.map Field.name := fun h => hs (.inl h)
    exact absurd hn ((Keyed.get?_eq_none_iff _ _).mp (get?_named_of_not_mem hs))
  tag := nofun

/-- A tag that is added to params is read back under its name. -/
theorem readFrom_withTag {P : Definition → Json → Prop} {key tag : String}
    (distinct : (shape.map Field.name).Nodup)
    (noDefault : ∀ f ∈ shape, f.definition.default? = none)
    (unrenamed : ∀ f ∈ shape, f.rename = none)
    (meets : MeetsShape case [case.apply key] P shape payload)
    (tagged : Keyed.get? payload (case.apply key) = some (.string tag))
    (kept : ∀ f ∈ shape, f.wireName case = case.apply key →
      value f.definition (.string tag) = .string tag) :
    ReadFrom case value shape [key] payload
      (withTag key (.string tag) (named case value shape payload)) where
  distinct := distinct
  nodup := (sorted_withTag sorted_named).nodup
  param := by
    intro f hf
    rw [get?_withTag, get?_named distinct hf]
    split
    · rename_i hn
      have hw : f.wireName case = case.apply key := by
        rw [Field.wireName_of_unrenamed (unrenamed f hf), hn]
      rw [← hn, get?_named distinct hf, fieldParam_of_noDefault (noDefault f hf), hw, tagged,
        Option.map_some, kept f hf hw]
      rfl
    · exact fieldParam_of_noDefault (noDefault f hf)
  unrenamed := unrenamed
  known := meets.known
  declared := by
    intro name hn
    by_contra hs
    obtain ⟨hs, ht⟩ : name ∉ shape.map Field.name ∧ name ≠ key := by simpa using hs
    refine absurd hn ((Keyed.get?_eq_none_iff _ _).mp ?_)
    rw [get?_withTag, if_neg ht]
    exact get?_named_of_not_mem hs
  tag := by
    intro name hn
    obtain rfl := List.mem_singleton.mp hn
    exact ⟨tag, tagged, get?_withTag_named distinct tagged
      (fun f hf hn => by rw [Field.wireName_of_unrenamed (unrenamed f hf), hn]) kept⟩

end WireKeys

namespace Validation

/-! ### The definition that accepted the payload -/

theorem isLeaf_of_sameValue {w value : Json} (h : w.sameValue value = true)
    (hl : value.isLeaf = true) : w.isLeaf = true := by
  cases w <;> cases value <;> first | rfl | cases h | cases hl

theorem isLeaf_of_hasKind {kind : ScalarKind} {w : Json} (hk : kind ≠ .unknown)
    (h : hasKind kind w = true) : w.isLeaf = true := by
  cases w with
  | array elements => cases kind <;> first | exact absurd rfl hk | cases h
  | object members => cases kind <;> first | exact absurd rfl hk | cases h
  | _ => rfl

/-- References on the way to a shape only take levels. -/
theorem cleanBy_of_leadsTo {c : Context} {shape : List Field} {i : Nat} {d : Definition}
    (h : Definition.LeadsTo c.view shape i d) {k : Nat} {tags : List String} {ps : Keyed Json}
    (meets : MeetsShape c.case tags (CleanBy (judge c k) []) shape ps) :
    CleanBy (judge c (k + (i + 1))) tags d (.object ps) := by
  have hn : ∀ d, ((Json.object ps).isNull && takesNull d) = false := fun d => rfl
  induction h with
  | object hk =>
    rw [cleanBy_judge_iff_stepMeets c _ tags (hn _)]
    unfold StepMeets
    rw [hk]
    exact ⟨ps, rfl, meets⟩
  | reference hk hd _ ih =>
    rw [← Nat.add_assoc, cleanBy_judge_iff_stepMeets c _ tags (hn _)]
    unfold StepMeets
    rw [hk]
    exact ⟨_, hd, ih⟩

/-- What the definitions below a definition promise about the fields of a shape. -/
theorem plain_shape {c : Context} {d : Definition} {shape : List Field}
    (hk : d.kind = .object shape ∨ d.kind = .array (.shape shape)) (plain : d.Plain c)
    (fields : ∀ f ∈ shape, f.definition.Plain c) :
    (shape.map Field.name).Nodup ∧ (∀ f ∈ shape, f.definition.default? = none) ∧
      ∀ f ∈ shape, f.rename = none :=
  ⟨plain.distinct shape hk, fun f hf => (fields f hf).noDefault, plain.unrenamed shape hk⟩

/-- Where a tagged union comes to a shape, the params of an object are read from it by name. -/
theorem readFrom_tagged {c : Context} {n : Nat} {d : Definition} {key tag : String}
    {variants : List Variant} {variant : Variant} {members : Keyed Json}
    (hk : d.kind = .union (some key) variants)
    (ht : Keyed.get? members (c.case.apply key) = some (.string tag))
    (hv : Variant.tagged? variants tag = some variant)
    (h : CleanBy (judge c n) [c.case.apply key] variant.definition (.object members))
    (plain : ∀ e, Definition.Occurs c.view e d → e.Plain c) :
    ∃ shape i k record, n = k + (i + 1) ∧
      Definition.LeadsTo c.view shape i variant.definition ∧
      MeetsShape c.case [c.case.apply key] (CleanBy (judge c k) []) shape members ∧
      (∀ f ∈ shape, ∀ e, Definition.Occurs c.view e f.definition →
        Definition.Occurs c.view e d) ∧
      holdTag key (.string tag) (c.paramsWithin n variant.definition (.object members)) =
        .object record ∧
      WireKeys.ReadFrom c.case (c.paramsWithin k) shape [key] members record := by
  have hm : variant ∈ variants := List.mem_of_find?_eq_some hv
  obtain ⟨shape, i, leads, -⟩ := (plain d .here).tagged key variants hk variant hm
  obtain ⟨k, rfl, meets, params⟩ := paramsWithin_of_leadsTo leads h
  obtain ⟨e, he, ho⟩ := leads.occurs_shape
  have occurs : ∀ f ∈ shape, ∀ e, Definition.Occurs c.view e f.definition →
      Definition.Occurs c.view e d :=
    fun f hf e he => .variant hk hm (leads.occurs_field hf he)
  obtain ⟨distinct, noDefault, unrenamed⟩ := plain_shape (.inl he)
    (plain e (.variant hk hm ho)) fun f hf => plain _ (occurs f hf _ .here)
  exact ⟨shape, i, k, _, rfl, leads, meets, occurs, by rw [params]; rfl,
    WireKeys.readFrom_withTag distinct noDefault unrenamed meets ht (paramsWithin_tag meets ht)⟩

/-- The params of an accepted payload are the payload with names for keys. -/
theorem readAs_paramsWithin {c : Context} {n : Nat} {d : Definition} {w : Json}
    (clean : CleanBy (judge c n) [] d w)
    (plain : ∀ e, Definition.Occurs c.view e d → e.Plain c) :
    w.ReadAs c.case (c.paramsWithin n d w) := by
  induction n using Nat.strongRecOn generalizing d w with
  | ind n ih =>
    cases n with
    | zero => exact absurd clean (not_cleanBy_judge_zero c [] d w)
    | succ n =>
      have hs := stepYields_of_clean clean
      generalize c.paramsWithin (n + 1) d w = p at hs ⊢
      cases hs with
      | null hn => exact .leaf rfl
      | reference hk hd h => exact ih n (by omega) h fun e he => plain e (.reference hk hd he)
      | @object shape members hk h =>
        obtain ⟨distinct, noDefault, unrenamed⟩ := plain_shape (.inl hk) (plain d .here)
          fun f hf => plain _ (.field hk hf .here)
        apply (WireKeys.readFrom_named distinct noDefault unrenamed h).readAs
        intro f hf x hx
        exact ih n (by omega) (h.present f hf x hx) fun e he => plain e (.field hk hf he)
      | @array element elements hk hc h =>
        refine .array (List.length_map _) ?_
        intro i x y hx hy
        simp only [List.getElem?_map, hx, Option.map_some, Option.some.injEq] at hy
        rw [← hy]
        exact ih n (by omega) (h x (List.mem_of_getElem? hx)) fun e he => plain e (.element hk he)
      | @shapes fields elements hk hc h =>
        refine .array (List.length_map _) ?_
        intro i x y hx hy
        simp only [List.getElem?_map, hx, Option.map_some, Option.some.injEq] at hy
        obtain ⟨members, rfl, meets⟩ := h x (List.mem_of_getElem? hx)
        obtain ⟨distinct, noDefault, unrenamed⟩ := plain_shape (.inr hk) (plain d .here)
          fun f hf => plain _ (.shapeField hk hf .here)
        rw [← hy]
        apply (WireKeys.readFrom_named distinct noDefault unrenamed meets).readAs
        intro f hf z hz
        exact ih (n - 1) (by omega) (meets.present f hf z hz)
          fun e he => plain e (.shapeField hk hf he)
      | @tagged key variants members tag variant hk ht hv h =>
        obtain ⟨shape, i, k, record, rfl, -, meets, occurs, hp, read⟩ :=
          readFrom_tagged hk ht hv h plain
        rw [hp]
        apply read.readAs
        intro f hf x hx
        exact ih k (by omega) (meets.present f hf x hx) fun e he => plain e (occurs f hf e he)
      | untagged hk hf hv =>
        exact ih n (by omega) ((acceptsWithin_iff c n _ _).mp hv)
          fun e he => plain e (.variant hk (by simp) he)
      | literal hk hs =>
        refine .leaf ?_
        exact isLeaf_of_sameValue hs ((plain d .here).leaf _ hk)
      | @scalar _ kind hk hn h =>
        refine .leaf (isLeaf_of_hasKind ?_ h.ofKind)
        intro hu
        exact (plain d .here).known (hu ▸ hk)

/-- The definition that accepted a payload accepts its params by name. -/
theorem cleanBy_byName_paramsWithin {c : Context} {n : Nat} {d : Definition} {w : Json}
    (clean : CleanBy (judge c n) [] d w)
    (plain : ∀ e, Definition.Occurs c.view e d → e.Plain c) :
    CleanBy (judge c.byName n) [] d (c.paramsWithin n d w) := by
  induction n using Nat.strongRecOn generalizing d w with
  | ind n ih =>
    cases n with
    | zero => exact absurd clean (not_cleanBy_judge_zero c [] d w)
    | succ n =>
      have hnull := paramsWithin_isNull clean
      by_cases hw : (w.isNull && takesNull d) = true
      · exact cleanBy_judge_of_null n [] (by rw [hnull, hw])
      have hn : ((c.paramsWithin (n + 1) d w).isNull && takesNull d) = false := by
        simpa [hnull] using hw
      rw [cleanBy_judge_iff_stepMeets c.byName n [] hn]
      unfold StepMeets
      have hs := stepYields_of_clean clean
      generalize c.paramsWithin (n + 1) d w = p at hs ⊢
      cases hs with
      | null ht => exact absurd ht (by simpa [Json.isNull] using hw)
      | reference hk hd h =>
        rw [hk]
        exact ⟨_, hd, ih n (by omega) h fun e he => plain e (.reference hk hd he)⟩
      | @object shape members hk h =>
        rw [hk]
        obtain ⟨distinct, noDefault, unrenamed⟩ := plain_shape (.inl hk) (plain d .here)
          fun f hf => plain _ (.field hk hf .here)
        refine ⟨_, rfl, (WireKeys.readFrom_named distinct noDefault unrenamed h).meetsShape h ?_⟩
        intro f hf x hx
        exact ih n (by omega) (h.present f hf x hx) fun e he => plain e (.field hk hf he)
      | @array element elements hk hc h =>
        rw [hk]
        refine ⟨_, rfl, by simpa [Definition.Counts] using hc, ?_⟩
        intro y hy
        obtain ⟨x, hx, rfl⟩ := List.mem_map.mp hy
        exact ih n (by omega) (h x hx) fun e he => plain e (.element hk he)
      | @shapes fields elements hk hc h =>
        rw [hk]
        refine ⟨_, rfl, by simpa [Definition.Counts] using hc, ?_⟩
        intro y hy
        obtain ⟨x, hx, rfl⟩ := List.mem_map.mp hy
        obtain ⟨members, rfl, meets⟩ := h x hx
        obtain ⟨distinct, noDefault, unrenamed⟩ := plain_shape (.inr hk) (plain d .here)
          fun f hf => plain _ (.shapeField hk hf .here)
        refine ⟨_, rfl,
          (WireKeys.readFrom_named distinct noDefault unrenamed meets).meetsShape meets ?_⟩
        intro f hf z hz
        exact ih (n - 1) (by omega) (meets.present f hf z hz)
          fun e he => plain e (.shapeField hk hf he)
      | @tagged key variants members tag variant hk ht hv h =>
        rw [hk]
        obtain ⟨shape, i, k, record, rfl, leads, meets, occurs, hp, read⟩ :=
          readFrom_tagged hk ht hv h plain
        obtain ⟨s, hs, hr⟩ := read.tag key List.mem_cons_self
        rw [ht] at hs
        cases hs
        refine ⟨record, tag, variant, hp, hr, hv, ?_⟩
        have named : MeetsShape c.byName.case [key] (CleanBy (judge c.byName k) []) shape record := by
          apply read.meetsShape meets
          intro f hf x hx
          exact ih k (by omega) (meets.present f hf x hx) fun e he => plain e (occurs f hf e he)
        have leads' : Definition.LeadsTo c.byName.view shape i variant.definition := leads
        rw [hp]
        exact cleanBy_of_leadsTo leads' named
      | untagged hk hf hv =>
        rw [hk]
        exact ⟨_, by simp, ih n (by omega) ((acceptsWithin_iff c n _ _).mp hv)
          fun e he => plain e (.variant hk (by simp) he)⟩
      | literal hk hs =>
        rw [hk]
        exact hs
      | scalar hk hn h =>
        rw [hk]
        exact ⟨hn, h⟩

/-! ### Other definitions -/

/-- What a walk accepts conforms, however few levels it has. -/
theorem conforms_of_cleanBy {c : Context} {n : Nat} {tags : List String} {d : Definition}
    {j : Json} (h : CleanBy (judge c n) tags d j) : Conforms c tags d j := by
  induction n using Nat.strongRecOn generalizing tags d j with
  | ind n ih =>
    cases n with
    | zero => exact absurd h (not_cleanBy_judge_zero c tags d j)
    | succ n =>
      by_cases hn : (j.isNull && takesNull d) = true
      · obtain ⟨hj, ht⟩ := Bool.and_eq_true_iff.mp hn
        obtain rfl : j = .null := by cases j <;> first | rfl | cases hj
        exact .null ht
      · have hn : (j.isNull && takesNull d) = false := by simpa using hn
        rw [cleanBy_judge_iff_stepMeets c n tags hn] at h
        rw [conforms_iff tags hn]
        refine h.mono ?_ ?_
        · intro tags d j
          exact ih n (by omega)
        · intro tags d j
          exact ih (n - 1) (by omega)

def TagsApart (c : Context) (tags : List String) (d : Definition) : Prop :=
  tags = [] ∨ ∃ shape i, Definition.LeadsTo c.view shape i d ∧
    ∀ f ∈ shape, ∀ name ∈ tags, f.name = name ∨ f.wireName c.case ≠ c.case.apply name

/-- Tags that stay apart from a shape do so behind a reference. -/
theorem TagsApart.of_reference {c : Context} {tags : List String} {d definition : Definition}
    {target : String} (h : TagsApart c tags d) (hk : d.kind = .reference target)
    (hd : c.view.definition? target = some definition) : TagsApart c tags definition := by
  rcases h with rfl | ⟨shape, i, leads, apart⟩
  · exact .inl rfl
  · cases leads with
    | object hk' => rw [hk] at hk'; cases hk'
    | reference hk' hd' leads =>
      rw [hk] at hk'
      cases hk'
      rw [hd] at hd'
      cases hd'
      exact .inr ⟨shape, _, leads, apart⟩

/-- A field that goes by the key of a tag has the name of the tag. -/
theorem TagsApart.of_object {c : Context} {tags : List String} {d : Definition}
    {shape : List Field} (h : TagsApart c tags d) (hk : d.kind = .object shape) :
    ∀ f ∈ shape, ∀ name ∈ tags, f.name = name ∨ f.wireName c.case ≠ c.case.apply name := by
  rcases h with rfl | ⟨shape', i, leads, apart⟩
  · intro f hf name hn
    cases hn
  · cases leads with
    | object hk' =>
      rw [hk] at hk'
      cases hk'
      exact apart
    | reference hk' => rw [hk] at hk'; cases hk'

theorem TagsApart.of_union {c : Context} {tags : List String} {d : Definition}
    {discriminator : Option String} {variants : List Variant} (h : TagsApart c tags d)
    (hk : d.kind = .union discriminator variants) : tags = [] := by
  rcases h with rfl | ⟨shape, i, leads, -⟩
  · rfl
  · cases leads with
    | object hk' => rw [hk] at hk'; cases hk'
    | reference hk' => rw [hk] at hk'; cases hk'

theorem getElem?_of_count {elements others : List Json} (count : others.length = elements.length)
    {i : Nat} {x : Json} (hx : elements[i]? = some x) : ∃ y, others[i]? = some y := by
  have hi : i < others.length := by
    rw [count]
    exact (List.getElem?_eq_some_iff.mp hx).1
  exact ⟨_, List.getElem?_eq_getElem hi⟩

/-- If params meet a shape by name then the payload that they are read from meets it, with values
that the params are read from as well. -/
theorem MeetsShape.of_readAs {case : KeyCase} {tags : List String} {shape : List Field}
    {members params : Keyed Json} {P : Definition → Json → Prop}
    (meets : MeetsShape .preserve tags P shape params)
    (unrenamed : ∀ f ∈ shape, f.rename = none) (distinct : (shape.map (Field.wireName case)).Nodup)
    (apart : ∀ f ∈ shape, ∀ name ∈ tags, f.name = name ∨ f.wireName case ≠ case.apply name)
    (read : (Json.object members).ReadAs case (.object params)) :
    MeetsShape case (tags.map case.apply) (fun d x => ∃ y, x.ReadAs case y ∧ P d y) shape members := by
  obtain ⟨back, forth, below⟩ : (∀ name ∈ Keyed.keys params, case.apply name ∈ Keyed.keys members) ∧
      (∀ key ∈ Keyed.keys members, ∃ name ∈ Keyed.keys params, case.apply name = key) ∧
      ∀ name x y, Keyed.get? members (case.apply name) = some x → Keyed.get? params name = some y →
        x.ReadAs case y := by
    cases read with
    | leaf h => cases h
    | object back forth below => exact ⟨back, forth, below⟩
  have spelled : ∀ f ∈ shape, f.wireName case = case.apply f.name :=
    fun f hf => Field.wireName_of_unrenamed (unrenamed f hf) case
  have plainly : ∀ f ∈ shape, f.wireName .preserve = f.name :=
    fun f hf => Field.wireName_preserve (unrenamed f hf)
  -- what a payload has for a field is in the params under the name of the field
  have named : ∀ f ∈ shape, ∀ x, Keyed.get? members (f.wireName case) = some x →
      ∃ y, Keyed.get? params f.name = some y := by
    intro f hf x hx
    obtain ⟨name, hn, he⟩ := forth _ (Keyed.mem_keys_of_get? hx)
    have hname : f.name = name := by
      rcases meets.known name hn with hs | ht
      · obtain ⟨g, hg, rfl⟩ := List.mem_map.mp hs
        rw [plainly g hg, ← spelled g hg] at he
        rw [plainly g hg, List.inj_on_of_nodup_map distinct hg hf he]
      · exact (apart f hf name ht).resolve_right fun hne => hne he.symm
    rw [hname]
    exact (Keyed.mem_keys_iff _ _).mp hn
  refine ⟨?_, ?_, ?_⟩
  · intro key hkey
    obtain ⟨name, hn, rfl⟩ := forth key hkey
    rcases meets.known name hn with hs | ht
    · obtain ⟨f, hf, rfl⟩ := List.mem_map.mp hs
      exact .inl (List.mem_map.mpr ⟨f, hf, by rw [plainly f hf, spelled f hf]⟩)
    · exact .inr (List.mem_map_of_mem ht)
  · intro f hf x hx
    obtain ⟨y, hy⟩ := named f hf x hx
    refine ⟨y, below f.name x y ?_ hy, meets.present f hf y ?_⟩
    · rw [← spelled f hf, hx]
    · rw [plainly f hf, hy]
  · intro f hf hnone
    apply meets.absent f hf
    rw [plainly f hf, Keyed.get?_eq_none_iff]
    intro hn
    have hm := back f.name hn
    rw [← spelled f hf] at hm
    exact (Keyed.get?_eq_none_iff _ _).mp hnone hm

/-- The payload conforms to every definition that its params conform to by name. -/
theorem conforms_of_readAs {c : Context} {tags : List String} {d : Definition} {p : Json}
    (h : Conforms c.byName tags d p) {w : Json} (read : w.ReadAs c.case p)
    (plain : ∀ e, Definition.Occurs c.view e d → e.Plain c) (apart : TagsApart c tags d) :
    Conforms c (tags.map c.case.apply) d w := by
  induction h generalizing w with
  | null hn =>
    obtain rfl := read.eq_of_isLeaf rfl
    exact .null hn
  | reference hk hd _ ih =>
    exact .reference hk hd (ih read (fun e he => plain e (.reference hk hd he))
      (apart.of_reference hk hd))
  | @object tags d shape params hk known present absent ih =>
    cases read with
    | leaf h => cases h
    | @object members _ back forth below =>
      have named : MeetsShape .preserve tags (fun e y => ∀ x, x.ReadAs c.case y →
          (∀ e', Definition.Occurs c.view e' e → e'.Plain c) → Conforms c [] e x) shape params :=
        ⟨known, fun f hf y hy x hx hp => ih f hf y hy hx hp (.inl rfl), absent⟩
      have meets := named.of_readAs ((plain d .here).unrenamed shape (.inl hk))
        ((plain d .here).apart shape (.inl hk)) (apart.of_object hk) (.object back forth below)
      refine .object hk meets.known ?_ meets.absent
      intro f hf x hx
      obtain ⟨y, hread, hy⟩ := meets.present f hf x hx
      exact hy x hread fun e he => plain e (.field hk hf he)
  | @array tags d element params hk hc _ ih =>
    cases read with
    | leaf h => cases h
    | @array elements _ count below =>
      refine .array hk (by simpa [Definition.Counts, count] using hc) ?_
      intro x hx
      obtain ⟨i, hi⟩ := List.mem_iff_getElem?.mp hx
      obtain ⟨y, hy⟩ := getElem?_of_count count hi
      exact ih y (List.mem_of_getElem? hy) (below i x y hi hy)
        (fun e he => plain e (.element hk he)) (.inl rfl)
  | @shapes tags d fields params hk hc _ ih =>
    cases read with
    | leaf h => cases h
    | @array elements _ count below =>
      refine .shapes hk (by simpa [Definition.Counts, count] using hc) ?_
      intro x hx
      obtain ⟨i, hi⟩ := List.mem_iff_getElem?.mp hx
      obtain ⟨y, hy⟩ := getElem?_of_count count hi
      exact ih y (List.mem_of_getElem? hy) (below i x y hi hy)
        (fun e he => Definition.plain_of_shapeField hk plain he) (.inl rfl)
  | @tagged tags d key variants params tag variant hk ht hv _ ih =>
    obtain rfl := apart.of_union hk
    have hm : variant ∈ variants := List.mem_of_find?_eq_some hv
    obtain ⟨shape, i, leads, leaves⟩ := (plain d .here).tagged key variants hk variant hm
    have apart' : TagsApart c [key] variant.definition := by
      refine .inr ⟨shape, i, leads, ?_⟩
      intro f hf name hn
      obtain rfl := List.mem_singleton.mp hn
      by_cases he : f.name = name
      · exact .inl he
      · have hl := leaves f hf
        rw [Field.LeavesTag, if_neg he] at hl
        exact .inr hl.2
    have h' := ih read (fun e he => plain e (.variant hk hm he)) apart'
    cases read with
    | leaf h => cases h
    | @object members _ back forth below =>
      obtain ⟨x, hx⟩ := (Keyed.mem_keys_iff _ _).mp (back key (Keyed.mem_keys_of_get? ht))
      obtain rfl := (below key x _ hx ht).eq_of_isLeaf rfl
      exact .tagged hk hx hv h'
  | untagged hk hv _ ih =>
    exact .untagged hk hv (ih read (fun e he => plain e (.variant hk hv he)) (.inl rfl))
  | literal hk hs =>
    obtain rfl := read.eq_of_isLeaf (isLeaf_of_sameValue hs ((plain _ .here).leaf _ hk))
    exact .literal hk hs
  | scalar hk hn h =>
    obtain rfl := read.eq_of_isLeaf
      (isLeaf_of_hasKind (fun hu => (plain _ .here).known (hu ▸ hk)) h.ofKind)
    exact .scalar hk hn h

/-! ### The first variant -/

/-- Variants in front that a walk refuses with levels to spare do not conform. -/
theorem not_conforms_of_refused {c : Context} {n : Nat} {d : Definition} {w : Json}
    (hw : w.isNull = false) (shallow : ∀ k, Descends c d w k → k < n + 1)
    (front back : List Variant) (hk : d.kind = .union none (front ++ back))
    (hf : ∀ u ∈ front, c.acceptsWithin n u.definition w = false) :
    ∀ u ∈ front, ¬ Conforms c [] u.definition w := by
  have hn : (w.isNull && takesNull d) = false := by simp [hw]
  induction front using List.reverseRecOn generalizing back with
  | nil => nofun
  | append_singleton front u ih =>
    have hk' : d.kind = .union none (front ++ u :: back) := by simpa using hk
    have earlier := ih (u :: back) hk' fun v hv => hf v (by simp [hv])
    have levels : ∀ k, Descends c u.definition w k → k < n := by
      intro k hd
      have hlt := shallow (k + 1) (.untagged hk' hn earlier hd)
      omega
    intro v hv
    rcases List.mem_append.mp hv with hv | hv
    · exact earlier v hv
    · obtain rfl := List.mem_singleton.mp hv
      rw [← cleanBy_judge_iff c n [] v.definition w levels, ← acceptsWithin_iff,
        hf v (by simp)]
      exact Bool.false_ne_true

/-- Judged by name, the params of the variant that accepted a payload come to that variant again. -/
theorem find?_accepts_byName {c : Context} {n : Nat} (hle : n ≤ nestingLimit + 1) {d : Definition}
    {w : Json} {front back : List Variant} {variant : Variant} (hw : w.isNull = false)
    (shallow : ∀ k, Descends c d w k → k < n + 1)
    (hk : d.kind = .union none (front ++ variant :: back))
    (hf : ∀ u ∈ front, c.acceptsWithin n u.definition w = false)
    (hv : c.acceptsWithin n variant.definition w = true)
    (plain : ∀ v ∈ front ++ variant :: back, ∀ e, Definition.Occurs c.view e v.definition →
      e.Plain c) :
    (front ++ variant :: back).find? (fun v =>
      c.byName.accepts v.definition (c.paramsWithin n variant.definition w)) = some variant := by
  have clean := (acceptsWithin_iff c n variant.definition w).mp hv
  have plain' := plain variant (by simp)
  refine List.find?_eq_some_iff_append.mpr ⟨?_, front, back, rfl, ?_⟩
  · exact (acceptsWithin_iff c.byName (nestingLimit + 1) _ _).mpr
      (cleanBy_judge_mono c.byName hle [] _ _ (cleanBy_byName_paramsWithin clean plain'))
  · intro u hu
    have hnot := not_conforms_of_refused hw shallow front (variant :: back) hk hf u hu
    rw [Bool.not_eq_true', Bool.eq_false_iff]
    intro ha
    have hc : Conforms c.byName [] u.definition (c.paramsWithin n variant.definition w) :=
      conforms_of_cleanBy ((acceptsWithin_iff c.byName (nestingLimit + 1) _ _).mp ha)
    exact hnot (conforms_of_readAs hc (readAs_paramsWithin clean plain')
      (plain u (by simp [hu])) (.inl rfl))

end Validation

end ApiContract
