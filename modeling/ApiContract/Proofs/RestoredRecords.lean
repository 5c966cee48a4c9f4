import ApiContract.Proofs.AcceptedParams
import ApiContract.Proofs.RespelledRecords

/-!
# Records restored on the way out

The params of an object go back under the keys that they were read from. An undeclared tag goes out
under its own name first and is then moved to its cased key, past the fields of the shape.
-/

namespace ApiContract

/-- The tag under a key stays apart from the fields of a shape: a field of that name is not renamed,
and no other field goes by the key or by its cased form. -/
def Field.LeavesTag (case : KeyCase) (key : String) (f : Field) : Prop :=
  if f.name = key then f.rename = none
  else f.wireName case ≠ key ∧ f.wireName case ≠ case.apply key

instance (case : KeyCase) (key : String) (f : Field) : Decidable (f.LeavesTag case key) :=
  inferInstanceAs (Decidable (if f.name = key then f.rename = none
    else f.wireName case ≠ key ∧ f.wireName case ≠ case.apply key))

theorem Field.LeavesTag.wireName {case : KeyCase} {key : String} {f : Field}
    (h : f.LeavesTag case key) (hn : f.name = key) : f.wireName case = case.apply key := by
  rw [LeavesTag, if_pos hn] at h
  rw [Field.wireName, h, hn]
  rfl

/-- A definition of its own accord loses nothing of a payload: it has no default, its fields have
distinct names, and its tagged variants are shapes that leave the tag alone. -/
structure Definition.Reversible (c : Context) (d : Definition) : Prop where
  noDefault : d.default? = none
  distinct : ∀ shape, d.kind = .object shape ∨ d.kind = .array (.shape shape) →
    (shape.map Field.name).Nodup
  tagged : ∀ key variants, d.kind = .union (some key) variants → ∀ v ∈ variants,
    ∃ shape i, LeadsTo c.view shape i v.definition ∧ ∀ f ∈ shape, f.LeavesTag c.case key

/-- Without a shape or tags of its own a definition only needs to have no default. -/
theorem Definition.Reversible.of_noDefault {c : Context} {d : Definition}
    (noDefault : d.default? = none)
    (plain : match d.kind with
      | .object _ | .array (.shape _) | .union (some _) _ => False
      | _ => True) : d.Reversible c := by
  refine ⟨noDefault, ?_, ?_⟩
  · rintro shape (hk | hk) <;> simp [hk] at plain
  · intro key variants hk
    simp [hk] at plain

theorem Definition.LeadsTo.occurs_field {view : View} {shape : List Field} {i : Nat}
    {d e : Definition} (h : LeadsTo view shape i d) {f : Field} (hf : f ∈ shape)
    (he : Occurs view e f.definition) : Occurs view e d := by
  induction h with
  | object hk => exact .field hk hf he
  | reference hk hd _ ih => exact .reference hk hd ih

theorem Definition.LeadsTo.occurs_shape {view : View} {shape : List Field} {i : Nat}
    {d : Definition} (h : LeadsTo view shape i d) :
    ∃ e, e.kind = .object shape ∧ Occurs view e d := by
  induction h with
  | object hk => exact ⟨_, hk, .here⟩
  | reference hk hd _ ih =>
    obtain ⟨e, he, ho⟩ := ih
    exact ⟨e, he, .reference hk hd ho⟩

/-! ### Objects of one scalar field -/

/-- An object with one scalar holds itself and the scalar. -/
theorem Definition.Occurs.of_single {view : View} {e : Definition} {f : Field} {kind : ScalarKind}
    (h : Occurs view e (.object [f])) (hs : f.definition.kind = .scalar kind) :
    e = .object [f] ∨ e = f.definition := by
  cases h with
  | here => exact .inl rfl
  | field hk hf h =>
    cases hk
    obtain rfl := List.mem_singleton.mp hf
    exact .inr (h.eq_of_scalar hs)
  | reference hk => cases hk
  | element hk => cases hk
  | shapeField hk => cases hk
  | variant hk => cases hk

/-- An object of one scalar field without a default is reversible throughout. -/
theorem Definition.reversible_of_occurs_single {c : Context} {e : Definition} {f : Field}
    {kind : ScalarKind} (h : Occurs c.view e (.object [f])) (hs : f.definition.kind = .scalar kind)
    (noDefault : f.definition.default? = none) :
    e.Reversible c ∧ ∀ variants, e.kind ≠ .union none variants := by
  rcases h.of_single hs with rfl | rfl
  · refine ⟨⟨rfl, ?_, fun key variants hk => by cases hk⟩, fun variants hk => by cases hk⟩
    rintro shape (hk | hk) <;> cases hk
    exact List.nodup_singleton _
  · refine ⟨.of_noDefault noDefault (by simp [hs]), ?_⟩
    intro variants hk
    simp [hs] at hk

namespace WireKeys

open Validation

variable {case : KeyCase} {next : Rekeying} {value : Definition → Json → Json}
  {shape : List Field} {record payload : Keyed Json}

/-! ### A shape and its names -/

theorem find?_name (distinct : (shape.map Field.name).Nodup) {f : Field} (hf : f ∈ shape) :
    shape.find? (·.name == f.name) = some f := by
  cases hg : shape.find? (·.name == f.name) with
  | none => simpa using List.find?_eq_none.mp hg f hf
  | some g =>
    have hn : g.name = f.name := by simpa using List.find?_some hg
    rw [List.inj_on_of_nodup_map distinct (List.mem_of_find?_eq_some hg) hf hn]

theorem find?_name_eq_none {key : String} (h : key ∉ shape.map Field.name) :
    shape.find? (·.name == key) = none := by
  refine List.find?_eq_none.mpr fun f hf he => h ?_
  have hn : f.name = key := by simpa using he
  exact hn ▸ List.mem_map_of_mem hf

/-- A record holds the params of a shape, and maybe other entries under keys that are no names. -/
structure HoldsParams (case : KeyCase) (value : Definition → Json → Json) (shape : List Field)
    (payload record : Keyed Json) : Prop where
  distinct : (shape.map Field.name).Nodup
  nodup : (Keyed.keys record).Nodup
  param : ∀ f ∈ shape, Keyed.get? record f.name =
    (Keyed.get? payload (f.wireName case)).map (value f.definition)

/-- Whatever a declared entry was read from it goes out as again. -/
theorem HoldsParams.entry (h : HoldsParams case value shape payload record) {f : Field}
    (hf : f ∈ shape)
    (back : ∀ x, Keyed.get? payload (f.wireName case) = some x →
      next f.definition (value f.definition x) = x) {y : Json}
    (hy : Keyed.get? record f.name = some y) :
    Keyed.get? payload (f.wireName case) = some (respelled next shape f.name y) := by
  rw [h.param f hf] at hy
  obtain ⟨x, hx, rfl⟩ := Option.map_eq_some_iff.mp hy
  rw [hx, respelled, find?_name h.distinct hf]
  simp only [back x hx]

theorem HoldsParams.spelling_of_mem (h : HoldsParams case value shape payload record) {f : Field}
    (hf : f ∈ shape) : spelling case shape f.name = f.wireName case := by
  rw [spelling, find?_name h.distinct hf]

theorem spelling_of_not_mem {key : String} (hk : key ∉ shape.map Field.name) :
    spelling case shape key = key := by
  rw [spelling, find?_name_eq_none hk]

theorem respelled_of_not_mem {key : String} (hk : key ∉ shape.map Field.name) (j : Json) :
    respelled next shape key j = j := by
  rw [respelled, find?_name_eq_none hk]

/-- The entries that a record goes out with. -/
theorem mem_outEntries_iff (hn : (Keyed.keys record).Nodup) (wire : String) (y : Json) :
    (wire, y) ∈ outEntries case next shape record ↔
      ∃ key x, (key, x) ∈ record ∧ spelling case shape key = wire ∧
        respelled next shape key x = y := by
  have hp : (outEntries case next shape record).Perm (record.map (outEntry case next shape)) :=
    outEntries_perm shape hn
  rw [hp.mem_iff, List.mem_map]
  constructor
  · rintro ⟨⟨key, x⟩, hm, he⟩
    exact ⟨key, x, hm, congrArg Prod.fst he, congrArg Prod.snd he⟩
  · rintro ⟨key, x, hm, rfl, rfl⟩
    exact ⟨(key, x), hm, rfl⟩

/-- Under the key of a field goes out what stood there, if no undeclared entry takes its place. -/
theorem HoldsParams.get?_wireName (h : HoldsParams case value shape payload record)
    (back : ∀ f ∈ shape, ∀ x, Keyed.get? payload (f.wireName case) = some x →
      next f.definition (value f.definition x) = x) {f : Field} (hf : f ∈ shape)
    (free : ∀ key ∈ Keyed.keys record, key ∉ shape.map Field.name → key ≠ f.wireName case) :
    Keyed.get? (members case next shape record) (f.wireName case) =
      Keyed.get? payload (f.wireName case) := by
  -- each entry that goes out there is a declared one, so it is what the payload has there
  have fits : ∀ y, (f.wireName case, y) ∈ outEntries case next shape record →
      Keyed.get? payload (f.wireName case) = some y := by
    intro y hy
    obtain ⟨key, x, hm, hw, rfl⟩ := (mem_outEntries_iff h.nodup _ _).mp hy
    by_cases hk : key ∈ shape.map Field.name
    · obtain ⟨g, hg, rfl⟩ := List.mem_map.mp hk
      rw [h.spelling_of_mem hg] at hw
      rw [← hw]
      exact h.entry hg (back g hg) (Keyed.get?_of_mem h.nodup hm)
    · rw [spelling_of_not_mem hk] at hw
      exact absurd hw (free key (Keyed.mem_keys_of_mem hm) hk)
  rw [members_eq_ofList]
  cases hx : Keyed.get? payload (f.wireName case) with
  | some x =>
    have hr : Keyed.get? record f.name = some (value f.definition x) := by
      rw [h.param f hf, hx]
      rfl
    have hy := h.entry hf (back f hf) hr
    rw [hx] at hy
    apply Keyed.get?_ofList_of_mem
    · exact (mem_outEntries_iff h.nodup _ _).mpr
        ⟨f.name, _, Keyed.mem_of_get? hr, h.spelling_of_mem hf, (Option.some.inj hy).symm⟩
    · intro y hm
      have hp := fits y hm
      rw [hx] at hp
      exact (Option.some.inj hp).symm
  | none =>
    apply Keyed.get?_ofList_of_not_mem
    intro hm
    obtain ⟨⟨_, y⟩, hy, rfl⟩ := List.mem_map.mp hm
    rw [fits y hy] at hx
    cases hx

/-- Under a key that no field goes by goes out an undeclared entry, or nothing. -/
theorem HoldsParams.get?_other (h : HoldsParams case value shape payload record) {key : String}
    (hw : ∀ f ∈ shape, f.wireName case ≠ key) :
    Keyed.get? (members case next shape record) key =
      if key ∈ shape.map Field.name then none else Keyed.get? record key := by
  have undeclared : ∀ y, (key, y) ∈ outEntries case next shape record →
      key ∉ shape.map Field.name ∧ Keyed.get? record key = some y := by
    intro y hy
    obtain ⟨k, x, hm, hs, rfl⟩ := (mem_outEntries_iff h.nodup _ _).mp hy
    by_cases hk : k ∈ shape.map Field.name
    · obtain ⟨g, hg, rfl⟩ := List.mem_map.mp hk
      rw [h.spelling_of_mem hg] at hs
      exact absurd hs (hw g hg)
    · rw [spelling_of_not_mem hk] at hs
      rw [respelled_of_not_mem hk, ← hs]
      exact ⟨hk, Keyed.get?_of_mem h.nodup hm⟩
  rw [members_eq_ofList]
  by_cases hk : key ∈ Keyed.keys (outEntries case next shape record)
  · obtain ⟨⟨_, y⟩, hy, rfl⟩ := List.mem_map.mp hk
    obtain ⟨hn, hr⟩ := undeclared y hy
    rw [if_neg hn, hr]
    refine Keyed.get?_ofList_of_mem hy ?_
    intro z hz
    rw [(undeclared z hz).2] at hr
    exact Option.some.inj hr
  · rw [Keyed.get?_ofList_of_not_mem hk]
    split
    · rfl
    · rename_i hn
      rw [eq_comm, Keyed.get?_eq_none_iff]
      intro hr
      obtain ⟨x, hx⟩ := (Keyed.mem_keys_iff _ _).mp hr
      refine hk (Keyed.mem_keys_of_mem (p := (key, x)) ?_)
      exact (mem_outEntries_iff h.nodup _ _).mpr
        ⟨key, x, Keyed.mem_of_get? hx, spelling_of_not_mem hn, respelled_of_not_mem hn x⟩

theorem sorted_members : Keyed.Sorted (members case next shape record) := by
  rw [members_eq_ofList]
  exact Keyed.sorted_ofList _

theorem moveTag_of_contains {key : String} {ms : Keyed Json}
    (h : case.apply key = key ∨ Keyed.contains ms (case.apply key) = true) :
    moveTag case key (.object ms) = .object ms := by
  simp only [moveTag, if_pos h]

/-- A tag under its own key is moved back to where a payload has it. -/
theorem moveTag_eq {key : String} {tag : Json} {ms : Keyed Json} (sorted : Keyed.Sorted ms)
    (sorted' : Keyed.Sorted payload) (tagged : Keyed.get? payload (case.apply key) = some tag)
    (own : case.apply key ≠ key → Keyed.get? payload key = none)
    (h : ∀ k, Keyed.get? ms k = if k = key then some tag
      else if k = case.apply key then none else Keyed.get? payload k) :
    moveTag case key (.object ms) = .object payload := by
  have at_key : Keyed.get? ms key = some tag := by rw [h, if_pos rfl]
  by_cases hcase : case.apply key = key
  · rw [moveTag_of_contains (.inl hcase), Json.object.injEq]
    apply sorted.ext sorted'
    intro k
    rw [h, hcase]
    by_cases hk : k = key
    · rw [if_pos hk, hk, ← hcase, tagged]
    · rw [if_neg hk, if_neg hk]
  · have hfree : ¬ (case.apply key = key ∨ Keyed.contains ms (case.apply key) = true) := by
      simp [hcase, Keyed.contains, h]
    simp only [moveTag, if_neg hfree, at_key, Json.object.injEq]
    apply ((sorted.erase key).insert _ _).ext sorted'
    intro k
    rw [Keyed.get?_insert, Keyed.get?_erase, h]
    by_cases hka : k = case.apply key
    · rw [if_pos hka, hka, tagged]
    · rw [if_neg hka]
      by_cases hk : k = key
      · rw [if_pos hk, hk, own hcase]
      · rw [if_neg hk, if_neg hk, if_neg hka]

/-- The params of an object of a shape, and where they are read from. -/
structure Restores (case : KeyCase) (next : Rekeying) (value : Definition → Json → Json)
    (shape : List Field) (payload : Keyed Json) : Prop where
  distinct : (shape.map Field.name).Nodup
  noDefault : ∀ f ∈ shape, f.definition.default? = none
  sorted : Keyed.Sorted payload
  back : ∀ f ∈ shape, ∀ x, Keyed.get? payload (f.wireName case) = some x →
    next f.definition (value f.definition x) = x

theorem holdsParams_named (distinct : (shape.map Field.name).Nodup)
    (noDefault : ∀ f ∈ shape, f.definition.default? = none) :
    HoldsParams case value shape payload (named case value shape payload) where
  distinct := distinct
  nodup := sorted_named.nodup
  param := by
    intro f hf
    rw [get?_named distinct hf, fieldParam_of_noDefault (noDefault f hf)]

/-- The params of a tagged object hold the tag under its key, also where a field has it. -/
theorem get?_withTag_named {key : String} {tag : Json} (distinct : (shape.map Field.name).Nodup)
    (tagged : Keyed.get? payload (case.apply key) = some tag)
    (own : ∀ f ∈ shape, f.name = key → f.wireName case = case.apply key)
    (kept : ∀ f ∈ shape, f.wireName case = case.apply key → value f.definition tag = tag) :
    Keyed.get? (withTag key tag (named case value shape payload)) key = some tag := by
  by_cases hk : key ∈ shape.map Field.name
  · obtain ⟨f, hf, rfl⟩ := List.mem_map.mp hk
    have hw := own f hf rfl
    apply get?_withTag_of_some
    rw [get?_named_of_given distinct hf (by rw [hw, tagged]), kept f hf hw]
  · rw [get?_withTag, if_pos rfl, get?_named_of_not_mem hk]
    rfl

/-- So the tag chooses the variant in the params that it chose in the payload. -/
theorem chosenBy?_withTag_named {key tag : String} {variants : List Variant} {variant : Variant}
    (hv : Variant.tagged? variants tag = some variant) (distinct : (shape.map Field.name).Nodup)
    (tagged : Keyed.get? payload (case.apply key) = some (.string tag))
    (own : ∀ f ∈ shape, f.name = key → f.wireName case = case.apply key)
    (kept : ∀ f ∈ shape, f.wireName case = case.apply key →
      value f.definition (.string tag) = .string tag) :
    Variant.chosenBy? variants key
      (.object (withTag key (.string tag) (named case value shape payload))) = some variant := by
  rw [Variant.chosenBy?, Json.get?, get?_withTag_named distinct tagged own kept]
  exact hv

/-- The params of an object without undeclared members go out as the object. -/
theorem Restores.object_named (h : Restores case next value shape payload)
    (known : ∀ key ∈ Keyed.keys payload, key ∈ shape.map (Field.wireName case)) :
    object case next shape (.object (named case value shape payload)) = .object payload := by
  have hp : HoldsParams case value shape payload (named case value shape payload) :=
    holdsParams_named h.distinct h.noDefault
  rw [object, Json.object.injEq]
  apply sorted_members.ext h.sorted
  intro key
  by_cases hw : ∃ f ∈ shape, f.wireName case = key
  · obtain ⟨f, hf, rfl⟩ := hw
    apply hp.get?_wireName h.back hf
    intro k hk hn
    exact absurd hk ((Keyed.get?_eq_none_iff _ _).mp (get?_named_of_not_mem hn))
  · have hw : ∀ f ∈ shape, f.wireName case ≠ key := fun f hf he => hw ⟨f, hf, he⟩
    have hnone : Keyed.get? payload key = none := by
      rw [Keyed.get?_eq_none_iff]
      intro hk
      obtain ⟨f, hf, he⟩ := List.mem_map.mp (known key hk)
      exact hw f hf he
    rw [hp.get?_other hw, hnone]
    split
    · rfl
    · rename_i hn
      exact get?_named_of_not_mem hn

/-- A tag that no field has goes out under its own key, beside the entries of the fields. -/
theorem Restores.get?_members_tag (h : Restores case next value shape payload) {key : String}
    (tag : Json) (hk : key ∉ shape.map Field.name)
    (apart : ∀ f ∈ shape, f.wireName case ≠ key ∧ f.wireName case ≠ case.apply key)
    (known : ∀ k ∈ Keyed.keys payload,
      k ∈ shape.map (Field.wireName case) ∨ k ∈ [case.apply key]) (k : String) :
    Keyed.get? (members case next shape
        (Keyed.insert key tag (named case value shape payload))) k =
      if k = key then some tag else if k = case.apply key then none else Keyed.get? payload k := by
  generalize hr : Keyed.insert key tag (named case value shape payload) = record
  have get?_record : ∀ k, Keyed.get? record k =
      if k = key then some tag else Keyed.get? (named case value shape payload) k := by
    intro k
    rw [← hr, Keyed.get?_insert]
  have ne_name : ∀ f ∈ shape, f.name ≠ key := fun f hf he => hk (he ▸ List.mem_map_of_mem hf)
  have hp : HoldsParams case value shape payload record := by
    refine ⟨h.distinct, hr ▸ (sorted_named.insert key tag).nodup, fun f hf => ?_⟩
    rw [get?_record, if_neg (ne_name f hf)]
    exact (holdsParams_named h.distinct h.noDefault).param f hf
  by_cases hw : ∃ f ∈ shape, f.wireName case = k
  · obtain ⟨f, hf, rfl⟩ := hw
    rw [if_neg (apart f hf).1, if_neg (apart f hf).2]
    apply hp.get?_wireName h.back hf
    -- the tag is the only undeclared entry
    intro k hm hn he
    have hkey : k ≠ key := fun hkk => (apart f hf).1 (he ▸ hkk)
    refine (Keyed.get?_eq_none_iff record k).mp ?_ hm
    rw [get?_record, if_neg hkey, get?_named_of_not_mem hn]
  · have hw : ∀ f ∈ shape, f.wireName case ≠ k := fun f hf he => hw ⟨f, hf, he⟩
    rw [hp.get?_other hw, get?_record]
    by_cases hkk : k = key
    · rw [if_pos hkk, if_pos hkk, if_neg (hkk ▸ hk)]
    · have hout : (if k = case.apply key then none else Keyed.get? payload k) = none := by
        split
        · rfl
        · rename_i hka
          rw [Keyed.get?_eq_none_iff]
          intro hm
          rcases known k hm with hs | ht
          · obtain ⟨f, hf, he⟩ := List.mem_map.mp hs
            exact hw f hf he
          · exact hka (List.mem_singleton.mp ht)
      rw [if_neg hkk, if_neg hkk, hout]
      split
      · rfl
      · rename_i hn
        exact get?_named_of_not_mem hn

/-- The params of a tagged object go out as the object, with the tag back under its cased key. -/
theorem Restores.moveTag_holdTag (h : Restores case next value shape payload) {key : String}
    {tag : Json}
    (known : ∀ k ∈ Keyed.keys payload,
      k ∈ shape.map (Field.wireName case) ∨ k ∈ [case.apply key])
    (tagged : Keyed.get? payload (case.apply key) = some tag)
    (leaves : ∀ f ∈ shape, f.LeavesTag case key) :
    moveTag case key (object case next shape
      (holdTag key tag (.object (named case value shape payload)))) = .object payload := by
  by_cases hk : key ∈ shape.map Field.name
  · -- the tag is a param like others, and it goes out under its cased key by itself
    obtain ⟨f, hf, hn⟩ := List.mem_map.mp hk
    have hw := Field.LeavesTag.wireName (leaves f hf) hn
    have hc : Keyed.contains (named case value shape payload) key = true := by
      rw [Keyed.contains, ← hn, get?_named h.distinct hf,
        fieldParam_of_noDefault (h.noDefault f hf), hw, tagged]
      rfl
    have hall : ∀ k ∈ Keyed.keys payload, k ∈ shape.map (Field.wireName case) := by
      intro k hm
      rcases known k hm with hs | ht
      · exact hs
      · rw [List.mem_singleton.mp ht, ← hw]
        exact List.mem_map_of_mem hf
    rw [holdTag, withTag, if_pos hc, h.object_named hall]
    exact moveTag_of_contains (.inr (by rw [Keyed.contains, tagged]; rfl))
  · -- no field has the tag: it goes out under its own key and is then moved
    have apart : ∀ f ∈ shape, f.wireName case ≠ key ∧ f.wireName case ≠ case.apply key := by
      intro f hf
      have hl := leaves f hf
      rwa [Field.LeavesTag, if_neg fun he : f.name = key => hk (he ▸ List.mem_map_of_mem hf)] at hl
    have hc : ¬ Keyed.contains (named case value shape payload) key = true := by
      simp [Keyed.contains, get?_named_of_not_mem hk]
    have own : case.apply key ≠ key → Keyed.get? payload key = none := by
      intro hne
      rw [Keyed.get?_eq_none_iff]
      intro hm
      rcases known key hm with hs | ht
      · obtain ⟨f, hf, he⟩ := List.mem_map.mp hs
        exact (apart f hf).1 he
      · exact hne (List.mem_singleton.mp ht).symm
    rw [holdTag, withTag, if_neg hc]
    exact moveTag_eq sorted_members h.sorted tagged own (h.get?_members_tag tag hk apart known)

end WireKeys

end ApiContract
