import ApiContract.Proofs.ParamsByName
import ApiContract.Proofs.RepeatedConversion
import ApiContract.Proofs.ReplacedValues

/-!
# Decoding without a limit

Params may be decoded along their definition from the leaves up, however deep they are. Decoding
that stops at some level makes of accepted params what this makes of them: what is read of a payload
is no deeper than the payload was judged.
-/

namespace ApiContract

open Validation

/-! ### Decoding from the leaves up -/

section

variable (view : View) (ts : Transformers)

mutual

/-- A value decoded by a definition: `null` is left alone, and any other value goes through the
transformer of the definition once what is inside it is decoded. -/
inductive Decoded : Definition → Json → Json → Prop where
  | null {d} : Decoded d .null .null
  | value {d p q r} (given : p.isNull = false) (inside : DecodedInside d.kind p q)
      (own : ts.decodeOwn d q = .ok r) : Decoded d p r

/-- What is inside a value, decoded as the kind of the value has it. A reference and a variant pass
the value on as it is. -/
inductive DecodedInside : Kind → Json → Json → Prop where
  | scalar {kind p} : DecodedInside (.scalar kind) p p
  | literal {value p} : DecodedInside (.literal value) p p
  | reference {target definition p q} (found : view.definition? target = some definition)
      (decoded : Decoded definition p q) : DecodedInside (.reference target) p q
  | object {shape ps qs} (entries : EntriesDecoded shape ps qs) :
      DecodedInside (.object shape) (.object ps) (.object qs)
  | array {element ps qs} (elements : ElementsDecoded element ps qs) :
      DecodedInside (.array (.of element)) (.array ps) (.array qs)
  | shapes {fields ps qs} (elements : ElementsDecoded (.object fields) ps qs) :
      DecodedInside (.array (.shape fields)) (.array ps) (.array qs)
  | variant {key variants variant p q} (chosen : Variant.chosenBy? variants key p = some variant)
      (decoded : Decoded variant.definition p q) :
      DecodedInside (.union (some key) variants) p q

/-- Entries under the names of fields are decoded as those, and keep their keys; others stay. -/
inductive EntriesDecoded : List Field → Keyed Json → Keyed Json → Prop where
  | nil {shape} : EntriesDecoded shape [] []
  | field {shape f p q ps qs} (hf : f ∈ shape) (decoded : Decoded f.definition p q)
      (rest : EntriesDecoded shape ps qs) :
      EntriesDecoded shape ((f.name, p) :: ps) ((f.name, q) :: qs)
  | other {shape key p ps qs} (hk : key ∉ shape.map Field.name)
      (rest : EntriesDecoded shape ps qs) : EntriesDecoded shape ((key, p) :: ps) ((key, p) :: qs)

inductive ElementsDecoded : Definition → List Json → List Json → Prop where
  | nil {element} : ElementsDecoded element [] []
  | cons {element p q ps qs} (decoded : Decoded element p q)
      (rest : ElementsDecoded element ps qs) : ElementsDecoded element (p :: ps) (q :: qs)

end

end

variable {view : View} {ts : Transformers}

/-! ### One result -/

mutual

/-- Decoding has one result where no two fields of a shape have one name. -/
theorem Decoded.unique : ∀ {d : Definition} {p q : Json}, Decoded view ts d p q →
    d.Throughout view Definition.NamesApart → ∀ q', Decoded view ts d p q' → q = q'
  | _, _, _, .null, _, q', h' => by
    cases h' with
    | null => rfl
    | value given => cases given
  | _, _, _, .value given inside own, apart, q', h' => by
    have one := inside.unique rfl apart
    cases h' with
    | null => cases given
    | value _ inside' own' =>
      rw [one _ inside', own'] at own
      exact Except.ok.inj own.symm
termination_by structural _ _ _ h => h

/-- What is inside a value is decoded in one way, as the parts are. -/
theorem DecodedInside.unique : ∀ {kind : Kind} {p q : Json}, DecodedInside view ts kind p q →
    ∀ {d : Definition}, d.kind = kind → d.Throughout view Definition.NamesApart →
      ∀ q', DecodedInside view ts kind p q' → q = q'
  | _, _, _, .scalar, _, _, _, q', h' => by
    cases h'
    rfl
  | _, _, _, .literal, _, _, _, q', h' => by
    cases h'
    rfl
  | _, _, _, .reference found decoded, d, hk, apart, q', h' => by
    have one := decoded.unique (apart.reference hk found)
    cases h' with
    | reference found' decoded' =>
      cases found.symm.trans found'
      exact one _ decoded'
  | _, _, _, .object entries, d, hk, apart, q', h' => by
    have one := entries.unique (apart.self.of_object hk) fun f hf => apart.field hk hf
    cases h' with
    | object entries' => rw [one _ entries']
  | _, _, _, .array elements, d, hk, apart, q', h' => by
    have one := elements.unique (apart.element hk)
    cases h' with
    | array elements' => rw [one _ elements']
  | _, _, _, .shapes elements, d, hk, apart, q', h' => by
    have one := elements.unique (apart.shapes hk (apart.self.of_shapes hk))
    cases h' with
    | shapes elements' => rw [one _ elements']
  | _, _, _, .variant chosen decoded, d, hk, apart, q', h' => by
    obtain ⟨tag, -, found⟩ := Variant.chosenBy?_eq_some_iff.mp chosen
    have one := decoded.unique (apart.variant hk (List.mem_of_find?_eq_some found))
    cases h' with
    | variant chosen' decoded' =>
      cases chosen.symm.trans chosen'
      exact one _ decoded'
termination_by structural _ _ _ h => h

/-- Entries whose fields are named apart are decoded in one way. -/
theorem EntriesDecoded.unique : ∀ {shape : List Field} {ps qs : Keyed Json},
    EntriesDecoded view ts shape ps qs → (shape.map Field.name).Nodup →
      (∀ f ∈ shape, f.definition.Throughout view Definition.NamesApart) →
      ∀ qs', EntriesDecoded view ts shape ps qs' → qs = qs'
  | _, _, _, .nil, _, _, qs', h' => by
    cases h'
    rfl
  | _, _, _, .field (f := f) hf decoded rest, distinct, apart, qs', h' => by
    have one := decoded.unique (apart f hf)
    have others := rest.unique distinct apart
    generalize hn : f.name = name at h'
    cases h' with
    | @field _ g _ _ _ _ hg decoded' rest' =>
      obtain rfl := List.inj_on_of_nodup_map distinct hf hg hn
      rw [one _ decoded', others _ rest']
    | other hk => exact absurd (hn ▸ List.mem_map_of_mem hf) hk
  | _, _, _, .other hk rest, distinct, apart, qs', h' => by
    have others := rest.unique distinct apart
    cases h' with
    | field hg => exact absurd (List.mem_map_of_mem hg) hk
    | other _ rest' => rw [others _ rest']
termination_by structural _ _ _ h => h

theorem ElementsDecoded.unique : ∀ {element : Definition} {ps qs : List Json},
    ElementsDecoded view ts element ps qs → element.Throughout view Definition.NamesApart →
      ∀ qs', ElementsDecoded view ts element ps qs' → qs = qs'
  | _, _, _, .nil, _, qs', h' => by
    cases h'
    rfl
  | _, _, _, .cons decoded rest, apart, qs', h' => by
    have one := decoded.unique apart
    have others := rest.unique apart
    cases h' with
    | cons decoded' rest' => rw [one _ decoded', others _ rest']
termination_by structural _ _ _ h => h

end

/-! ### Without transformers -/

mutual

/-- Where no definition names a transformer, decoding changes nothing. -/
theorem Decoded.eq_self : ∀ {d : Definition} {p q : Json}, Decoded view ts d p q →
    d.Throughout view (fun e => e.decode = none) → q = p
  | _, _, _, .null, _ => rfl
  | _, _, _, .value _ inside own, plain => by
    rw [inside.eq_self rfl plain, Transformers.decodeOwn_none plain.self] at own
    exact (Except.ok.inj own).symm

/-- Nothing is decoded where no definition names a transformer. -/
theorem DecodedInside.eq_self : ∀ {kind : Kind} {p q : Json}, DecodedInside view ts kind p q →
    ∀ {d : Definition}, d.kind = kind → d.Throughout view (fun e => e.decode = none) → q = p
  | _, _, _, .scalar, _, _, _ => rfl
  | _, _, _, .literal, _, _, _ => rfl
  | _, _, _, .reference found decoded, _, hk, plain => decoded.eq_self (plain.reference hk found)
  | _, _, _, .object entries, _, hk, plain => by
    rw [entries.eq_self fun f hf => plain.field hk hf]
  | _, _, _, .array elements, _, hk, plain => by rw [elements.eq_self (plain.element hk)]
  | _, _, _, .shapes elements, _, hk, plain => by rw [elements.eq_self (plain.shapes hk rfl)]
  | _, _, _, .variant chosen decoded, _, hk, plain => by
    obtain ⟨tag, -, found⟩ := Variant.chosenBy?_eq_some_iff.mp chosen
    exact decoded.eq_self (plain.variant hk (List.mem_of_find?_eq_some found))

theorem EntriesDecoded.eq_self : ∀ {shape : List Field} {ps qs : Keyed Json},
    EntriesDecoded view ts shape ps qs →
      (∀ f ∈ shape, f.definition.Throughout view fun e => e.decode = none) → qs = ps
  | _, _, _, .nil, _ => rfl
  | _, _, _, .field hf decoded rest, plain => by
    rw [decoded.eq_self (plain _ hf), rest.eq_self plain]
  | _, _, _, .other _ rest, plain => by rw [rest.eq_self plain]

theorem ElementsDecoded.eq_self : ∀ {element : Definition} {ps qs : List Json},
    ElementsDecoded view ts element ps qs →
      element.Throughout view (fun e => e.decode = none) → qs = ps
  | _, _, _, .nil, _ => rfl
  | _, _, _, .cons decoded rest, plain => by rw [decoded.eq_self plain, rest.eq_self plain]

end

/-! ### Tags that params keep -/

/-- A definition reads values for another one: it is this one itself, or it reads for what this one
refers to or for one of its variants. -/
inductive Definition.ReadsFor (view : View) (e : Definition) : Definition → Prop where
  | self : ReadsFor view e e
  | reference {d target definition} (hk : d.kind = .reference target)
      (hd : view.definition? target = some definition) (h : ReadsFor view e definition) :
      ReadsFor view e d
  | variant {d key variants v} (hk : d.kind = .union key variants) (hv : v ∈ variants)
      (h : ReadsFor view e v.definition) : ReadsFor view e d

theorem Definition.ReadsFor.occurs {view : View} {d e : Definition} (h : ReadsFor view e d) :
    Occurs view e d := by
  induction h with
  | self => exact .here
  | reference hk hd _ ih => exact .reference hk hd ih
  | variant hk hv _ ih => exact .variant hk hv ih

/-- A definition that takes an object as it was sent. -/
def Definition.Verbatim (d : Definition) : Prop :=
  d.kind = .scalar .unknown ∨ ∃ ms, d.kind = .literal (.object ms)

/-- A definition reads a tag as what it is: a field of its name is not renamed, and an object taken
as it was sent has the tag under this name. -/
structure Definition.KeepsTag (case : KeyCase) (key : String) (d : Definition) : Prop where
  unrenamed : ∀ f ∈ d.fields, f.name = key → f.rename = none
  verbatim : d.Verbatim → case.apply key = key

/-- The transformer of a definition is there, and the definition has no default, tries no variants
one after the other, and renames no tag. -/
structure Definition.Decodable (view : View) (ts : Transformers) (d : Definition) : Prop where
  known : ∀ name, d.decode = some name → (ts.get? name).isSome = true
  noDefault : d.default? = none
  discriminated : ∀ variants, d.kind ≠ .union none variants
  unrenamed : ∀ key variants, d.kind = .union (some key) variants → ∀ v ∈ variants,
    ∀ e, ReadsFor view e v.definition → ∀ f ∈ e.fields, f.name = key → f.rename = none

/-- A decodable definition that names its fields apart, and whose tags are spelled as they are named
where a variant takes objects as they were sent. -/
structure Definition.DecodesByTag (c : Context) (ts : Transformers) (d : Definition) : Prop
    extends d.Decodable c.view ts where
  apart : d.NamesApart
  verbatim : ∀ key variants, d.kind = .union (some key) variants → ∀ v ∈ variants,
    ∀ e, ReadsFor c.view e v.definition → e.Verbatim → c.case.apply key = key

theorem Definition.DecodesByTag.keepsTag {c : Context} {ts : Transformers} {d e : Definition}
    (h : d.DecodesByTag c ts) {key : String} {variants : List Variant}
    (hk : d.kind = .union (some key) variants) {v : Variant} (hv : v ∈ variants)
    (he : ReadsFor c.view e v.definition) : e.KeepsTag c.case key where
  unrenamed := h.unrenamed key variants hk v hv e he
  verbatim := h.verbatim key variants hk v hv e he

namespace Validation

variable {c : Context} {n : Nat} {d : Definition} {members : Keyed Json}

/-- Only a definition of any value takes an object as a scalar. -/
theorem eq_unknown_of_hasKind_object {kind : ScalarKind}
    (h : hasKind kind (.object members) = true) : kind = .unknown := by
  cases kind <;> first | rfl | cases h

/-- The params of an object are an object, in which a tag is either left out or the one of the
payload. -/
theorem paramsWithin_keepsTag {tags : List String} {key tag : String}
    (clean : CleanBy (judge c n) tags d (.object members))
    (ht : Keyed.get? members (c.case.apply key) = some (.string tag))
    (keeps : ∀ e, Definition.ReadsFor c.view e d → e.KeepsTag c.case key)
    (decodable : d.Throughout c.view (Definition.DecodesByTag c ts)) :
    ∃ ps, c.paramsWithin n d (.object members) = .object ps ∧
      ∀ x, Keyed.get? ps key = some x → x = .string tag := by
  induction n generalizing d tags with
  | zero => exact absurd clean (not_cleanBy_judge_zero c tags d _)
  | succ n ih =>
    have kept : c.case.apply key = key →
        ∀ x, Keyed.get? members key = some x → x = .string tag := by
      intro same x hx
      rw [same, hx] at ht
      exact Option.some.inj ht
    have hs := stepYields_of_clean clean
    generalize c.paramsWithin (n + 1) d (.object members) = p at hs ⊢
    cases hs with
    | object hk meets =>
      have unrenamed := (keeps d .self).unrenamed
      rw [Definition.fields_of_object hk] at unrenamed
      exact ⟨_, rfl, fun x => eq_of_get?_named (decodable.self.apart.of_object hk) unrenamed
        (fun f hf s hs => paramsWithin_string (meets.present f hf _ hs)) ht⟩
    | reference hk hd h =>
      exact ih h (fun e he => keeps e (.reference hk hd he)) (decodable.reference hk hd)
    | tagged hk ht' hv h =>
      have hm := List.mem_of_find?_eq_some hv
      obtain ⟨ps, hps, told⟩ := ih h (fun e he => keeps e (.variant hk hm he))
        (decodable.variant hk hm)
      exact ⟨_, by rw [hps]; rfl, fun x => eq_of_get?_withTag ht' ht told⟩
    | untagged hk => exact absurd hk (decodable.self.discriminated _)
    | @literal _ value hk same =>
      cases value with
      | object ms => exact ⟨_, rfl, kept ((keeps d .self).verbatim (.inr ⟨ms, hk⟩))⟩
      | _ => cases same
    | scalar hk _ meets =>
      have unknown := eq_unknown_of_hasKind_object meets.ofKind
      exact ⟨_, rfl, kept ((keeps d .self).verbatim (.inl (unknown ▸ hk)))⟩

/-- A record holds some params with tags around them, in the order of keys if they are. -/
structure AddsTags (case : KeyCase) (tags : List String) (payload params record : Keyed Json) :
    Prop where
  holds : HoldsTags case tags payload params record
  sorted : Keyed.Sorted params → Keyed.Sorted record

theorem addsTags_nil {case : KeyCase} {payload params : Keyed Json} :
    AddsTags case [] payload params params :=
  ⟨holdsTags_nil, id⟩

theorem AddsTags.of_withTag {case : KeyCase} {tags : List String}
    {payload params record : Keyed Json} {key tag : String}
    (h : AddsTags case tags payload (withTag key (.string tag) params) record)
    (ht : Keyed.get? payload (case.apply key) = some (.string tag)) :
    AddsTags case (key :: tags) payload params record :=
  ⟨h.holds.of_withTag ht, fun sorted => h.sorted (sorted_withTag sorted)⟩

end Validation

namespace Transformation

variable {c : Context} {n : Nat} {d : Definition}

theorem eq_null_of_isNull {p : Json} (h : p.isNull = true) : p = .null := by
  cases p <;> first | rfl | cases h

/-- Decoding with some levels left has a result, which is that of decoding without a limit. -/
def DecodesFully (c : Context) (ts : Transformers) (n : Nat) (d : Definition) (p : Json) : Prop :=
  ∃ q, transform c.view ts .decode n d p = .ok q ∧ Decoded c.view ts d p q

theorem decodesFully_null (n : Nat) : DecodesFully c ts n d .null := by
  refine ⟨.null, ?_, .null⟩
  cases n with
  | zero => rfl
  | succ n =>
    rw [transform_succ]
    rfl

theorem exists_decodeOwn (known : ∀ name, d.decode = some name → (ts.get? name).isSome = true)
    (j : Json) : ∃ r, ts.decodeOwn d j = .ok r := by
  cases h : d.decode with
  | none => exact ⟨j, ts.decodeOwn_none h j⟩
  | some name =>
    obtain ⟨f, hf⟩ := Option.isSome_iff_exists.mp (known name h)
    exact ⟨f j, by simp only [Transformers.decodeOwn, h, Transformers.apply, hf]⟩

/-- A value is decoded fully if what is inside it is. -/
theorem decodesFully_of_inside {p q : Json} (given : p.isNull = false)
    (known : ∀ name, d.decode = some name → (ts.get? name).isSome = true)
    (done : inside c.view (transform c.view ts .decode n)
      (transform c.view ts .decode (n - 1)) d p = .ok q)
    (decoded : DecodedInside c.view ts d.kind p q) : DecodesFully c ts (n + 1) d p := by
  obtain ⟨r, own⟩ := exists_decodeOwn known q
  exact ⟨r, transform_of_inside given done own, .value given decoded own⟩

/-! ### Records and lists -/

/-- The members of a record are transformed if that of each field is. -/
theorem exists_membersOf {next : Transform} {shape : List Field} {ps : Keyed Json}
    (distinct : (shape.map Field.name).Nodup)
    (h : ∀ f ∈ shape, ∀ x, Keyed.get? ps f.name = some x → ∃ y, next f.definition x = .ok y) :
    ∃ qs, membersOf next shape ps = .ok qs := by
  induction shape generalizing ps with
  | nil => exact ⟨ps, rfl⟩
  | cons g rest ih =>
    obtain ⟨hg, distinct⟩ := List.nodup_cons.mp distinct
    obtain ⟨ms, hms⟩ := exists_modifyM (h g List.mem_cons_self)
    have others := (modifyM_ok hms).2.1
    have later : ∀ f ∈ rest, ∀ x, Keyed.get? ms f.name = some x →
        ∃ y, next f.definition x = .ok y := by
      intro f hf x hx
      have hn : f.name ≠ g.name := fun he => hg (he ▸ List.mem_map_of_mem hf)
      exact h f (List.mem_cons_of_mem _ hf) x (others _ hn ▸ hx)
    obtain ⟨qs, hqs⟩ := ih distinct later
    exact ⟨qs, by rw [membersOf_cons, hms]; exact hqs⟩

/-- Entries are decoded if those of each field are and no other one changes. -/
theorem entriesDecoded_of_get? {view : View} {shape : List Field} {ps qs : Keyed Json}
    (keys : Keyed.keys qs = Keyed.keys ps) (distinct : (Keyed.keys ps).Nodup)
    (field : ∀ f ∈ shape, ∀ x y, Keyed.get? ps f.name = some x → Keyed.get? qs f.name = some y →
      Decoded view ts f.definition x y)
    (other : ∀ key, key ∉ shape.map Field.name → Keyed.get? qs key = Keyed.get? ps key) :
    EntriesDecoded view ts shape ps qs := by
  induction ps generalizing qs with
  | nil =>
    obtain rfl : qs = [] := List.map_eq_nil_iff.mp keys
    exact .nil
  | cons entry rest ih =>
    obtain ⟨k, x⟩ := entry
    obtain ⟨⟨k', y⟩, others, rfl, same, after⟩ := List.map_eq_cons_iff.mp keys
    obtain rfl : k' = k := same
    have after : Keyed.keys others = Keyed.keys rest := after
    obtain ⟨fresh, distinct⟩ := List.nodup_cons.mp distinct
    have fresh' : k' ∉ Keyed.keys others := after ▸ fresh
    -- an entry after this one is under another key
    have later : ∀ {t : Keyed Json} {name z w}, k' ∉ Keyed.keys t → Keyed.get? t name = some z →
        Keyed.get? ((k', w) :: t) name = some z := by
      intro t name z w hk hz
      have hn : name ≠ k' := fun he => hk (he ▸ Keyed.mem_keys_of_get? hz)
      rw [Keyed.get?_cons, if_neg hn, hz]
    have rest : EntriesDecoded view ts shape rest others := by
      refine ih after distinct
        (fun f hf x y hx hy => field f hf x y (later fresh hx) (later fresh' hy)) fun key hk => ?_
      have same := other key hk
      simp only [Keyed.get?_cons] at same
      split at same
      · rename_i he
        rw [he, (Keyed.get?_eq_none_iff _ _).mpr fresh, (Keyed.get?_eq_none_iff _ _).mpr fresh']
      · exact same
    by_cases hk : k' ∈ shape.map Field.name
    · obtain ⟨f, hf, rfl⟩ := List.mem_map.mp hk
      refine .field hf (field f hf x y ?_ ?_) rest <;> rw [Keyed.get?_cons, if_pos rfl]
    · have same := other k' hk
      rw [Keyed.get?_cons, if_pos rfl, Keyed.get?_cons, if_pos rfl] at same
      cases same
      exact .other hk rest

/-- A record is decoded fully if each of its fields is. -/
theorem exists_entriesDecoded {next : Transform} {shape : List Field} {ps : Keyed Json}
    (distinct : (shape.map Field.name).Nodup) (sorted : Keyed.Sorted ps)
    (each : ∀ f ∈ shape, ∀ x, Keyed.get? ps f.name = some x →
      ∃ y, next f.definition x = .ok y ∧ Decoded c.view ts f.definition x y) :
    ∃ qs, object next shape (.object ps) = .ok (.object qs) ∧
      EntriesDecoded c.view ts shape ps qs := by
  obtain ⟨qs, hqs⟩ := exists_membersOf distinct fun f hf x hx =>
    (each f hf x hx).imp fun _ => And.left
  obtain ⟨keys, other, field⟩ := foldlM_modifyM_ok distinct hqs
  refine ⟨qs, by rw [object_eq, hqs]; rfl, entriesDecoded_of_get? keys sorted.nodup ?_ other⟩
  intro f hf x y hx hy
  obtain ⟨y', done, hy'⟩ := field f hf x hx
  obtain ⟨z, done', decoded⟩ := each f hf x hx
  rw [done] at done'
  cases done'
  rw [hy] at hy'
  cases hy'
  exact decoded

/-- If each element can be decoded, the list can. -/
theorem exists_elementsDecoded {f : Json → Except ConfigurationError Json} {ps : List Json}
    (each : ∀ p ∈ ps, ∃ q, f p = .ok q ∧ Decoded c.view ts d p q) :
    ∃ qs, array f (.array ps) = .ok (.array qs) ∧ ElementsDecoded c.view ts d ps qs := by
  have listed : ∃ qs, ps.mapM f = .ok qs ∧ ElementsDecoded c.view ts d ps qs := by
    induction ps with
    | nil => exact ⟨[], rfl, .nil⟩
    | cons p rest ih =>
      obtain ⟨q, first, decoded⟩ := each p List.mem_cons_self
      obtain ⟨qs, others, decodeds⟩ := ih fun x hx => each x (List.mem_cons_of_mem _ hx)
      refine ⟨q :: qs, ?_, .cons decoded decodeds⟩
      rw [List.mapM_cons, first, others]
      rfl
  obtain ⟨qs, hqs, decoded⟩ := listed
  exact ⟨qs, by rw [array, hqs]; rfl, decoded⟩

/-! ### The whole walk -/

/-- The params of a shape are decoded fully in a record that holds them and the tags around, if
those of each field are. -/
theorem exists_entriesDecoded_named (tags : List String) {shape : List Field}
    {members record : Keyed Json} (distinct : (shape.map Field.name).Nodup)
    (noDefault : ∀ f ∈ shape, f.definition.default? = none)
    (unrenamed : ∀ f ∈ shape, f.name ∈ tags → f.rename = none)
    (each : ∀ f ∈ shape, ∀ w, Keyed.get? members (f.wireName c.case) = some w →
      DecodesFully c ts n f.definition (c.paramsWithin n f.definition w))
    (adds : AddsTags c.case tags members (named c.case (c.paramsWithin n) shape members) record) :
    ∃ qs, object (transform c.view ts .decode n) shape (.object record) = .ok (.object qs) ∧
      EntriesDecoded c.view ts shape record qs := by
  refine exists_entriesDecoded distinct (adds.sorted sorted_named) fun f hf x hx => ?_
  have param : Keyed.get? (named c.case (c.paramsWithin n) shape members) f.name =
      (Keyed.get? members (f.wireName c.case)).map (c.paramsWithin n f.definition) := by
    rw [get?_named distinct hf, fieldParam_of_noDefault (noDefault f hf)]
  rw [adds.holds f.name, param] at hx
  cases hw : Keyed.get? members (f.wireName c.case) with
  | some w =>
    rw [hw] at hx
    cases hx
    exact each f hf w hw
  | none =>
    -- a field that the payload leaves out has the name of no tag around
    rw [hw, Option.map_none, Option.none_or] at hx
    split at hx
    · rename_i ht
      rw [← Field.wireName_of_unrenamed (unrenamed f hf ht), hw] at hx
      cases hx
    · cases hx

/-- The params of an object are decoded fully in each record that holds them and the tags around. -/
theorem decodesFully_of_object (tags : List String) {members : Keyed Json}
    (clean : CleanBy (judge c n) (tags.map c.case.apply) d (.object members))
    (decodable : d.Throughout c.view (Definition.DecodesByTag c ts))
    (keeps : ∀ key ∈ tags, ∀ e, Definition.ReadsFor c.view e d → e.KeepsTag c.case key)
    (below : ∀ k < n, ∀ e w, CleanBy (judge c k) [] e w →
      e.Throughout c.view (Definition.DecodesByTag c ts) →
      DecodesFully c ts k e (c.paramsWithin k e w)) :
    ∃ ps, c.paramsWithin n d (.object members) = .object ps ∧
      ∀ record, AddsTags c.case tags members ps record →
        DecodesFully c ts n d (.object record) := by
  induction n generalizing d tags with
  | zero => exact absurd clean (not_cleanBy_judge_zero c _ d _)
  | succ n ih =>
    have known := decodable.self.known
    have hs := stepYields_of_clean clean
    generalize hp : c.paramsWithin (n + 1) d (.object members) = p at hs ⊢
    cases hs with
    | object hk meets =>
      refine ⟨_, rfl, fun record adds => ?_⟩
      obtain ⟨qs, done, decoded⟩ := exists_entriesDecoded_named tags
        (decodable.self.apart.of_object hk)
        (fun f hf => (decodable.field hk hf).self.noDefault)
        (fun f hf ht => (keeps _ ht d .self).unrenamed f (Definition.fields_of_object hk ▸ hf) rfl)
        (fun f hf w hw => below n (by omega) _ _ (meets.present f hf w hw) (decodable.field hk hf))
        adds
      exact decodesFully_of_inside rfl known (inside_object hk ▸ done) (hk ▸ .object decoded)
    | reference hk hd h =>
      obtain ⟨ps, hps, told⟩ := ih tags h (decodable.reference hk hd)
        (fun key ht e he => keeps key ht e (.reference hk hd he))
        (fun k hlt => below k (by omega))
      refine ⟨ps, hps, fun record adds => ?_⟩
      obtain ⟨q, done, decoded⟩ := told record adds
      exact decodesFully_of_inside rfl known ((inside_reference hk hd).trans done)
        (hk ▸ .reference hd decoded)
    | @tagged key variants _ tag variant hk ht hv h =>
      have hm : variant ∈ variants := List.mem_of_find?_eq_some hv
      have keeps' : ∀ key' ∈ key :: tags, ∀ e, Definition.ReadsFor c.view e variant.definition →
          e.KeepsTag c.case key' := by
        intro key' hk' e he
        rcases List.mem_cons.mp hk' with rfl | hk'
        · exact decodable.self.keepsTag hk hm he
        · exact keeps key' hk' e (.variant hk hm he)
      obtain ⟨ps, hps, told⟩ := ih (key :: tags) h (decodable.variant hk hm) keeps'
        (fun k hlt => below k (by omega))
      obtain ⟨_, same, kept⟩ := paramsWithin_keepsTag h ht (keeps' key List.mem_cons_self)
        (decodable.variant hk hm)
      cases hps.symm.trans same
      refine ⟨_, by rw [hps]; rfl, fun record adds => ?_⟩
      have adds := adds.of_withTag ht
      have chosen : Variant.chosenBy? variants key (.object record) = some variant :=
        Variant.chosenBy?_eq_some_iff.mpr ⟨tag, adds.holds.get?_tag kept ht, hv⟩
      obtain ⟨q, done, decoded⟩ := told record adds
      exact decodesFully_of_inside rfl known ((inside_tagged hk chosen).trans done)
        (hk ▸ .variant chosen decoded)
    | untagged hk => exact absurd hk (decodable.self.discriminated _)
    | literal hk =>
      exact ⟨_, rfl, fun record _ =>
        decodesFully_of_inside rfl known (inside_leaf (.inr ⟨_, hk⟩)) (hk ▸ .literal)⟩
    | scalar hk =>
      exact ⟨_, rfl, fun record _ =>
        decodesFully_of_inside rfl known (inside_leaf (.inl ⟨_, hk⟩)) (hk ▸ .scalar)⟩

/-- The params of what a walk accepts are decoded fully within the levels of the walk. -/
theorem decodesFully_of_clean {w : Json} (clean : CleanBy (judge c n) [] d w)
    (decodable : d.Throughout c.view (Definition.DecodesByTag c ts)) :
    DecodesFully c ts n d (c.paramsWithin n d w) := by
  induction n using Nat.strongRecOn generalizing d w with
  | ind n ih =>
    cases n with
    | zero => exact absurd clean (not_cleanBy_judge_zero c [] d w)
    | succ n =>
      -- an object or a tagged union is decoded in a record of its params, with no tags around
      have record : ∀ members, w = .object members →
          DecodesFully c ts (n + 1) d (c.paramsWithin (n + 1) d w) := by
        rintro members rfl
        obtain ⟨ps, hps, decoded⟩ := decodesFully_of_object [] clean decodable nofun
          fun k hlt e w h he => ih k hlt h he
        rw [hps]
        exact decoded ps addsTags_nil
      by_cases null : (c.paramsWithin (n + 1) d w).isNull = true
      · rw [eq_null_of_isNull null]
        exact decodesFully_null _
      have given : (c.paramsWithin (n + 1) d w).isNull = false := by simpa using null
      have known := decodable.self.known
      have hs := stepYields_of_clean clean
      generalize c.paramsWithin (n + 1) d w = p at hs record given ⊢
      cases hs with
      | null => exact decodesFully_null _
      | reference hk hd h =>
        obtain ⟨q, done, decoded⟩ := ih n (by omega) h (decodable.reference hk hd)
        exact decodesFully_of_inside given known ((inside_reference hk hd).trans done)
          (hk ▸ .reference hd decoded)
      | object => exact record _ rfl
      | @array element elements hk hc h =>
        have each : ∀ p ∈ elements.map (c.paramsWithin n element),
            DecodesFully c ts n element p := by
          intro p hp
          obtain ⟨x, hx, rfl⟩ := List.mem_map.mp hp
          exact ih n (by omega) (h x hx) (decodable.element hk)
        obtain ⟨qs, done, decoded⟩ := exists_elementsDecoded each
        exact decodesFully_of_inside rfl known (inside_array hk ▸ done) (hk ▸ .array decoded)
      | @shapes fields elements hk hc h =>
        have names := decodable.self.apart.of_shapes hk
        have each : ∀ p ∈ elements.map (objectParams c.case (c.paramsWithin (n - 1)) fields),
            ∃ q, object (transform c.view ts .decode (n - 1)) fields p = .ok q ∧
              Decoded c.view ts (.object fields) p q := by
          intro p hp
          obtain ⟨x, hx, rfl⟩ := List.mem_map.mp hp
          obtain ⟨members, rfl, meets⟩ := h x hx
          obtain ⟨qs, done, decoded⟩ := exists_entriesDecoded_named [] names
            (fun f hf => (decodable.shapeField hk hf).self.noDefault) nofun
            (fun f hf w hw => ih (n - 1) (by omega) (meets.present f hf w hw)
              (decodable.shapeField hk hf)) addsTags_nil
          exact ⟨_, done, .value rfl (.object decoded) (ts.decodeOwn_none rfl _)⟩
        obtain ⟨qs, done, decoded⟩ := exists_elementsDecoded each
        exact decodesFully_of_inside rfl known (inside_shapes hk ▸ done) (hk ▸ .shapes decoded)
      | tagged => exact record _ rfl
      | untagged hk => exact absurd hk (decodable.self.discriminated _)
      | literal hk =>
        exact decodesFully_of_inside given known (inside_leaf (.inr ⟨_, hk⟩)) (hk ▸ .literal)
      | scalar hk =>
        exact decodesFully_of_inside given known (inside_leaf (.inl ⟨_, hk⟩)) (hk ▸ .scalar)

end Transformation

/-- A body that is accepted is decoded, and its params are those of the payload decoded without a
limit. They are the params of the payload if no definition names a transformer. -/
theorem process_body_decodes_fully (x : Exchange) (d : Definition) (raw : Json)
    (accepted : (x.context .body).accepts d ((x.context .body).coerce d raw) = true)
    (decodable : d.Throughout x.view (Definition.DecodesByTag (x.context .body) x.transformers)) :
    let params := ((x.context .body).validate d ((x.context .body).coerce d raw)).params
    ∃ q, x.process .body d raw = .ok ⟨q, []⟩ ∧
      (∀ r, Decoded x.view x.transformers d params r ↔ r = q) ∧
      (d.Throughout x.view (fun e => e.decode = none) → q = params) := by
  intro params
  obtain ⟨q, done, decoded⟩ := Transformation.decodesFully_of_clean
    ((acceptsWithin_iff _ (nestingLimit + 1) d _).mp accepted) decodable
  have apart : d.Throughout x.view Definition.NamesApart := fun e he => (decodable e he).apart
  refine ⟨q, x.process_body_of (List.isEmpty_iff.mp accepted) done, fun r => ?_,
    fun plain => decoded.eq_self plain⟩
  constructor
  · exact fun h => (decoded.unique apart r h).symm
  · rintro rfl
    exact decoded

/-! ### A forum -/

def author : Field :=
  { name := "by", definition := { Definition.scalar .string with decode := some "trim" } }

def reply : Field := { name := "reply", definition := (Definition.reference "Thread").orAbsent }

def thread : Definition := .object [author, reply]

def post : Definition :=
  .taggedUnion "post_kind" [{ tag := some "thread", definition := .reference "Thread" },
    { tag := some "kept", definition := .scalar .unknown }]

def forumView : View where
  registry := { tables := [(.api "forum", [("Thread", .defined ⟨"Thread", thread⟩)])] }
  scope := .api "forum"

def forum (case : KeyCase) : Exchange := { view := forumView, config := { keyCase := case } }

def forumDefinitions : List Definition :=
  [post, .reference "Thread", .scalar .unknown, thread, author.definition, reply.definition]

/-- The definitions of posts refer to each other only. -/
theorem mem_forumDefinitions {d e : Definition} (h : Definition.Occurs forumView e d)
    (hd : d ∈ forumDefinitions) :
    e ∈ forumDefinitions := by
  simp only [forumDefinitions, List.mem_cons, List.not_mem_nil, or_false] at hd ⊢
  induction h with
  | here => exact hd
  | reference hk found _ ih =>
    refine ih ?_
    rcases hd with rfl | rfl | rfl | rfl | rfl | rfl <;> cases hk <;> cases found <;> simp
  | field hk hf _ ih =>
    refine ih ?_
    rcases hd with rfl | rfl | rfl | rfl | rfl | rfl <;> cases hk
    rcases List.mem_pair.mp hf with rfl | rfl <;> simp
  | element hk _ ih => rcases hd with rfl | rfl | rfl | rfl | rfl | rfl <;> cases hk
  | shapeField hk hf _ ih => rcases hd with rfl | rfl | rfl | rfl | rfl | rfl <;> cases hk
  | variant hk hv _ ih =>
    refine ih ?_
    rcases hd with rfl | rfl | rfl | rfl | rfl | rfl <;> cases hk
    rcases List.mem_pair.mp hv with rfl | rfl <;> simp

/-- The definitions are decodable, and none of them names two fields alike. -/
theorem decodable_forum {d : Definition} (hd : d ∈ forumDefinitions) :
    d.Decodable forumView .builtin ∧ d.NamesApart := by
  have checked : (forumDefinitions.all fun d =>
      d.decode.all (fun name => (Transformers.builtin.get? name).isSome) && d.default?.isNone &&
        d.fields.all (·.rename.isNone) && decide d.NamesApart) = true := by
    decide +kernel
  simp only [List.all_eq_true, Bool.and_eq_true, decide_eq_true_eq, Option.isNone_iff_eq_none,
    Option.all_eq_true] at checked
  obtain ⟨⟨⟨known, noDefault⟩, -⟩, apart⟩ := checked d hd
  refine ⟨⟨known, noDefault, ?_, ?_⟩, apart⟩
  · rintro variants hk
    simp only [forumDefinitions, List.mem_cons, List.not_mem_nil, or_false] at hd
    rcases hd with rfl | rfl | rfl | rfl | rfl | rfl <;> cases hk
  · intro key variants hk v hv e he f hf _
    exact (checked e (mem_forumDefinitions (.variant hk hv he.occurs) hd)).1.2 f hf

def postsBy (name : String) (last : Json) : Nat → Json
  | 0 => last
  | n + 1 => .object [("by", .string name), ("reply", postsBy name last n)]

def lastPostBy (name : String) : Json := .object [("by", .string name)]

def threadBy (name : String) : Json :=
  .object [("by", .string name), ("post_kind", .string "thread"),
    ("reply", postsBy name (lastPostBy name) 2)]

/-- The name of the author is trimmed in each post. -/
theorem thread_decoded_fully :
    (forum .preserve).process .body post (threadBy " ann ") = .ok ⟨threadBy "ann", []⟩ ∧
      ∀ r, Decoded forumView .builtin post (threadBy " ann ") r ↔ r = threadBy "ann" := by
  have coerced : ((forum .preserve).context .body).coerce post (threadBy " ann ") =
      threadBy " ann " := by decide +kernel
  have named : (((forum .preserve).context .body).validate post (threadBy " ann ")).params =
      threadBy " ann " := by decide +kernel
  have accepted : ((forum .preserve).context .body).accepts post (threadBy " ann ") = true := by
    decide +kernel
  obtain ⟨q, comes, full, -⟩ := process_body_decodes_fully (forum .preserve) post (threadBy " ann ")
    (by rwa [coerced]) fun e he => by
      obtain ⟨decodable, apart⟩ := decodable_forum (mem_forumDefinitions he List.mem_cons_self)
      exact ⟨decodable, apart, fun _ _ _ _ _ _ _ _ => rfl⟩
  rw [coerced, named] at full
  obtain ⟨v, done, -, params⟩ := (forum .preserve).exists_of_process post (threadBy " ann ")
    (threadBy "ann") (by decide +kernel)
  cases comes.symm.trans done
  cases params
  exact ⟨comes, full⟩

/-! ### Replies that are not decoded -/

def otherReply : Field :=
  { reply with rename := some "other", definition := (Definition.scalar .unknown).orAbsent }

def twoReplies : Definition := .object [{ reply with rename := some "first" }, otherReply]

theorem decodable_twoReplies :
    twoReplies.Throughout forumView (Definition.Decodable forumView .builtin) := by
  intro e he
  cases he with
  | here => exact ⟨nofun, rfl, nofun, nofun⟩
  | field hk hf h =>
    cases hk
    rcases List.mem_pair.mp hf with rfl | rfl
    · have hd : reply.definition ∈ forumDefinitions := by simp [forumDefinitions]
      exact (decodable_forum (mem_forumDefinitions h hd)).1
    · rw [h.eq_of_scalar rfl]
      exact ⟨nofun, rfl, nofun, nofun⟩
  | reference hk => cases hk
  | element hk => cases hk
  | shapeField hk => cases hk
  | variant hk => cases hk

/-- A post whose kind is respelled, and which has another one under the name of the kind. -/
def keptPostBy (name : String) (replies : Json) : Json :=
  .object [("by", .string name), ("postKind", .string "kept"), ("post_kind", .string "thread"),
    ("reply", replies)]

section

variable {shape : List Field} {ps qs : Keyed Json}

theorem entriesDecoded_author (ha : author ∈ shape)
    (rest : EntriesDecoded forumView .builtin shape ps qs) :
    EntriesDecoded forumView .builtin shape (("by", .string " ann ") :: ps)
      (("by", .string "ann") :: qs) :=
  .field (f := author) ha (.value rfl .scalar (by rfl)) rest

theorem decoded_thread {d : Definition} (hk : d.kind = .reference "Thread") (hd : d.decode = none)
    (entries : EntriesDecoded forumView .builtin [author, reply] ps qs) :
    Decoded forumView .builtin d (.object ps) (.object qs) := by
  have found : forumView.definition? "Thread" = some thread := rfl
  exact .value rfl (hk ▸ .reference found (.value rfl (.object entries) rfl))
    (Transformers.decodeOwn_none hd _)

end

theorem decoded_postsBy (n : Nat) :
    Decoded forumView .builtin reply.definition (postsBy " ann " (lastPostBy " ann ") n)
      (postsBy "ann" (lastPostBy "ann") n) := by
  induction n with
  | zero => exact decoded_thread rfl rfl (entriesDecoded_author List.mem_cons_self .nil)
  | succ n ih =>
    have entries : EntriesDecoded forumView .builtin [author, reply] _ _ :=
      .field (f := reply) (List.mem_cons_of_mem _ List.mem_cons_self) ih .nil
    exact decoded_thread rfl rfl (entriesDecoded_author List.mem_cons_self entries)

theorem apart_of_mem_forum {d : Definition} (hd : d ∈ forumDefinitions) :
    d.Throughout forumView Definition.NamesApart :=
  fun _ he => (decodable_forum (mem_forumDefinitions he hd)).2

/-- A body is accepted by definitions that are all decodable, and comes in with params that are not
decoded fully. -/
structure Exchange.LeavesUndecoded (x : Exchange) (d : Definition) (raw params : Json) : Prop where
  decodable : d.Throughout x.view (Definition.Decodable x.view x.transformers)
  accepted : (x.context .body).accepts d ((x.context .body).coerce d raw) = true
  done : x.process .body d raw = .ok ⟨params, []⟩
  undecoded : ¬ Decoded x.view x.transformers d
    ((x.context .body).validate d ((x.context .body).coerce d raw)).params params

/-- The post is kept as it was sent, which puts the last reply one level higher than decoding, which
reads a thread, finds it. -/
theorem keptPost_left :
    (forum .camel).LeavesUndecoded post
      (keptPostBy " ann " (postsBy " ann " (lastPostBy " ann ") 62))
      (keptPostBy "ann" (postsBy "ann" (lastPostBy " ann ") 62)) := by
  have sent : (((forum .camel).context .body).validate post
      (((forum .camel).context .body).coerce post
        (keptPostBy " ann " (postsBy " ann " (lastPostBy " ann ") 62)))).params =
      keptPostBy " ann " (postsBy " ann " (lastPostBy " ann ") 62) := by decide +kernel
  have full : Decoded forumView .builtin post
      (keptPostBy " ann " (postsBy " ann " (lastPostBy " ann ") 62))
      (keptPostBy "ann" (postsBy "ann" (lastPostBy "ann") 62)) := by
    have replies : EntriesDecoded forumView .builtin [author, reply] _ _ :=
      .field (f := reply) (List.mem_cons_of_mem _ List.mem_cons_self) (decoded_postsBy 62) .nil
    refine .value rfl (.variant rfl (decoded_thread rfl rfl
      (entriesDecoded_author List.mem_cons_self (.other ?_ (.other ?_ replies))))) rfl <;> decide
  obtain ⟨v, done, clean, same⟩ := (forum .camel).exists_of_process post
    (keptPostBy " ann " (postsBy " ann " (lastPostBy " ann ") 62))
    (keptPostBy "ann" (postsBy "ann" (lastPostBy " ann ") 62)) (by decide +kernel)
  refine ⟨fun e he => (decodable_forum (mem_forumDefinitions he List.mem_cons_self)).1,
    by decide +kernel, by rw [done, ← same, ← clean], fun h => ?_⟩
  rw [sent] at h
  exact absurd (h.unique (apart_of_mem_forum List.mem_cons_self) _ full) (by decide +kernel)

/-- Under an entry stands what a field of its name makes of it, if there is one. -/
theorem EntriesDecoded.of_cons {shape : List Field} {key : String} {p q : Json} {ps qs : Keyed Json}
    (h : EntriesDecoded view ts shape ((key, p) :: ps) ((key, q) :: qs))
    (hk : key ∈ shape.map Field.name) :
    ∃ f ∈ shape, f.name = key ∧ Decoded view ts f.definition p q := by
  generalize hs : (key, p) :: ps = before at h
  generalize hd : (key, q) :: qs = after at h
  cases h with
  | nil => cases hs
  | field hf decoded =>
    obtain ⟨rfl, rfl⟩ := Prod.mk.inj (List.cons.inj hs).1
    obtain ⟨-, rfl⟩ := Prod.mk.inj (List.cons.inj hd).1
    exact ⟨_, hf, rfl, decoded⟩
  | other ho =>
    obtain ⟨rfl, -⟩ := Prod.mk.inj (List.cons.inj hs).1
    exact absurd hk ho

/-- The reply is taken as it was sent by one field, and decoded by the other one of its name as far
as decoding comes. -/
theorem otherReply_left :
    (forum .preserve).LeavesUndecoded twoReplies
      (.object [("other", postsBy " ann " (lastPostBy " ann ") 63)])
      (.object [("reply", postsBy "ann" (lastPostBy " ann ") 63)]) := by
  have sent : (((forum .preserve).context .body).validate twoReplies
      (((forum .preserve).context .body).coerce twoReplies
        (.object [("other", postsBy " ann " (lastPostBy " ann ") 63)]))).params =
      .object [("reply", postsBy " ann " (lastPostBy " ann ") 63)] := by decide +kernel
  obtain ⟨v, done, clean, same⟩ := (forum .preserve).exists_of_process twoReplies
    (.object [("other", postsBy " ann " (lastPostBy " ann ") 63)])
    (.object [("reply", postsBy "ann" (lastPostBy " ann ") 63)]) (by decide +kernel)
  refine ⟨decodable_twoReplies, by decide +kernel, by rw [done, ← same, ← clean], fun h => ?_⟩
  rw [sent] at h
  cases h with
  | value _ inside own =>
    cases own
    cases inside with
    | object entries =>
      obtain ⟨f, hf, -, decoded⟩ := entries.of_cons (by decide)
      rcases List.mem_pair.mp hf with rfl | rfl
      · have hd : reply.definition ∈ forumDefinitions := by simp [forumDefinitions]
        exact absurd (decoded.unique (apart_of_mem_forum hd) _ (decoded_postsBy 63))
          (by decide +kernel)
      · have unchanged := decoded.eq_self fun e he => by rw [he.eq_of_scalar rfl]; rfl
        exact absurd unchanged (by decide +kernel)

/-- Where a variant takes an object as it was sent, or fields have one name, params can lie deeper
than validation went for them, and are then not decoded fully. -/
theorem deep_replies_left_undecoded :
    (∃ raw params, (forum .camel).LeavesUndecoded post raw params) ∧
      ∃ raw params, (forum .preserve).LeavesUndecoded twoReplies raw params :=
  ⟨⟨_, _, keptPost_left⟩, _, _, otherReply_left⟩

end ApiContract
