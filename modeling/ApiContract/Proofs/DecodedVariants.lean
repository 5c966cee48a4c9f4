import ApiContract.Payload.Exchange
import ApiContract.Proofs.NamedConformance
import ApiContract.Proofs.Outcomes

/-!
# Decoding by the variants that validated

Validation finds the variant of a union in the payload, by its keys. Decoding finds it again in the
params, by the names of fields. A record goes through its fields one by one; with distinct names no
field gets in the way of another.
-/

namespace ApiContract

open Validation

def Transformers.decodeOwn (ts : Transformers) (d : Definition) (j : Json) :
    Except ConfigurationError Json :=
  match d.decode with
  | some name => ts.apply name j
  | none => .ok j

/-- A definition without a transformer of its own leaves a value as it is. -/
theorem Transformers.decodeOwn_none {ts : Transformers} {d : Definition} (h : d.decode = none)
    (j : Json) : ts.decodeOwn d j = .ok j := by
  rw [decodeOwn, h]

mutual

/-- A value is decoded from the params of a payload along the choices that validation made in the
payload. In each union it is the variant that accepted the payload there whose transformers are
applied, and there always is one. -/
inductive DecodedAlong (c : Context) (ts : Transformers) :
    Nat → Definition → Json → Json → Json → Prop where
  | null {n d} : DecodedAlong c ts n d .null .null .null
  | reference {n d target definition w p q r} (hk : d.kind = .reference target)
      (hd : c.view.definition? target = some definition)
      (h : DecodedAlong c ts n definition w p q) (own : ts.decodeOwn d q = .ok r) :
      DecodedAlong c ts (n + 1) d w p r
  | object {n d shape w p q r} (hk : d.kind = .object shape)
      (h : RecordDecoded c ts n shape w p q) (own : ts.decodeOwn d q = .ok r) :
      DecodedAlong c ts (n + 1) d w p r
  | array {n d element elements params values r} (hk : d.kind = .array (.of element))
      (given : params.length = elements.length) (count : values.length = params.length)
      (h : ∀ (i : Nat) w p q, elements[i]? = some w → params[i]? = some p → values[i]? = some q →
        DecodedAlong c ts n element w p q)
      (own : ts.decodeOwn d (.array values) = .ok r) :
      DecodedAlong c ts (n + 1) d (.array elements) (.array params) r
  | shapes {n d fields elements params values r} (hk : d.kind = .array (.shape fields))
      (given : params.length = elements.length) (count : values.length = params.length)
      (h : ∀ (i : Nat) w p q, elements[i]? = some w → params[i]? = some p → values[i]? = some q →
        RecordDecoded c ts (n - 1) fields w p q)
      (own : ts.decodeOwn d (.array values) = .ok r) :
      DecodedAlong c ts (n + 1) d (.array elements) (.array params) r
  | tagged {n d key variants members tag variant p q r} (hk : d.kind = .union (some key) variants)
      (ht : Keyed.get? members (c.case.apply key) = some (.string tag))
      (hv : Variant.tagged? variants tag = some variant)
      (h : DecodedAlong c ts n variant.definition (.object members) p q)
      (own : ts.decodeOwn d q = .ok r) : DecodedAlong c ts (n + 1) d (.object members) p r
  | untagged {n d front variant back w p q r}
      (hk : d.kind = .union none (front ++ variant :: back))
      (hf : ∀ u ∈ front, c.acceptsWithin n u.definition w = false)
      (hv : c.acceptsWithin n variant.definition w = true)
      (h : DecodedAlong c ts n variant.definition w p q) (own : ts.decodeOwn d q = .ok r) :
      DecodedAlong c ts (n + 1) d w p r
  | literal {n d value w r} (hk : d.kind = .literal value) (own : ts.decodeOwn d w = .ok r) :
      DecodedAlong c ts (n + 1) d w w r
  | scalar {n d kind w r} (hk : d.kind = .scalar kind) (own : ts.decodeOwn d w = .ok r) :
      DecodedAlong c ts (n + 1) d w w r

/-- A record is decoded field by field. What the payload has for a field is decoded along the payload
and a default by itself; other entries stay. -/
inductive RecordDecoded (c : Context) (ts : Transformers) :
    Nat → List Field → Json → Json → Json → Prop where
  | mk {n shape payload params values} (keys : Keyed.keys values = Keyed.keys params)
      (other : ∀ key, key ∉ shape.map Field.name → Keyed.get? values key = Keyed.get? params key)
      (given : ∀ f ∈ shape, f.wireName c.case ∈ Keyed.keys payload → f.name ∈ Keyed.keys params)
      (present : ∀ f ∈ shape, ∀ w p q, Keyed.get? payload (f.wireName c.case) = some w →
        Keyed.get? params f.name = some p → Keyed.get? values f.name = some q →
        DecodedAlong c ts n f.definition w p q)
      (absent : ∀ f ∈ shape, f.wireName c.case ∉ Keyed.keys payload →
        ∀ p q, Keyed.get? params f.name = some p → Keyed.get? values f.name = some q →
        Transformation.transform c.view ts .decode n f.definition p = .ok q) :
      RecordDecoded c ts n shape (.object payload) (.object params) (.object values)

end

namespace Transformation

/-! ### One record -/

/-- One entry changed: it is the value under the key, and the rest stays. -/
theorem modifyM_ok {key : String} {f : Json → Except ConfigurationError Json} {t u : Keyed Json}
    (h : modifyM key f t = .ok u) :
    Keyed.keys u = Keyed.keys t ∧ (∀ k, k ≠ key → Keyed.get? u k = Keyed.get? t k) ∧
      ∀ x, Keyed.get? t key = some x → ∃ y, f x = .ok y ∧ Keyed.get? u key = some y := by
  induction t generalizing u with
  | nil =>
    cases h
    exact ⟨rfl, fun _ _ => rfl, nofun⟩
  | cons entry rest ih =>
    obtain ⟨k, j⟩ := entry
    rw [modifyM] at h
    split at h
    · rename_i hk
      obtain ⟨y, hy, h⟩ := Except.bind_eq_ok h
      cases h
      refine ⟨rfl, ?_, ?_⟩
      · intro k' hk'
        have hb : (k' == k) = false := by simpa [hk] using hk'
        simp only [Keyed.get?, List.lookup_cons, hb]
      · intro x hx
        simp only [Keyed.get?, hk, List.lookup_cons, beq_self_eq_true, Option.some.injEq] at hx ⊢
        exact ⟨y, hx ▸ hy, rfl⟩
    · rename_i hk
      obtain ⟨rest', hr, h⟩ := Except.bind_eq_ok h
      cases h
      obtain ⟨keys, others, there⟩ := ih hr
      have hb : (key == k) = false := by simpa using Ne.symm hk
      refine ⟨congrArg (k :: ·) keys, ?_, ?_⟩
      · intro k' hk'
        have ho := others k' hk'
        simp only [Keyed.get?, List.lookup_cons] at ho ⊢
        rw [ho]
      · intro x hx
        simp only [Keyed.get?, List.lookup_cons, hb] at hx there ⊢
        exact there x hx

/-- A record whose fields are transformed has its keys, and one result for each field. -/
theorem foldlM_modifyM_ok {transform : Transform} {shape : List Field} {ps qs : Keyed Json}
    (distinct : (shape.map Field.name).Nodup)
    (h : shape.foldlM (fun ms f => modifyM f.name (transform f.definition) ms) ps = .ok qs) :
    Keyed.keys qs = Keyed.keys ps ∧
      (∀ key, key ∉ shape.map Field.name → Keyed.get? qs key = Keyed.get? ps key) ∧
      ∀ f ∈ shape, ∀ x, Keyed.get? ps f.name = some x →
        ∃ y, transform f.definition x = .ok y ∧ Keyed.get? qs f.name = some y := by
  induction shape generalizing ps with
  | nil =>
    cases h
    exact ⟨rfl, fun _ _ => rfl, nofun⟩
  | cons g rest ih =>
    rw [List.foldlM_cons] at h
    obtain ⟨ms, hm, h⟩ := Except.bind_eq_ok h
    obtain ⟨hg, distinct⟩ := List.nodup_cons.mp distinct
    obtain ⟨keys, others, there⟩ := modifyM_ok hm
    obtain ⟨keys', others', there'⟩ := ih distinct h
    refine ⟨keys'.trans keys, ?_, ?_⟩
    · intro key hk
      obtain ⟨hkg, hk⟩ : key ≠ g.name ∧ key ∉ rest.map Field.name := by simpa using hk
      rw [others' key hk, others key hkg]
    · intro f hf x hx
      rcases List.mem_cons.mp hf with rfl | hf
      · rw [others' _ hg]
        exact there x hx
      · have hn : f.name ≠ g.name := fun he => hg (he ▸ List.mem_map_of_mem hf)
        apply there' f hf x
        rw [others _ hn, hx]

/-! ### One step -/

section Step

variable {view : View} {ts : Transformers} {next afterNext : Transform} {d : Definition} {p r : Json}

/-- A value that is there is transformed inside and then by the transformer of its definition. -/
theorem transform_succ_ok {n : Nat} (hp : p.isNull = false)
    (h : transform view ts .decode (n + 1) d p = .ok r) :
    ∃ q, inside view (transform view ts .decode n) (transform view ts .decode (n - 1)) d p = .ok q ∧
      ts.decodeOwn d q = .ok r := by
  rw [transform_succ, step, if_neg (by simp [hp])] at h
  exact Except.bind_eq_ok h

theorem transform_null {n : Nat} (h : transform view ts .decode n d .null = .ok r) : r = .null := by
  cases n with
  | zero =>
    cases h
    rfl
  | succ n =>
    rw [transform_succ] at h
    exact (Except.ok.inj h).symm

/-- A reference passes the value on to what it refers to. -/
theorem inside_reference {target : String} {definition : Definition}
    (hk : d.kind = .reference target) (hd : view.definition? target = some definition) :
    inside view next afterNext d p = next definition p := by
  unfold inside
  rw [hk]
  unfold View.definition? at hd
  cases ht : view.resolve target with
  | error e =>
    rw [ht] at hd
    cases hd
  | ok t =>
    rw [ht] at hd
    cases hd
    simp only [ht]
    rfl

theorem inside_object {shape : List Field} (hk : d.kind = .object shape) :
    inside view next afterNext d p = object next shape p := by
  unfold inside
  rw [hk]

theorem inside_array {element : Definition} (hk : d.kind = .array (.of element)) :
    inside view next afterNext d p = array (next element) p := by
  unfold inside
  rw [hk]

theorem inside_shapes {fields : List Field} (hk : d.kind = .array (.shape fields)) :
    inside view next afterNext d p = array (object afterNext fields) p := by
  unfold inside
  rw [hk]

theorem inside_tagged {key : String} {variants : List Variant} {variant : Variant}
    (hk : d.kind = .union (some key) variants)
    (hv : Variant.chosenBy? variants key p = some variant) :
    inside view next afterNext d p = next variant.definition p := by
  unfold inside
  rw [hk]
  simp only [hv]

theorem inside_untagged {variants : List Variant} {variant : Variant}
    (hk : d.kind = .union none variants)
    (hv : variants.find? (fun v => ({ view, case := .preserve } : Context).accepts v.definition p) =
      some variant) :
    inside view next afterNext d p = next variant.definition p := by
  unfold inside
  rw [hk]
  simp only [hv]

theorem inside_leaf (hk : (∃ kind, d.kind = .scalar kind) ∨ ∃ value, d.kind = .literal value) :
    inside view next afterNext d p = .ok p := by
  unfold inside
  rcases hk with ⟨kind, hk⟩ | ⟨value, hk⟩ <;> rw [hk]

/-- The elements of a list are transformed one by one. -/
theorem array_ok {f : Json → Except ConfigurationError Json} {ps : List Json} {q : Json}
    (h : array f (.array ps) = .ok q) :
    ∃ qs, q = .array qs ∧ qs.length = ps.length ∧
      ∀ (i : Nat) p q, ps[i]? = some p → qs[i]? = some q → f p = .ok q := by
  obtain ⟨qs, hq, h⟩ := Except.bind_eq_ok h
  cases h
  exact ⟨qs, rfl, Except.mapM_ok hq⟩

end Step

end Transformation

/-! ### Params that come to the same variants -/

/-- The params of a definition come to the variants that its payloads come to: fields have names of
their own, a tagged variant is a shape that has its tag nowhere else, and the variants of other
unions are told apart by name as by key. -/
structure Definition.ChosenAlike (c : Context) (d : Definition) : Prop where
  distinct : ∀ shape, d.kind = .object shape ∨ d.kind = .array (.shape shape) →
    (shape.map Field.name).Nodup
  tagged : ∀ key variants, d.kind = .union (some key) variants → ∀ v ∈ variants,
    ∃ shape i, LeadsTo c.view shape i v.definition ∧
      ∀ f ∈ shape, f.name = key → f.wireName c.case = c.case.apply key
  untagged : ∀ variants, d.kind = .union none variants → ∀ v ∈ variants,
    ∀ e, Occurs c.view e v.definition → e.Plain c

/-- A walk over an object goes by the references to its shape and then into its members. -/
theorem Descends.of_leadsTo {c : Context} {shape : List Field} {i : Nat} {d : Definition}
    (h : Definition.LeadsTo c.view shape i d) {members : Keyed Json} {f : Field} (hf : f ∈ shape)
    {w : Json} (hw : Keyed.get? members (f.wireName c.case) = some w) {k : Nat}
    (hd : Descends c f.definition w k) : Descends c d (.object members) (k + (i + 1)) := by
  induction h with
  | object hk => exact .member hk hf hw hd
  | reference hk ht _ ih => exact .reference hk rfl ht ih

namespace Transformation

variable {c : Context} {ts : Transformers}

/-- Where each field that the payload has is decoded along it, so is the record. -/
theorem recordDecoded_of_object {n : Nat} {shape : List Field} {payload params : Keyed Json}
    {value : Definition → Json → Json} {q : Json} (distinct : (shape.map Field.name).Nodup)
    (param : ∀ f ∈ shape, ∀ w, Keyed.get? payload (f.wireName c.case) = some w →
      Keyed.get? params f.name = some (value f.definition w))
    (decoded : ∀ f ∈ shape, ∀ w, Keyed.get? payload (f.wireName c.case) = some w →
      ∀ q, transform c.view ts .decode n f.definition (value f.definition w) = .ok q →
        DecodedAlong c ts n f.definition w (value f.definition w) q)
    (h : object (transform c.view ts .decode n) shape (.object params) = .ok q) :
    RecordDecoded c ts n shape (.object payload) (.object params) q := by
  obtain ⟨values, hv, h⟩ := Except.bind_eq_ok h
  cases h
  obtain ⟨keys, other, each⟩ := foldlM_modifyM_ok distinct hv
  -- the result for a field is what the fold has left under its name
  have result : ∀ f ∈ shape, ∀ p q, Keyed.get? params f.name = some p →
      Keyed.get? values f.name = some q →
      transform c.view ts .decode n f.definition p = .ok q := by
    intro f hf p q hp hq
    obtain ⟨y, hy, hget⟩ := each f hf p hp
    rw [hq] at hget
    cases hget
    exact hy
  refine .mk keys other ?_ ?_ fun f hf _ => result f hf
  · intro f hf hw
    obtain ⟨w, hw⟩ := (Keyed.mem_keys_iff _ _).mp hw
    exact Keyed.mem_keys_of_get? (param f hf w hw)
  · intro f hf w p q hw hp hq
    obtain rfl : value f.definition w = p := Option.some.inj ((param f hf w hw).symm.trans hp)
    exact decoded f hf w hw q (result f hf _ q hp hq)

/-- Where a definition leads to a shape, its objects are decoded as records of the shape. -/
theorem decodedAlong_of_leadsTo {shape : List Field} {i : Nat} {d : Definition}
    (leads : Definition.LeadsTo c.view shape i d) {k : Nat} {w r : Json} {params : Keyed Json}
    (record : ∀ q, object (transform c.view ts .decode k) shape (.object params) = .ok q →
      RecordDecoded c ts k shape w (.object params) q)
    (h : transform c.view ts .decode (k + (i + 1)) d (.object params) = .ok r) :
    DecodedAlong c ts (k + (i + 1)) d w (.object params) r := by
  induction leads generalizing r with
  | object hk =>
    obtain ⟨q, hq, own⟩ := transform_succ_ok rfl h
    rw [inside_object hk] at hq
    exact .object hk (record q hq) own
  | reference hk hd _ ih =>
    obtain ⟨q, hq, own⟩ := transform_succ_ok rfl h
    rw [inside_reference hk hd] at hq
    exact .reference hk hd (ih hq) own

/-! ### The whole walk -/

def DecodesAlong (c : Context) (ts : Transformers) (n : Nat) (d : Definition) (w : Json) : Prop :=
  ∀ r, transform c.view ts .decode n d (c.paramsWithin n d w) = .ok r →
    DecodedAlong c ts n d w (c.paramsWithin n d w) r

/-- The params of a record are decoded along it. -/
theorem recordDecoded_named {n : Nat} {shape : List Field} {payload : Keyed Json} {q : Json}
    (distinct : (shape.map Field.name).Nodup)
    (below : ∀ f ∈ shape, ∀ w, Keyed.get? payload (f.wireName c.case) = some w →
      DecodesAlong c ts n f.definition w)
    (h : object (transform c.view ts .decode n) shape
      (.object (named c.case (c.paramsWithin n) shape payload)) = .ok q) :
    RecordDecoded c ts n shape (.object payload)
      (.object (named c.case (c.paramsWithin n) shape payload)) q :=
  recordDecoded_of_object distinct (fun _ hf _ hw => get?_named_of_given distinct hf hw) below h

/-- Elements are decoded along a list if each is along its own. -/
theorem elements_decoded {elements values : List Json} {value : Json → Json}
    {decode : Json → Except ConfigurationError Json} {P : Json → Json → Json → Prop}
    (each : ∀ (i : Nat) p q, (elements.map value)[i]? = some p → values[i]? = some q →
      decode p = .ok q)
    (below : ∀ w ∈ elements, ∀ q, decode (value w) = .ok q → P w (value w) q) :
    ∀ (i : Nat) w p q, elements[i]? = some w → (elements.map value)[i]? = some p →
      values[i]? = some q → P w p q := by
  intro i w p q hw hp hq
  have hd := each i p q hp hq
  rw [List.getElem?_map, hw] at hp
  cases hp
  exact below w (List.mem_of_getElem? hw) q hd

/-- The variant that a tag chose in the payload is chosen by the tag in the params, and its fields
are decoded along the payload. -/
theorem decodedAlong_tagged {k i : Nat} {d : Definition} {key tag : String} {variants : List Variant}
    {variant : Variant} {shape : List Field} {members : Keyed Json} {q r : Json}
    (hk : d.kind = .union (some key) variants)
    (ht : Keyed.get? members (c.case.apply key) = some (.string tag))
    (hv : Variant.tagged? variants tag = some variant)
    (leads : Definition.LeadsTo c.view shape i variant.definition)
    (apart : ∀ f ∈ shape, f.name = key → f.wireName c.case = c.case.apply key)
    (distinct : (shape.map Field.name).Nodup)
    (meets : MeetsShape c.case [c.case.apply key] (CleanBy (judge c k) []) shape members)
    (below : ∀ f ∈ shape, ∀ w, Keyed.get? members (f.wireName c.case) = some w →
      DecodesAlong c ts k f.definition w)
    (hq : inside c.view (transform c.view ts .decode (k + (i + 1)))
      (transform c.view ts .decode (k + (i + 1) - 1)) d
      (.object (withTag key (.string tag) (named c.case (c.paramsWithin k) shape members))) = .ok q)
    (own : ts.decodeOwn d q = .ok r) :
    DecodedAlong c ts (k + (i + 1) + 1) d (.object members)
      (.object (withTag key (.string tag) (named c.case (c.paramsWithin k) shape members))) r := by
  have chosen := WireKeys.chosenBy?_withTag_named hv distinct ht apart (paramsWithin_tag meets ht)
  rw [inside_tagged hk chosen] at hq
  refine .tagged hk ht hv (decodedAlong_of_leadsTo leads ?_ hq) own
  intro q hq
  refine recordDecoded_of_object distinct ?_ below hq
  intro f hf w hw
  exact get?_withTag_of_some (get?_named_of_given distinct hf hw)

/-- A walk with some levels left comes from a value to an accepted one that has its place in it. -/
structure GoesOn (c : Context) (n : Nat) (d : Definition) (w : Json) (k : Nat) (e : Definition)
    (x : Json) : Prop where
  clean : CleanBy (judge c k) [] e x
  occurs : ∀ e', Definition.Occurs c.view e' e → Definition.Occurs c.view e' d
  deeper : ∃ i, n = k + i ∧ ∀ m, Descends c e x m → Descends c d w (m + (i + 1))

/-- One step of decoding goes along the value if all that comes below does. -/
theorem decodesAlong_step {n : Nat} (hle : n ≤ nestingLimit) {d : Definition} {w : Json}
    (clean : CleanBy (judge c (n + 1)) [] d w) (shallow : ∀ k, Descends c d w k → k < n + 1)
    (alike : ∀ e, Definition.Occurs c.view e d → e.ChosenAlike c)
    (below : ∀ k e x, GoesOn c n d w k e x → DecodesAlong c ts k e x) :
    DecodesAlong c ts (n + 1) d w := by
  intro r h
  have hnull := paramsWithin_isNull clean
  have hs := stepYields_of_clean clean
  generalize c.paramsWithin (n + 1) d w = p at hnull hs h ⊢
  cases hw : w.isNull with
  | true =>
    obtain rfl : w = .null := by cases w <;> first | rfl | cases hw
    obtain rfl : p = .null := by cases p <;> first | rfl | cases hnull
    obtain rfl := transform_null h
    exact .null
  | false =>
    have hn : (w.isNull && takesNull d) = false := by simp [hw]
    obtain ⟨q, hq, own⟩ := transform_succ_ok (hnull.trans hw) h
    cases hs with
    | null => cases hw
    | reference hk hd hc =>
      rw [inside_reference hk hd] at hq
      exact .reference hk hd (below n _ w
        ⟨hc, fun e => .reference hk hd, 0, rfl, fun m => .reference hk hn hd⟩ q hq) own
    | @object shape members hk meets =>
      rw [inside_object hk] at hq
      refine .object hk (recordDecoded_named ((alike d .here).distinct shape (.inl hk)) ?_ hq) own
      intro f hf x hx
      exact below n _ x
        ⟨meets.present f hf x hx, fun e => .field hk hf, 0, rfl, fun m => .member hk hf hx⟩
    | @array element elements hk hc hm =>
      rw [inside_array hk] at hq
      obtain ⟨values, rfl, count, each⟩ := array_ok hq
      refine .array hk (List.length_map _) count (elements_decoded each ?_) own
      intro x hx
      exact below n _ x ⟨hm x hx, fun e => .element hk, 0, rfl, fun m => .element hk hx⟩
    | @shapes fields elements hk hc hm =>
      rw [inside_shapes hk] at hq
      obtain ⟨values, rfl, count, each⟩ := array_ok hq
      refine .shapes hk (List.length_map _) count (elements_decoded each ?_) own
      intro x hx q hq
      obtain ⟨members, rfl, meets⟩ := hm x hx
      refine recordDecoded_named ((alike d .here).distinct fields (.inr hk)) ?_ hq
      intro f hf y hy
      have hc := meets.present f hf y hy
      -- without a level for it the member would not have been accepted
      obtain ⟨k, rfl⟩ : ∃ k, n = k + 1 := by
        cases n with
        | zero => exact absurd hc (not_cleanBy_judge_zero c [] f.definition y)
        | succ k => exact ⟨k, rfl⟩
      exact below k _ y
        ⟨hc, fun e => .shapeField hk hf, 1, rfl, fun m => .shapeMember hk hx hf hy⟩
    | @tagged key variants members tag variant hk ht hv hc =>
      have hm : variant ∈ variants := List.mem_of_find?_eq_some hv
      obtain ⟨shape, i, leads, apart⟩ := (alike d .here).tagged key variants hk variant hm
      obtain ⟨k, rfl, meets, params⟩ := paramsWithin_of_leadsTo leads hc
      obtain ⟨e, he, ho⟩ := leads.occurs_shape
      rw [params] at hq ⊢
      refine decodedAlong_tagged hk ht hv leads apart
        ((alike e (.variant hk hm ho)).distinct shape (.inl he)) meets ?_ hq own
      intro f hf x hx
      exact below k _ x ⟨meets.present f hf x hx,
        fun e he => .variant hk hm (leads.occurs_field hf he), i + 1, rfl,
        fun m hd => .tagged hk ht hv (.of_leadsTo leads hf hx hd)⟩
    | @untagged _ front variant back hk hf hv =>
      have plain := (alike d .here).untagged _ hk
      -- the variants in front refused the payload, so by name they refuse its params
      have found := find?_accepts_byName (by omega) hw shallow hk hf hv plain
      have refused := not_conforms_of_refused hw shallow front (variant :: back) hk hf
      rw [inside_untagged hk found] at hq
      exact .untagged hk hf hv (below n _ w ⟨(acceptsWithin_iff c n _ _).mp hv,
        fun e => .variant hk (by simp), 0, rfl, fun m => .untagged hk hn refused⟩ q hq) own
    | literal hk hs' =>
      rw [inside_leaf (.inr ⟨_, hk⟩)] at hq
      cases hq
      exact .literal hk own
    | scalar hk =>
      rw [inside_leaf (.inl ⟨_, hk⟩)] at hq
      cases hq
      exact .scalar hk own

/-- Params are decoded along the payload that they were read from. -/
theorem decodesAlong_of_clean {n : Nat} (hle : n ≤ nestingLimit + 1) {d : Definition} {w : Json}
    (clean : CleanBy (judge c n) [] d w) (shallow : ∀ k, Descends c d w k → k < n)
    (alike : ∀ e, Definition.Occurs c.view e d → e.ChosenAlike c) : DecodesAlong c ts n d w := by
  induction n using Nat.strongRecOn generalizing d w with
  | ind n ih =>
    cases n with
    | zero => exact absurd clean (not_cleanBy_judge_zero c [] d w)
    | succ n =>
      apply decodesAlong_step (by omega) clean shallow alike
      intro k e x hx
      -- a part of the value has fewer levels left, and no walk from it goes deeper than those
      obtain ⟨i, rfl, deeper⟩ := hx.deeper
      refine ih k (by omega) (by omega) hx.clean ?_ fun e' he => alike e' (hx.occurs e' he)
      intro m hd
      have hlt := shallow _ (deeper m hd)
      omega

end Transformation

/-- A text or number that a payload has for a field goes through the transformer of the field. -/
theorem DecodedAlong.get?_scalar {c : Context} {ts : Transformers} {n : Nat} {d : Definition}
    {shape : List Field} {payload values : Keyed Json} {p : Json}
    (h : DecodedAlong c ts n d (.object payload) p (.object values)) (hk : d.kind = .object shape)
    (hd : d.decode = none) {f : Field} (hf : f ∈ shape) {kind : ScalarKind}
    (hs : f.definition.kind = .scalar kind) {w : Json} (hn : w ≠ .null)
    (hw : Keyed.get? payload (f.wireName c.case) = some w) :
    ∃ y, ts.decodeOwn f.definition w = .ok y ∧ Keyed.get? values f.name = some y := by
  cases h with
  | object hk' record own =>
    rw [hk] at hk'
    cases hk'
    rw [Transformers.decodeOwn_none hd] at own
    cases own
    cases record with
    | @mk _ _ _ params _ keys other given present absent =>
      have hp := given f hf (Keyed.mem_keys_of_get? hw)
      have hv := hp
      rw [← keys] at hv
      obtain ⟨x, hx⟩ := (Keyed.mem_keys_iff _ _).mp hp
      obtain ⟨y, hy⟩ := (Keyed.mem_keys_iff _ _).mp hv
      refine ⟨y, ?_, hy⟩
      cases present f hf w x y hw hx hy with
      | null => exact absurd rfl hn
      | scalar hk own => exact own
      | reference hk => rw [hs] at hk; cases hk
      | object hk => rw [hs] at hk; cases hk
      | array hk => rw [hs] at hk; cases hk
      | shapes hk => rw [hs] at hk; cases hk
      | tagged hk => rw [hs] at hk; cases hk
      | untagged hk => rw [hs] at hk; cases hk
      | literal hk => rw [hs] at hk; cases hk
  | reference hk' => rw [hk] at hk'; cases hk'
  | tagged hk' => rw [hk] at hk'; cases hk'
  | untagged hk' => rw [hk] at hk'; cases hk'
  | literal hk' => rw [hk] at hk'; cases hk'
  | scalar hk' => rw [hk] at hk'; cases hk'

/-! ### Bodies that come in -/

/-- A body that comes in without issues is accepted once it is coerced, and its params are decoded. -/
theorem Exchange.of_process_body {x : Exchange} {d : Definition} {raw : Json} {v : Verdict}
    (accepted : x.process .body d raw = .ok v) (clean : v.issues = []) :
    (x.context .body).accepts d ((x.context .body).coerce d raw) = true ∧
      x.view.transform x.transformers .decode d
        ((x.context .body).validate d ((x.context .body).coerce d raw)).params = .ok v.params := by
  simp only [process, reduceCtorEq, if_false] at accepted
  split at accepted
  · rename_i hi
    obtain ⟨params, hp, accepted⟩ := Except.bind_eq_ok accepted
    cases accepted
    exact ⟨hi, hp⟩
  · rename_i hi
    cases accepted
    exact absurd (List.isEmpty_iff.mpr clean) hi

/-- A body that is accepted is decoded by the variants that it was validated with. -/
theorem process_decodes_along_validation (x : Exchange) (d : Definition) (raw : Json) (v : Verdict)
    (accepted : x.process .body d raw = .ok v) (clean : v.issues = [])
    (alike : ∀ e, Definition.Occurs x.view e d → e.ChosenAlike (x.context .body))
    (shallow : ∀ k, Descends (x.context .body) d ((x.context .body).coerce d raw) k →
      k ≤ nestingLimit) :
    DecodedAlong (x.context .body) x.transformers (nestingLimit + 1) d
      ((x.context .body).coerce d raw)
      ((x.context .body).validate d ((x.context .body).coerce d raw)).params v.params := by
  obtain ⟨valid, decoded⟩ := x.of_process_body accepted clean
  exact Transformation.decodesAlong_of_clean (Nat.le_refl _)
    ((acceptsWithin_iff _ (nestingLimit + 1) d _).mp valid)
    (fun k hk => Nat.lt_succ_of_le (shallow k hk)) alike v.params decoded

/-! ### A remark on a line -/

def ledger : Exchange := { view := payments.view, config := { keyCase := .camel } }

def lineNumber : Field := { name := "line_number", definition := .scalar .integer }

def lineText : Field :=
  { name := "line_text", definition := { Definition.scalar .string with decode := some "trim" } }

def remark : Definition := .union [.object [lineNumber], .object [lineText]]

def paidRemark : Json := .object [("lineText", .string " paid ")]

/-- An object of one plain field, and the field. -/
theorem Definition.plain_of_occurs_single {c : Context} {e : Definition} {f : Field}
    {kind : ScalarKind} (h : Occurs c.view e (.object [f])) (hs : f.definition.kind = .scalar kind)
    (known : kind ≠ .unknown) (unrenamed : f.rename = none)
    (noDefault : f.definition.default? = none) :
    e.Plain c ∧ ∀ variants, e.kind ≠ .union none variants := by
  obtain ⟨reversible, hu⟩ := reversible_of_occurs_single h hs noDefault
  rcases h.of_single hs with rfl | rfl
  · have he : ∀ shape, (Definition.object [f]).kind = .object shape ∨
        (Definition.object [f]).kind = .array (.shape shape) → shape = [f] := by
      rintro shape (h | h) <;> cases h
      rfl
    refine ⟨⟨reversible, ?_, ?_, nofun, fun value h => by cases h⟩, hu⟩
    · intro shape h
      simp [he shape h, unrenamed]
    · intro shape h
      simp [he shape h]
  · refine ⟨⟨reversible, ?_, ?_, ?_, ?_⟩, hu⟩
    · rintro shape (h | h) <;> simp [hs] at h
    · rintro shape (h | h) <;> simp [hs] at h
    · simpa [hs] using known
    · intro value h
      simp [hs] at h

theorem Definition.mem_of_union {definitions : List Definition} {key : Option String}
    {variants : List Variant} (hk : (union definitions).kind = .union key variants) {v : Variant}
    (hv : v ∈ variants) : v.definition ∈ definitions := by
  cases hk
  obtain ⟨d, hd, rfl⟩ := List.mem_map.mp hv
  exact hd

theorem plain_of_variant_remark {d e : Definition}
    (hd : d ∈ [.object [lineNumber], .object [lineText]])
    (h : Definition.Occurs payments.view e d) :
    e.Plain payments ∧ ∀ variants, e.kind ≠ .union none variants := by
  rcases List.mem_cons.mp hd with rfl | hd
  · exact Definition.plain_of_occurs_single h rfl nofun rfl rfl
  · obtain rfl := List.mem_singleton.mp hd
    exact Definition.plain_of_occurs_single h rfl nofun rfl rfl

/-- A plain definition that is no union without a discriminator. -/
theorem Definition.ChosenAlike.of_plain {c : Context} {d : Definition} (h : d.Plain c)
    (hd : ∀ variants, d.kind ≠ .union none variants) : d.ChosenAlike c where
  distinct := h.distinct
  tagged := by
    intro key variants hk v hv
    obtain ⟨shape, i, leads, leaves⟩ := h.tagged key variants hk v hv
    exact ⟨shape, i, leads, fun f hf hn => (leaves f hf).wireName hn⟩
  untagged variants hk := absurd hk (hd variants)

theorem chosenAlike_of_occurs_remark {e : Definition}
    (h : Definition.Occurs payments.view e remark) : e.ChosenAlike payments := by
  cases h with
  | here =>
    refine ⟨?_, ?_, ?_⟩
    · rintro shape (hk | hk) <;> cases hk
    · intro key variants hk
      cases hk
    · intro variants hk v hv e he
      exact (plain_of_variant_remark (Definition.mem_of_union hk hv) he).1
  | variant hk hv h =>
    obtain ⟨plain, hu⟩ := plain_of_variant_remark (Definition.mem_of_union hk hv) h
    exact .of_plain plain hu
  | reference hk => cases hk
  | field hk => cases hk
  | element hk => cases hk
  | shapeField hk => cases hk

/-- A walk over an object of one scalar field ends at the field. -/
theorem Descends.of_single {c : Context} {f : Field} {kind : ScalarKind} {w : Json} {k : Nat}
    (h : Descends c (.object [f]) w k) (hs : f.definition.kind = .scalar kind) : k ≤ 1 := by
  cases h with
  | here => omega
  | member hk hf hm h =>
    cases hk
    obtain rfl := List.mem_singleton.mp hf
    cases h with
    | here => omega
    | reference hk => rw [hs] at hk; cases hk
    | member hk => rw [hs] at hk; cases hk
    | element hk => rw [hs] at hk; cases hk
    | shapeMember hk => rw [hs] at hk; cases hk
    | tagged hk => rw [hs] at hk; cases hk
    | untagged hk => rw [hs] at hk; cases hk
  | reference hk => cases hk
  | element hk => cases hk
  | shapeMember hk => cases hk
  | tagged hk => cases hk
  | untagged hk => cases hk

/-- A remark is two levels deep at most. -/
theorem descends_remark {w : Json} {k : Nat} (h : Descends payments remark w k) : k ≤ 2 := by
  cases h with
  | here => omega
  | @untagged _ front variant back _ _ hk hn hf h =>
    have hd := Definition.mem_of_union hk (v := variant) (by simp)
    generalize variant.definition = d at hd h
    rcases List.mem_cons.mp hd with rfl | hd
    · have hk := h.of_single rfl
      omega
    · obtain rfl := List.mem_singleton.mp hd
      have hk := h.of_single rfl
      omega
  | reference hk => cases hk
  | member hk => cases hk
  | element hk => cases hk
  | shapeMember hk => cases hk
  | tagged hk => cases hk

/-- What comes in without issues, as it can be computed. -/
theorem Exchange.exists_of_process (x : Exchange) (d : Definition) (raw params : Json)
    (h : (x.process .body d raw).toOption.map (fun v => (v.params, v.issues.isEmpty)) =
      some (params, true)) :
    ∃ v, x.process .body d raw = .ok v ∧ v.issues = [] ∧ v.params = params := by
  cases hv : x.process .body d raw with
  | error e =>
    rw [hv] at h
    cases h
  | ok v =>
    rw [hv] at h
    obtain ⟨hp, hi⟩ := Prod.mk.inj (Option.some.inj h)
    exact ⟨v, rfl, List.isEmpty_iff.mp hi, hp⟩

/-- The text of the remark is trimmed. -/
theorem paidRemark_decoded :
    ∃ v, ledger.process .body remark paidRemark = .ok v ∧ v.issues = [] ∧
      v.params = .object [("line_text", .string "paid")] ∧
      DecodedAlong payments ledger.transformers (nestingLimit + 1) remark
        (payments.coerce remark paidRemark)
        (payments.validate remark (payments.coerce remark paidRemark)).params v.params := by
  obtain ⟨v, accepted, clean, params⟩ := ledger.exists_of_process remark paidRemark
    (.object [("line_text", .string "paid")]) (by decide +kernel)
  exact ⟨v, accepted, clean, params, process_decodes_along_validation ledger remark paidRemark v
    accepted clean (fun e => chosenAlike_of_occurs_remark)
    fun k h => Nat.le_trans (descends_remark h) (by decide)⟩

/-! ### Variants that are lost -/

def numericCode : Definition := .object [{ name := "code", definition := .scalar .integer }]

def isoCode : Field :=
  { name := "code", rename := some "iso",
    definition := { Definition.scalar .string with decode := some "upcase" } }

def currency : Definition := .union [numericCode, .object [isoCode]]

def euro : Json := .object [("iso", .string "eur")]

/-- The validated variant takes its code from another key than decoding, which then finds none. -/
theorem euro_left_as_sent :
    ∃ v, ledger.process .body currency euro = .ok v ∧ v.issues = [] ∧
      v.params = .object [("code", .string "eur")] ∧
      payments.acceptsWithin nestingLimit numericCode euro = false ∧
      payments.acceptsWithin nestingLimit (.object [isoCode]) euro = true ∧
      ¬ DecodedAlong payments ledger.transformers (nestingLimit + 1) currency
        (payments.coerce currency euro)
        (payments.validate currency (payments.coerce currency euro)).params v.params := by
  obtain ⟨v, accepted, clean, params⟩ := ledger.exists_of_process currency euro
    (.object [("code", .string "eur")]) (by decide +kernel)
  have first : payments.acceptsWithin nestingLimit numericCode euro = false := by decide +kernel
  have second : payments.acceptsWithin nestingLimit (.object [isoCode]) euro = true := by
    decide +kernel
  have coerced : payments.coerce currency euro = euro := by decide +kernel
  refine ⟨v, accepted, clean, params, first, second, ?_⟩
  rw [coerced, params]
  generalize (payments.validate currency euro).params = p
  intro h
  cases h with
  | @untagged _ _ front variant back _ _ _ _ hk hf hv h own =>
    obtain rfl : variant = { definition := .object [isoCode] } := by
      cases front with
      | nil =>
        cases hk
        rw [first] at hv
        cases hv
      | cons u rest =>
        have hs := (List.cons.inj (Kind.union.inj hk).2).2
        cases rest with
        | nil => exact (List.cons.inj hs).1.symm
        | cons u' rest => simp at hs
    rw [Transformers.decodeOwn_none rfl] at own
    cases own
    obtain ⟨y, hy, hget⟩ := h.get?_scalar rfl rfl (f := isoCode) List.mem_cons_self rfl
      (w := .string "eur") nofun rfl
    have hu : ledger.transformers.decodeOwn isoCode.definition (.string "eur") =
        .ok (.string "EUR") := by rfl
    rw [hu] at hy
    cases hy
    exact absurd hget (by decide)
  | reference hk => cases hk
  | object hk => cases hk
  | tagged hk => cases hk
  | literal hk => cases hk
  | scalar hk => cases hk

def cardNumber : Field :=
  { name := "number", definition := { Definition.scalar .string with decode := some "trim" } }

def networkCard : Definition :=
  .object [{ name := "kind", rename := some "network", definition := .scalar .string }, cardNumber]

def cardByKind : Definition :=
  .taggedUnion "kind" [{ tag := some "card", definition := networkCard }]

def visaCard : Json :=
  .object [("kind", .string "card"), ("network", .string "visa"), ("number", .string " 42 ")]

/-- The tag of the card is hidden by the field in the params, and decoding finds no variant. -/
theorem visaCard_left_as_sent :
    ∃ v, ledger.process .body cardByKind visaCard = .ok v ∧ v.issues = [] ∧
      v.params = .object [("kind", .string "visa"), ("number", .string " 42 ")] ∧
      ¬ DecodedAlong payments ledger.transformers (nestingLimit + 1) cardByKind
        (payments.coerce cardByKind visaCard)
        (payments.validate cardByKind (payments.coerce cardByKind visaCard)).params v.params := by
  obtain ⟨v, accepted, clean, params⟩ := ledger.exists_of_process cardByKind visaCard
    (.object [("kind", .string "visa"), ("number", .string " 42 ")]) (by decide +kernel)
  have coerced : payments.coerce cardByKind visaCard = visaCard := by decide +kernel
  refine ⟨v, accepted, clean, params, ?_⟩
  rw [coerced, params]
  generalize (payments.validate cardByKind visaCard).params = p
  intro h
  cases h with
  | @tagged _ _ key variants members tag variant _ _ _ hk ht hv h own =>
    obtain rfl : variant = { tag := some "card", definition := networkCard } := by
      cases hk
      exact List.mem_singleton.mp (List.mem_of_find?_eq_some hv)
    rw [Transformers.decodeOwn_none rfl] at own
    cases own
    obtain ⟨y, hy, hget⟩ := h.get?_scalar rfl rfl (f := cardNumber) (by simp) rfl
      (w := .string " 42 ") nofun (by decide +kernel)
    have hu : ledger.transformers.decodeOwn cardNumber.definition (.string " 42 ") =
        .ok (.string "42") := by rfl
    rw [hu] at hy
    cases hy
    exact absurd hget (by decide)
  | untagged hk => cases hk
  | reference hk => cases hk
  | object hk => cases hk
  | literal hk => cases hk
  | scalar hk => cases hk

end ApiContract
