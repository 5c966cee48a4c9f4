import ApiContract.Payload.Coercion
import ApiContract.Proofs.PointerTokens

/-!
# Places of a payload

Tokens are followed from a value to its parts. Conversion keeps the places of a payload: it may put a
scalar in the place of anything, but it makes no object or list and moves none.
-/

namespace ApiContract

/-- The part of a value that one token names: the member under a key, or the element at a
position. -/
def Json.child? : Json → String → Option Json
  | .object members, token => Keyed.get? members token
  | .array elements, token => (Pointer.index? token).bind fun n => elements[n]?
  | _, _ => none

def Json.follow? (j : Json) : List String → Option Json
  | [] => some j
  | token :: tokens => (j.child? token).bind fun m => m.follow? tokens

@[simp] theorem Json.follow?_nil (j : Json) : j.follow? [] = some j := rfl

@[simp] theorem Json.follow?_cons (j : Json) (token : String) (tokens : List String) :
    j.follow? (token :: tokens) = (j.child? token).bind fun m => m.follow? tokens := rfl

@[simp] theorem Json.child?_index (elements : List Json) (n : Nat) :
    (Json.array elements).child? (PathSegment.index n).text = elements[n]? := by
  simp [Json.child?, PathSegment.text]

/-! ### Values with the same places -/

namespace Json

/-- Every place of `k` is a place of `j`, and where `k` has an object `j` has one with the same
keys. -/
def Covers (j k : Json) : Prop :=
  ∀ (tokens : List String) (x : Json), k.follow? tokens = some x →
    ∃ y, j.follow? tokens = some y ∧
      ∀ members, x = .object members →
        ∃ members', y = .object members' ∧ Keyed.keys members' = Keyed.keys members

def isLeaf : Json → Bool
  | .array _ | .object _ => false
  | _ => true

theorem Covers.refl (j : Json) : j.Covers j :=
  fun _ x hx => ⟨x, hx, fun members h => ⟨members, h, rfl⟩⟩

theorem Covers.trans {j k l : Json} (h : j.Covers k) (h' : k.Covers l) : j.Covers l := by
  intro tokens x hx
  obtain ⟨y, hy, hyx⟩ := h' tokens x hx
  obtain ⟨z, hz, hzy⟩ := h tokens y hy
  refine ⟨z, hz, ?_⟩
  intro members hm
  obtain ⟨members', hm', hk⟩ := hyx members hm
  obtain ⟨members'', hm'', hk'⟩ := hzy members' hm'
  exact ⟨members'', hm'', hk'.trans hk⟩

theorem child?_of_isLeaf {k : Json} (hk : k.isLeaf = true) (token : String) :
    k.child? token = none := by
  cases k <;> first | rfl | cases hk

theorem covers_leaf (j : Json) {k : Json} (hk : k.isLeaf = true) : j.Covers k := by
  intro tokens x hx
  cases tokens with
  | nil =>
    obtain rfl := Option.some.inj hx
    refine ⟨j, rfl, ?_⟩
    intro members hm
    rw [hm] at hk
    cases hk
  | cons token tokens => simp [child?_of_isLeaf hk token] at hx

/-- A value covers another one with the same keys if its parts cover the parts of the other. -/
theorem covers_of_child? {j k : Json}
    (hc : ∀ token m, k.child? token = some m → ∃ m', j.child? token = some m' ∧ m'.Covers m)
    (ho : ∀ members, k = .object members →
      ∃ members', j = .object members' ∧ Keyed.keys members' = Keyed.keys members) :
    j.Covers k := by
  intro tokens x hx
  cases tokens with
  | nil =>
    obtain rfl := Option.some.inj hx
    exact ⟨j, rfl, ho⟩
  | cons token tokens =>
    obtain ⟨m, hm, hx⟩ := Option.bind_eq_some_iff.mp hx
    obtain ⟨m', hm', hcov⟩ := hc token m hm
    obtain ⟨y, hy, hyx⟩ := hcov tokens x hx
    exact ⟨y, by simpa [hm'] using hy, hyx⟩

/-- A change under one key keeps the other places. -/
theorem covers_modify (members : Keyed Json) (key : String) (f : Json → Json)
    (h : ∀ m : Json, m.Covers (f m)) :
    (Json.object members).Covers (.object (Keyed.modify key f members)) := by
  apply covers_of_child?
  · intro token m hm
    simp only [child?, Keyed.get?_modify] at hm ⊢
    split at hm
    · obtain ⟨m', hm', rfl⟩ := Option.map_eq_some_iff.mp hm
      exact ⟨m', hm', h m'⟩
    · exact ⟨m, hm, .refl m⟩
  · intro members' hm
    cases hm
    exact ⟨members, rfl, (Keyed.keys_modify key f members).symm⟩

/-- Elements that keep their places make a list that does. -/
theorem covers_map (elements : List Json) (f : Json → Json) (h : ∀ m : Json, m.Covers (f m)) :
    (Json.array elements).Covers (.array (elements.map f)) := by
  apply covers_of_child?
  · intro token m hm
    simp only [child?] at hm ⊢
    obtain ⟨n, hn, hm⟩ := Option.bind_eq_some_iff.mp hm
    rw [List.getElem?_map] at hm
    obtain ⟨m', hm', rfl⟩ := Option.map_eq_some_iff.mp hm
    exact ⟨m', by simp [hn, hm'], h m'⟩
  · intro members hm
    cases hm

end Json

/-! ### Conversion -/

namespace ScalarKind

theorem int_of_toInteger? {j k : Json} (h : toInteger? j = some k) : ∃ n, k = .int n := by
  unfold toInteger? at h
  split at h
  · exact ⟨_, (Option.some.inj h).symm⟩
  · obtain ⟨n, -, rfl⟩ := Option.map_eq_some_iff.mp h
    exact ⟨n, rfl⟩
  · cases h

/-- A conversion to a number makes one. -/
theorem number_of_toNumber? {j k : Json} (h : toNumber? j = some k) :
    (∃ n, k = .int n) ∨ ∃ x, k = .float x := by
  unfold toNumber? at h
  split at h
  · exact .inl ⟨_, (Option.some.inj h).symm⟩
  · exact .inr ⟨_, (Option.some.inj h).symm⟩
  · simp only at h
    split at h
    · exact .inl ⟨_, (Option.some.inj h).symm⟩
    · obtain ⟨x, -, rfl⟩ := Option.map_eq_some_iff.mp h
      exact .inr ⟨x, rfl⟩
  · cases h

theorem bool_of_toBoolean? {j k : Json} (h : toBoolean? j = some k) : ∃ b, k = .bool b := by
  unfold toBoolean? at h
  grind

theorem toText_leaf (j : Json) : (toText j).isLeaf = true := by
  cases j <;> rfl

/-- A converted scalar is the value itself or no container. -/
theorem coerce?_leaf {kind : ScalarKind} {j k : Json} (h : kind.coerce? j = some k) :
    k = j ∨ k.isLeaf = true := by
  have ofString : ∀ {f : String → Option String},
      (j.string?.bind f).map Json.string = some k → k.isLeaf = true := by
    intro f hf
    obtain ⟨s, -, rfl⟩ := Option.map_eq_some_iff.mp hf
    rfl
  have ofSelf : ∀ {test : String → Bool},
      (j.string?.bind fun s => if test s then some j else none) = some k → k = j := by
    intro test hf
    obtain ⟨s, -, hs⟩ := Option.bind_eq_some_iff.mp hf
    split at hs <;> cases hs
    rfl
  unfold coerce? at h
  split at h
  · cases h
  cases kind with
  | string =>
    obtain rfl := Option.some.inj h
    exact .inr (toText_leaf j)
  | integer =>
    obtain ⟨n, rfl⟩ := int_of_toInteger? h
    exact .inr rfl
  | float | decimal =>
    obtain ⟨n, rfl⟩ | ⟨x, rfl⟩ := number_of_toNumber? h
    · exact .inr rfl
    · exact .inr rfl
  | boolean =>
    obtain ⟨b, rfl⟩ := bool_of_toBoolean? h
    exact .inr rfl
  | date | uuid => exact .inl (ofSelf h)
  | datetime | time => exact .inr (ofString h)
  | unknown => exact .inl (Option.some.inj h).symm

end ScalarKind

namespace Coercion

/-- A converter that puts at most scalars in the place of values. -/
def Keeps (next : Converter) : Prop := ∀ (d : Definition) (j : Json), j.Covers (next d j)

variable {next afterNext : Converter}

theorem covers_getD {j : Json} {o : Option Json} (h : ∀ k, o = some k → j.Covers k) :
    j.Covers (o.getD j) := by
  cases o with
  | none => exact .refl j
  | some k => exact h k rfl

theorem covers_coerce? {kind : ScalarKind} {j k : Json} (h : kind.coerce? j = some k) :
    j.Covers k := by
  rcases ScalarKind.coerce?_leaf h with rfl | hk
  · exact .refl k
  · exact Json.covers_leaf j hk

/-- Members that keep their places make an object that does. -/
theorem covers_object (case : KeyCase) (hn : Keeps next) (shape : List Field) (j : Json) :
    j.Covers (object case next shape j) := by
  cases j with
  | object members =>
    simp only [object]
    induction shape generalizing members with
    | nil => exact .refl _
    | cons f rest ih =>
      exact (Json.covers_modify members (f.wireName case) _ (hn f.definition)).trans (ih _)
  | _ => exact .refl _

theorem covers_array {convert : Json → Json} (h : ∀ j : Json, j.Covers (convert j)) (j : Json) :
    j.Covers (array convert j) := by
  cases j with
  | array elements => exact Json.covers_map elements convert h
  | _ => exact .refl _

theorem covers_firstAccepted? (c : Context) (hn : Keeps next) {j k : Json}
    {variants : List Variant} (h : firstAccepted? c next j variants = some k) : j.Covers k := by
  induction variants with
  | nil => cases h
  | cons variant rest ih =>
    simp only [firstAccepted?] at h
    split at h
    · cases h
      exact hn variant.definition j
    · exact ih h

theorem covers_untaggedUnion (c : Context) (hn : Keeps next) (variants : List Variant) (j : Json) :
    j.Covers (untaggedUnion c next variants j) := by
  unfold untaggedUnion
  simp only
  split
  · rename_i b hb
    split at hb
    · exact covers_coerce? hb
    · cases hb
  · exact covers_getD fun k => covers_firstAccepted? c hn

/-- One step keeps the places if the converters below do. -/
theorem keeps_step (c : Context) (hn : Keeps next) (ha : Keeps afterNext) :
    Keeps (step c next afterNext) := by
  intro d j
  unfold step
  split
  · exact .refl j
  cases d.kind with
  | reference target =>
    simp only
    cases c.view.definition? target with
    | none => exact .refl j
    | some definition => exact hn definition j
  | object shape => exact covers_object c.case hn shape j
  | array items =>
    cases items with
    | of element => exact covers_array (hn element) j
    | shape fields => exact covers_array (covers_object c.case ha fields) j
  | union discriminator variants =>
    cases discriminator with
    | some key =>
      simp only
      cases Variant.chosenBy? variants (c.case.apply key) j with
      | none => exact .refl j
      | some variant => exact hn variant.definition j
    | none => exact covers_untaggedUnion c hn variants j
  | literal value =>
    refine covers_getD fun k hk => ?_
    obtain ⟨kind, -, hk⟩ := Option.bind_eq_some_iff.mp hk
    exact covers_coerce? hk
  | scalar kind => exact covers_getD fun k => covers_coerce?

theorem keeps_convert (c : Context) (n : Nat) : Keeps (convert c n) :=
  convert_induction c (fun _ j => .refl j) (fun _ _ => keeps_step c) n

end Coercion

end ApiContract
