import ApiContract.Proofs.WrittenMembers
import Mathlib.Data.List.Forall2

/-!
# Definitions that are the same as values

A type may be registered again with a definition that is the same as a value. What is written alike
says alike: the kind, the fields and their names, what is referred to, and what an element may be.
-/

namespace ApiContract

/-! ### Members -/

theorem Binary64.sameValue_of_left {x y z : Binary64} (h : x.sameValue y = true)
    (h' : x.sameValue z = true) : y.sameValue z = true := by
  simp only [sameValue, Bool.and_eq_true, Bool.or_eq_true, beq_iff_eq] at h h' ⊢
  obtain ⟨⟨s, e⟩, sign⟩ := h
  obtain ⟨⟨s', e'⟩, sign'⟩ := h'
  refine ⟨⟨s.symm.trans s', e.symm.trans e'⟩, ?_⟩
  rcases sign with zero | sign
  · exact .inl (s.symm.trans zero)
  · exact sign'.imp (s.symm.trans ·) (sign.symm.trans ·)

namespace Json

mutual

/-- Two values that one value is the same as are the same. -/
theorem sameValue_of_left : {x y z : Json} → x.sameValue y = true → x.sameValue z = true →
    y.sameValue z = true
  | null, y, z, h, h' => by
    cases y <;> cases z <;> simp_all [sameValue]
  | bool b, y, z, h, h' => by
    cases y <;> cases z <;> simp_all [sameValue]
  | int i, y, z, h, h' => by
    cases y <;> cases z <;> simp_all [sameValue]
  | string s, y, z, h, h' => by
    cases y <;> cases z <;> simp_all [sameValue]
  | float a, y, z, h, h' => by
    cases y <;> cases z <;> simp only [sameValue, Bool.false_eq_true] at h h' ⊢
    exact Binary64.sameValue_of_left h h'
  | array xs, y, z, h, h' => by
    cases y <;> cases z <;> simp only [sameValue, Bool.false_eq_true] at h h' ⊢
    exact sameElements_of_left h h'
  | object ms, y, z, h, h' => by
    cases y <;> cases z <;> simp only [sameValue, Bool.false_eq_true] at h h' ⊢
    exact sameMembers_of_left h h'

theorem sameElements_of_left : {xs ys zs : List Json} → sameElements xs ys = true →
    sameElements xs zs = true → sameElements ys zs = true
  | [], [], [], _, _ => rfl
  | x :: xs, y :: ys, z :: zs, h, h' => by
    simp only [sameElements, Bool.and_eq_true] at h h' ⊢
    exact ⟨sameValue_of_left h.1 h'.1, sameElements_of_left h.2 h'.2⟩

theorem sameMembers_of_left : {ms ns os : List (String × Json)} → sameMembers ms ns = true →
    sameMembers ms os = true → sameMembers ns os = true
  | [], [], [], _, _ => rfl
  | (k, x) :: ms, (l, y) :: ns, (m, z) :: os, h, h' => by
    simp only [sameMembers, Bool.and_eq_true, beq_iff_eq] at h h' ⊢
    exact ⟨⟨h.1.1.symm.trans h'.1.1, sameValue_of_left h.1.2 h'.1.2⟩,
      sameMembers_of_left h.2 h'.2⟩

end

theorem eq_string_of_sameValue {j : Json} {s : String} (h : j.sameValue (.string s) = true) :
    j = .string s := by
  cases j <;> simp_all [sameValue]

/-- Lists that are equal as values are so element by element. -/
theorem forall₂_of_sameElements {xs ys : List Json} (h : sameElements xs ys = true) :
    List.Forall₂ (fun x y => x.sameValue y = true) xs ys := by
  induction xs generalizing ys with
  | nil =>
    cases ys with
    | nil => exact .nil
    | cons y ys => simp [sameElements] at h
  | cons x xs ih =>
    cases ys with
    | nil => simp [sameElements] at h
    | cons y ys =>
      rw [sameElements, Bool.and_eq_true] at h
      exact .cons h.1 (ih h.2)

variable {ms ns : Keyed Json} {key : String}

/-- Of two objects with the same members, one has a member where the other has the same one. -/
theorem get?_of_sameMembers (h : sameMembers ms ns = true) (key : String) :
    Option.Rel (fun i j => i.sameValue j = true) (ms.get? key) (ns.get? key) := by
  induction ms generalizing ns with
  | nil =>
    cases ns with
    | nil => exact .none
    | cons q ns => simp [sameMembers] at h
  | cons p ms ih =>
    cases ns with
    | nil => simp [sameMembers] at h
    | cons q ns =>
      obtain ⟨k, i⟩ := p
      obtain ⟨l, j⟩ := q
      simp only [sameMembers, Bool.and_eq_true, beq_iff_eq] at h
      obtain ⟨⟨rfl, same⟩, rest⟩ := h
      rw [Keyed.get?_cons, Keyed.get?_cons]
      split
      · exact .some same
      · exact ih rest

theorem exists_get?_of_sameMembers (h : sameMembers ms ns = true) {j : Json}
    (hj : ns.get? key = some j) : ∃ i, ms.get? key = some i ∧ i.sameValue j = true := by
  have same := get?_of_sameMembers h key
  rw [hj] at same
  generalize ms.get? key = found at same
  cases same with
  | some same => exact ⟨_, rfl, same⟩

theorem string_of_sameMembers (h : sameMembers ms ns = true) {s : String}
    (hs : ns.get? key = some (.string s)) : ms.get? key = some (.string s) := by
  obtain ⟨i, hi, same⟩ := exists_get?_of_sameMembers h hs
  rw [hi, eq_string_of_sameValue same]

theorem none_of_sameMembers (h : sameMembers ms ns = true) (hn : ns.get? key = none) :
    ms.get? key = none := by
  have same := get?_of_sameMembers h key
  rw [hn] at same
  generalize ms.get? key = found at same ⊢
  cases same
  rfl

theorem text_of_sameMembers (h : sameMembers ms ns = true) {a b : Option String}
    (ha : ms.get? key = a.map .string) (hb : ns.get? key = b.map .string) : a = b := by
  have same := get?_of_sameMembers h key
  rw [ha, hb] at same
  cases a <;> cases b <;> first | rfl | cases same
  simp_all [sameValue]

/-- A flag is written just if it is set. -/
theorem flag_of_sameMembers {x y : Bool}
    (h : sameMembers ms ns = true)
    (hx : ms.get? key = if x = true then some (.bool true) else none)
    (hy : ns.get? key = if y = true then some (.bool true) else none) : x = y := by
  have alike := get?_of_sameMembers h key
  rw [hx, hy] at alike
  cases x <;> cases y <;> first | rfl | cases alike

end Json

/-! ### Definitions -/

/-- Two definitions are written alike, perhaps beside other members. -/
def Definition.Alike (d e : Definition) : Prop :=
  ∃ ms ns, d.WrittenIn ms ∧ e.WrittenIn ns ∧ Json.sameMembers ms ns = true

structure Variant.Alike (v w : Variant) : Prop where
  tag : v.tag = w.tag
  definition : v.definition.Alike w.definition

structure Field.Alike (f g : Field) : Prop where
  name : f.name = g.name
  rename : f.rename = g.rename
  definition : f.definition.Alike g.definition

theorem Definition.sameValue_of_left {d e f : Definition} (h : d.sameValue e = true)
    (h' : d.sameValue f = true) : e.sameValue f = true := Json.sameValue_of_left h h'

theorem Definition.alike_of_sameValue {d e : Definition} (h : d.sameValue e = true) : d.Alike e :=
  ⟨_, _, d.writtenIn_members, e.writtenIn_members, h⟩

/-- What is in one of two related lists is related to something in the other. -/
theorem exists_of_forall₂ {α β : Type} {R : α → β → Prop} {xs : List α} {ys : List β}
    (h : List.Forall₂ R xs ys) {x : α} (hx : x ∈ xs) : ∃ y ∈ ys, R x y := by
  induction h with
  | nil => cases hx
  | cons related _ ih =>
    rcases List.mem_cons.mp hx with rfl | hx
    · exact ⟨_, List.mem_cons_self, related⟩
    · obtain ⟨y, hy, related⟩ := ih hx
      exact ⟨y, List.mem_cons_of_mem _ hy, related⟩

namespace Field

variable {f g : Field} {fs gs : List Field}

theorem alike_of_sameValue (h : f.toJson.sameValue g.toJson = true) : f.Alike g := by
  have same : Json.sameMembers f.members g.members = true := h
  refine ⟨?_, Json.text_of_sameMembers same f.get?_rename g.get?_rename,
    _, _, f.writtenIn_members, g.writtenIn_members, same⟩
  have name := Json.string_of_sameMembers same g.get?_name
  rw [f.get?_name] at name
  exact Json.string.inj (Option.some.inj name)

theorem listToJson_eq_map (fs : List Field) : listToJson fs = fs.map toJson := by
  induction fs with
  | nil => rfl
  | cons f rest ih =>
    obtain ⟨name, rename, definition⟩ := f
    rw [listToJson, List.map_cons, ih]
    rfl

/-- Lists of fields that are written as the same lists are alike. -/
theorem forall₂_alike
    (h : List.Forall₂ (fun x y => x.sameValue y = true) (listToJson fs) (listToJson gs)) :
    List.Forall₂ Alike fs gs := by
  rw [listToJson_eq_map, listToJson_eq_map, List.forall₂_map_left_iff,
    List.forall₂_map_right_iff] at h
  exact h.imp fun f g => alike_of_sameValue

/-- Where one of two lists that are alike has a field of some name first, so has the other. -/
theorem exists_find?_of_alike {key : String} (h : List.Forall₂ Alike fs gs)
    (hg : gs.find? (·.name == key) = some g) :
    ∃ f, fs.find? (·.name == key) = some f ∧ f.Alike g := by
  induction h with
  | nil => cases hg
  | @cons f g' fs gs alike _ ih =>
    rw [List.find?_cons] at hg ⊢
    rw [alike.name]
    cases named : g'.name == key with
    | true =>
      rw [named] at hg
      cases hg
      exact ⟨f, rfl, alike⟩
    | false =>
      rw [named] at hg
      exact ih hg

end Field

namespace Variant

theorem alike_of_sameValue {v w : Variant} (h : v.toJson.sameValue w.toJson = true) :
    v.Alike w := by
  have same : Json.sameMembers v.members w.members = true := h
  exact ⟨Json.text_of_sameMembers same v.get?_tag w.get?_tag,
    _, _, v.writtenIn_members, w.writtenIn_members, same⟩

theorem listToJson_eq_map (vs : List Variant) : listToJson vs = vs.map toJson := by
  induction vs with
  | nil => rfl
  | cons v rest ih =>
    obtain ⟨tag, definition⟩ := v
    rw [listToJson, List.map_cons, ih]
    rfl

/-- Lists of variants that are written as the same lists are alike. -/
theorem forall₂_alike {vs ws : List Variant}
    (h : List.Forall₂ (fun x y => x.sameValue y = true) (listToJson vs) (listToJson ws)) :
    List.Forall₂ Alike vs ws := by
  rw [listToJson_eq_map, listToJson_eq_map, List.forall₂_map_left_iff,
    List.forall₂_map_right_iff] at h
  exact h.imp fun v w => alike_of_sameValue

end Variant

/-- Two kinds are of one sort: the same scalars, or what a constructor makes of anything. -/
inductive Kind.Akin : Kind → Kind → Prop where
  | scalar (kind : ScalarKind) : Akin (.scalar kind) (.scalar kind)
  | array (items items' : Items) : Akin (.array items) (.array items')
  | object (shape shape' : List Field) : Akin (.object shape) (.object shape')
  | union (key key' : Option String) (variants variants' : List Variant) :
    Akin (.union key variants) (.union key' variants')
  | reference (target target' : String) : Akin (.reference target) (.reference target')
  | literal (value value' : Json) : Akin (.literal value) (.literal value')

/-- The name of a kind tells its sort. -/
theorem Kind.akin_of_name {k l : Kind} (h : k.name = l.name) : k.Akin l := by
  have scalar {kind : ScalarKind} {name : String} (hn : kind.name = name) :
      name ∈ ScalarKind.all.map ScalarKind.name := by
    subst hn
    cases kind <;> decide
  cases k with
  | scalar a =>
    cases l with
    | scalar b =>
      have same : some a = some b := by
        rw [← ScalarKind.ofName?_name a, ← ScalarKind.ofName?_name b]
        exact congrArg ScalarKind.ofName? h
      cases same
      exact .scalar a
    | _ => exact absurd (scalar h) (by simp only [Kind.name]; decide)
  | _ =>
    cases l with
    | scalar b => exact absurd (scalar h.symm) (by simp only [Kind.name]; decide)
    | _ => first | constructor | exact absurd h (by simp [Kind.name])

def Kind.Alike (k l : Kind) : Prop :=
  ∃ ms ns, k.WrittenIn ms ∧ l.WrittenIn ns ∧ Json.sameMembers ms ns = true

namespace Kind.Alike

variable {k l : Kind}

theorem akin (h : k.Alike l) : k.Akin l := by
  obtain ⟨ms, ns, hk, hl, same⟩ := h
  have type := Json.string_of_sameMembers same hl.type
  rw [hk.type] at type
  exact Kind.akin_of_name (Json.string.inj (Option.some.inj type))

theorem eq_scalar {kind : ScalarKind} (h : k.Alike (.scalar kind)) : k = .scalar kind := by
  cases h.akin
  rfl

/-- What equals a reference as a value is that reference. -/
theorem eq_reference {target : String} (h : k.Alike (.reference target)) :
    k = .reference target := by
  have akin := h.akin
  obtain ⟨ms, ns, hk, hl, same⟩ := h
  cases akin with
  | reference other =>
    have named := Json.string_of_sameMembers same hl.2
    rw [hk.2] at named
    cases named
    rfl

theorem eq_literal {value : Json} (h : k.Alike (.literal value)) :
    ∃ other, k = .literal other ∧ other.sameValue value = true := by
  have akin := h.akin
  obtain ⟨ms, ns, hk, hl, same⟩ := h
  cases akin with
  | literal other =>
    obtain ⟨i, hi, alike⟩ := Json.exists_get?_of_sameMembers same hl.2
    obtain rfl := Option.some.inj (hk.2.symm.trans hi)
    exact ⟨_, rfl, alike⟩

theorem eq_object {shape : List Field} (h : k.Alike (.object shape)) :
    ∃ other, k = .object other ∧ List.Forall₂ Field.Alike other shape := by
  have akin := h.akin
  obtain ⟨ms, ns, hk, hl, same⟩ := h
  cases akin with
  | object other =>
    obtain ⟨i, hi, alike⟩ := Json.exists_get?_of_sameMembers same hl.2
    obtain rfl := Option.some.inj (hk.2.symm.trans hi)
    exact ⟨_, rfl, Field.forall₂_alike (Json.forall₂_of_sameElements alike)⟩

/-- What equals a list as a value is a list of equal elements. -/
theorem eq_arrayOf {element : Definition} (h : k.Alike (.array (.of element))) :
    ∃ other, k = .array (.of other) ∧ other.Alike element := by
  have akin := h.akin
  obtain ⟨ms, ns, hk, hl, same⟩ := h
  cases akin with
  | array items =>
    obtain ⟨i, hi, alike⟩ := Json.exists_get?_of_sameMembers same hl.2
    obtain rfl := Option.some.inj (hk.2.symm.trans hi)
    cases items with
    | of other =>
      simp only [Items.toJson, Json.sameValue, Json.sameMembers, Bool.and_true, BEq.rfl,
        Bool.true_and] at alike
      exact ⟨other, rfl, Definition.alike_of_sameValue alike⟩
    | shape fields => simp [Items.toJson, Json.sameValue, Json.sameMembers] at alike

/-- What equals a union as a value has equal variants under the same discriminator. -/
theorem eq_union {key : Option String} {variants : List Variant}
    (h : k.Alike (.union key variants)) :
    ∃ others, k = .union key others ∧ List.Forall₂ Variant.Alike others variants := by
  have akin := h.akin
  obtain ⟨ms, ns, hk, hl, same⟩ := h
  cases akin with
  | union key' _ others =>
    obtain ⟨i, hi, alike⟩ := Json.exists_get?_of_sameMembers same hl.2.1
    obtain rfl := Option.some.inj (hk.2.1.symm.trans hi)
    obtain rfl := Json.text_of_sameMembers same hk.2.2 hl.2.2
    exact ⟨_, rfl, Variant.forall₂_alike (Json.forall₂_of_sameElements alike)⟩

end Kind.Alike

namespace Definition.Alike

variable {d e : Definition}

theorem kind (h : d.Alike e) : d.kind.Alike e.kind := by
  obtain ⟨ms, ns, hd, he, same⟩ := h
  exact ⟨ms, ns, hd.kind, he.kind, same⟩

theorem min (h : d.Alike e) (he : e.min = none) : d.min = none := by
  obtain ⟨ms, ns, hd, hn, same⟩ := h
  have bound := hn.min
  rw [he] at bound
  exact Option.map_eq_none_iff.mp (hd.min.symm.trans (Json.none_of_sameMembers same bound))

theorem max (h : d.Alike e) (he : e.max = none) : d.max = none := by
  obtain ⟨ms, ns, hd, hn, same⟩ := h
  have bound := hn.max
  rw [he] at bound
  exact Option.map_eq_none_iff.mp (hd.max.symm.trans (Json.none_of_sameMembers same bound))

theorem nullable (h : d.Alike e) : d.nullable = e.nullable := by
  obtain ⟨ms, ns, hd, he, same⟩ := h
  exact Json.flag_of_sameMembers same hd.nullable he.nullable

theorem optional (h : d.Alike e) : d.optional = e.optional := by
  obtain ⟨ms, ns, hd, he, same⟩ := h
  exact Json.flag_of_sameMembers same hd.optional he.optional

theorem default?_none (h : d.Alike e) (he : e.default? = none) : d.default? = none := by
  obtain ⟨ms, ns, hd, hn, same⟩ := h
  rw [← hd.default?]
  exact Json.none_of_sameMembers same (hn.default?.trans he)

end Definition.Alike

end ApiContract
