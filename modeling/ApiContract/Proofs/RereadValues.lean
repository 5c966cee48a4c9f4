import ApiContract.Json.Reread
import ApiContract.Proofs.KeyOrder
import ApiContract.Proofs.WholeNumberTexts

/-!
# What reading again keeps

A value that is printed and read again differs from itself in numbers at most, so that whatever goes
by keys, texts and positions finds the same in both. Whole numbers of 64 bits are read as they are:
a value without fractions comes back unchanged.
-/

namespace ApiContract

theorem Keyed.get?_mapValues {α β : Type} (f : α → β) (t : Keyed α) (key : String) :
    get? (mapValues f t) key = (get? t key).map f := by
  induction t with
  | nil => rfl
  | cons p rest ih =>
    have step : mapValues f (p :: rest) = (p.1, f p.2) :: mapValues f rest := rfl
    rw [step, get?_cons, get?_cons, ih]
    split <;> rfl

namespace Json

/-! ### Part by part -/

variable {n : Nat} {j k : Json}

/-- Each member is read again under its own key. -/
theorem get?_rereadMembers? {ms ns : Keyed Json} (h : rereadMembers? n ms = some ns)
    (key : String) : Keyed.get? ns key = (Keyed.get? ms key).bind (reread? n) := by
  induction ms generalizing ns with
  | nil =>
    cases h
    rfl
  | cons p ms ih =>
    obtain ⟨k, x⟩ := p
    obtain ⟨y, hx, h⟩ := Option.bind_eq_some_iff.mp h
    obtain ⟨ns', hms, h⟩ := Option.bind_eq_some_iff.mp h
    cases h
    rw [Keyed.get?_cons, Keyed.get?_cons, ih hms]
    split
    · exact hx.symm
    · rfl

/-- If all members can be read again, each of them can. -/
theorem exists_reread_of_get? {ms ns : Keyed Json} (h : rereadMembers? n ms = some ns)
    {key : String} {x : Json} (hx : Keyed.get? ms key = some x) :
    ∃ y, reread? n x = some y ∧ Keyed.get? ns key = some y := by
  have same := get?_rereadMembers? h key
  rw [hx, Option.bind_some] at same
  suffices some : (reread? n x).isSome by
    obtain ⟨y, hy⟩ := Option.isSome_iff_exists.mp some
    exact ⟨y, hy, same.trans hy⟩
  clear same
  induction ms generalizing ns with
  | nil => cases hx
  | cons p ms ih =>
    obtain ⟨k, x'⟩ := p
    obtain ⟨y, hx', h⟩ := Option.bind_eq_some_iff.mp h
    obtain ⟨ns', hms, -⟩ := Option.bind_eq_some_iff.mp h
    rw [Keyed.get?_cons] at hx
    split at hx
    · cases hx
      rw [hx']
      rfl
    · exact ih hms hx

theorem reread?_array_eq_some {xs : List Json} (h : reread? n (array xs) = some k) :
    ∃ m ys, n = m + 1 ∧ rereadElements? m xs = some ys ∧ k = array ys := by
  cases n with
  | zero => cases h
  | succ m =>
    obtain ⟨ys, hys, rfl⟩ := Option.map_eq_some_iff.mp h
    exact ⟨m, ys, rfl, hys, rfl⟩

theorem reread?_object_eq_some {ms : List (String × Json)} (h : reread? n (object ms) = some k) :
    ∃ m ns, n = m + 1 ∧ rereadMembers? m ms = some ns ∧ k = object ns := by
  cases n with
  | zero => cases h
  | succ m =>
    obtain ⟨ns, hns, rfl⟩ := Option.map_eq_some_iff.mp h
    exact ⟨m, ns, rfl, hns, rfl⟩

/-! ### Numbers taken out -/

mutual

/-- The value with zero for each of its numbers. -/
def outline : Json → Json
  | int _ | float _ => int 0
  | array xs => array (outlineElements xs)
  | object ms => object (outlineMembers ms)
  | j => j

def outlineElements : List Json → List Json
  | [] => []
  | x :: xs => outline x :: outlineElements xs

def outlineMembers : List (String × Json) → List (String × Json)
  | [] => []
  | (key, x) :: ms => (key, outline x) :: outlineMembers ms

end

theorem outlineElements_eq (xs : List Json) : outlineElements xs = xs.map outline := by
  induction xs with
  | nil => rfl
  | cons x xs ih => rw [outlineElements, ih, List.map_cons]

theorem outlineMembers_eq (ms : List (String × Json)) :
    outlineMembers ms = Keyed.mapValues outline ms := by
  induction ms with
  | nil => rfl
  | cons p ms ih =>
    rw [outlineMembers, ih]
    rfl

theorem outline_of_readAsNumber? {text : String} (h : readAsNumber? text = some k) :
    k.outline = int 0 := by
  rw [readAsNumber?] at h
  split at h
  · rename_i v read
    cases h
    rcases number_of_readNumber read with ⟨n, rfl⟩ | ⟨x, rfl⟩ <;> rfl
  · cases h

mutual

/-- Reading again changes nothing but numbers. -/
theorem outline_of_reread? : (n : Nat) → (j : Json) → {k : Json} → reread? n j = some k →
    k.outline = j.outline
  | _, null, _, h | _, bool _, _, h | _, string _, _, h => by
    cases h
    rfl
  | _, int _, _, h | _, float _, _, h => outline_of_readAsNumber? h
  | n, array xs, _, h => by
    obtain ⟨m, ys, -, hys, rfl⟩ := reread?_array_eq_some h
    rw [outline, outline, outline_of_rereadElements? m xs hys]
  | n, object ms, _, h => by
    obtain ⟨m, ns, -, hns, rfl⟩ := reread?_object_eq_some h
    rw [outline, outline, outline_of_rereadMembers? m ms hns]

theorem outline_of_rereadElements? : (n : Nat) → (xs : List Json) → {ys : List Json} →
    rereadElements? n xs = some ys → outlineElements ys = outlineElements xs
  | _, [], _, h => by
    cases h
    rfl
  | n, x :: xs, _, h => by
    obtain ⟨y, hx, h⟩ := Option.bind_eq_some_iff.mp h
    obtain ⟨ys, hxs, h⟩ := Option.bind_eq_some_iff.mp h
    cases h
    rw [outlineElements, outlineElements, outline_of_reread? n x hx,
      outline_of_rereadElements? n xs hxs]

theorem outline_of_rereadMembers? : (n : Nat) → (ms : List (String × Json)) →
    {ns : List (String × Json)} → rereadMembers? n ms = some ns →
      outlineMembers ns = outlineMembers ms
  | _, [], _, h => by
    cases h
    rfl
  | n, (key, x) :: ms, _, h => by
    obtain ⟨y, hx, h⟩ := Option.bind_eq_some_iff.mp h
    obtain ⟨ns, hms, h⟩ := Option.bind_eq_some_iff.mp h
    cases h
    rw [outlineMembers, outlineMembers, outline_of_reread? n x hx,
      outline_of_rereadMembers? n ms hms]

end

/-! ### What goes by the outline -/

theorem child?_outline (j : Json) (token : String) :
    j.outline.child? token = (j.child? token).map outline := by
  cases j with
  | array xs =>
    rw [outline, outlineElements_eq, child?, child?]
    cases Pointer.index? token <;> simp
  | object ms => rw [outline, outlineMembers_eq, child?, child?, Keyed.get?_mapValues]
  | _ => rfl

/-- A way through a value is one through its outline. -/
theorem follow?_outline (j : Json) (tokens : List String) :
    j.outline.follow? tokens = (j.follow? tokens).map outline := by
  induction tokens generalizing j with
  | nil => rfl
  | cons token tokens ih =>
    rw [follow?_cons, follow?_cons, child?_outline]
    cases j.child? token with
    | none => rfl
    | some m => exact ih m

theorem get?_outline (j : Json) (key : String) :
    j.outline.get? key = (j.get? key).map outline := by
  cases j with
  | object ms => rw [outline, outlineMembers_eq, get?, get?, Keyed.get?_mapValues]
  | _ => rfl

theorem get?_of_outline (same : j.outline = k.outline) {key : String} {x : Json}
    (h : j.get? key = some x) : ∃ y, k.get? key = some y ∧ x.outline = y.outline := by
  have both : (j.get? key).map outline = (k.get? key).map outline := by
    rw [← get?_outline, same, get?_outline]
  rw [h, Option.map_some] at both
  obtain ⟨y, hy, back⟩ := Option.map_eq_some_iff.mp both.symm
  exact ⟨y, hy, back.symm⟩

theorem follow?_of_outline (same : j.outline = k.outline) {tokens : List String} {x : Json}
    (h : j.follow? tokens = some x) : ∃ y, k.follow? tokens = some y ∧ x.outline = y.outline := by
  have both : (j.follow? tokens).map outline = (k.follow? tokens).map outline := by
    rw [← follow?_outline, same, follow?_outline]
  rw [h, Option.map_some] at both
  obtain ⟨y, hy, back⟩ := Option.map_eq_some_iff.mp both.symm
  exact ⟨y, hy, back.symm⟩

theorem eq_string_of_outline {s : String} (h : j.outline = (string s).outline) : j = string s := by
  cases j <;> first | exact h | cases h

theorem eq_array_of_outline {xs : List Json} (h : j.outline = (array xs).outline) :
    ∃ ys, j = array ys ∧ ys.map outline = xs.map outline := by
  cases j with
  | array ys =>
    rw [outline, outline, outlineElements_eq, outlineElements_eq] at h
    exact ⟨ys, rfl, array.inj h⟩
  | _ => cases h

theorem eq_object_of_outline {ms : Keyed Json} (h : j.outline = (object ms).outline) :
    ∃ ns, j = object ns := by
  cases j with
  | object ns => exact ⟨ns, rfl⟩
  | _ => cases h

theorem isNull_outline (j : Json) : j.outline.isNull = j.isNull := by cases j <;> rfl

/-! ### Values that stay as they are -/

mutual

/-- How deep a value may be nested decides whether it is read, not as what. -/
theorem reread?_unique : (n m : Nat) → (j : Json) → {k l : Json} → reread? n j = some k →
    reread? m j = some l → k = l
  | _, _, null, _, _, h, h' | _, _, bool _, _, _, h, h' | _, _, string _, _, _, h, h'
  | _, _, int _, _, _, h, h' | _, _, float _, _, _, h, h' => Option.some.inj (h.symm.trans h')
  | n, m, array xs, _, _, h, h' => by
    obtain ⟨n, ys, -, hys, rfl⟩ := reread?_array_eq_some h
    obtain ⟨m, zs, -, hzs, rfl⟩ := reread?_array_eq_some h'
    rw [rereadElements?_unique n m xs hys hzs]
  | n, m, object ms, _, _, h, h' => by
    obtain ⟨n, ns, -, hns, rfl⟩ := reread?_object_eq_some h
    obtain ⟨m, os, -, hos, rfl⟩ := reread?_object_eq_some h'
    rw [rereadMembers?_unique n m ms hns hos]

theorem rereadElements?_unique : (n m : Nat) → (xs : List Json) → {ys zs : List Json} →
    rereadElements? n xs = some ys → rereadElements? m xs = some zs → ys = zs
  | _, _, [], _, _, h, h' => Option.some.inj (h.symm.trans h')
  | n, m, x :: xs, _, _, h, h' => by
    obtain ⟨y, hy, h⟩ := Option.bind_eq_some_iff.mp h
    obtain ⟨ys, hys, h⟩ := Option.bind_eq_some_iff.mp h
    obtain ⟨z, hz, h'⟩ := Option.bind_eq_some_iff.mp h'
    obtain ⟨zs, hzs, h'⟩ := Option.bind_eq_some_iff.mp h'
    cases h
    cases h'
    rw [reread?_unique n m x hy hz, rereadElements?_unique n m xs hys hzs]

theorem rereadMembers?_unique : (n m : Nat) → (ms : List (String × Json)) →
    {ns os : List (String × Json)} → rereadMembers? n ms = some ns →
      rereadMembers? m ms = some os → ns = os
  | _, _, [], _, _, h, h' => Option.some.inj (h.symm.trans h')
  | n, m, (key, x) :: ms, _, _, h, h' => by
    obtain ⟨y, hy, h⟩ := Option.bind_eq_some_iff.mp h
    obtain ⟨ns, hns, h⟩ := Option.bind_eq_some_iff.mp h
    obtain ⟨z, hz, h'⟩ := Option.bind_eq_some_iff.mp h'
    obtain ⟨os, hos, h'⟩ := Option.bind_eq_some_iff.mp h'
    cases h
    cases h'
    rw [reread?_unique n m x hy hz, rereadMembers?_unique n m ms hns hos]

end

def InRange (n : Int) : Prop := -(signedEnd : Int) ≤ n ∧ n < unsignedEnd

instance (n : Int) : Decidable (InRange n) := by
  unfold InRange
  infer_instance

/-- No number but zero is written with a zero in front. -/
theorem head?_digitsOfNat_ne (m : Nat) (positive : 0 < m) :
    (Decimal.digitsOfNat m).head? ≠ some '0' := by
  have digit : ∀ m < 10, 0 < m → [Nat.digitChar m].head? ≠ some '0' := by decide
  induction m using Nat.strongRecOn with
  | ind m ih =>
    unfold Decimal.digitsOfNat
    by_cases small : m < 10
    · rw [Nat.toDigits_of_lt_base small]
      exact digit m small positive
    · rw [Nat.toDigits_of_base_le (by decide) (Nat.le_of_not_lt small),
        List.head?_append, Option.or_of_isSome (List.isSome_head?.mpr Nat.toDigits_ne_nil)]
      exact ih (m / 10) (by omega) (by omega)

/-- The digits of a number are read to their end. -/
theorem readWhole_digitsOfNat (m : Nat) :
    readWhole (Decimal.digitsOfNat m) = some (Decimal.digitsOfNat m, []) := by
  have digit : ∀ c ∈ Decimal.digitsOfNat m, c.isDigit = true := fun _ =>
    Temporal.isDigit_of_mem_digitsOfNat
  have filled : Decimal.digitsOfNat m ≠ [] := Nat.toDigits_ne_nil
  rw [readWhole, List.takeWhile_eq_self_iff.mpr digit, List.dropWhile_eq_nil_iff.mpr digit, if_neg]
  rintro (none | ⟨long, zero⟩)
  · exact filled (List.isEmpty_iff.mp none)
  · rcases Nat.eq_zero_or_pos m with rfl | positive
    · exact absurd long (by decide)
    · exact head?_digitsOfNat_ne m positive zero

/-- The text of a whole number is read to its end, with its sign. -/
theorem readLiteral_intText (m : Int) : readLiteral (intText m).toList =
    some (⟨decide (m < 0), Decimal.digitsOfNat m.natAbs, none, none⟩, []) := by
  have sign : readMinus (intText m).toList =
      (decide (m < 0), Decimal.digitsOfNat m.natAbs) := by
    obtain ⟨c, rest, hd, minus, -, -⟩ := digitsOfNat_eq_cons m.natAbs
    rw [toList_intText, hd]
    split
    · rename_i negative
      simp [readMinus, negative]
    · rename_i positive
      rw [readMinus]
      · simp [positive]
      · rintro _ h
        exact minus (List.cons.inj h).1
  simp [readLiteral, sign, readWhole_digitsOfNat, readFraction, readExponent]

/-- In the range of 64 bits a number is read as itself. -/
theorem wholeNumber_of_inRange {m : Int} (range : InRange m) :
    wholeNumber (decide (m < 0)) m.natAbs = some (int m) := by
  obtain ⟨low, high⟩ := range
  by_cases negative : m < 0
  · have within : ¬ (m.natAbs = 0 ∨ signedEnd < m.natAbs) := by omega
    rw [wholeNumber, decide_eq_true negative, if_pos rfl, if_neg within]
    congr
    omega
  · have within : m.natAbs < unsignedEnd := by omega
    rw [wholeNumber, decide_eq_false negative, if_neg (by decide), if_pos within]
    congr
    omega

/-- Whole numbers of 64 bits are read as they are. -/
theorem reread?_int {m : Int} (range : InRange m) (n : Nat) :
    reread? n (int m) = some (int m) := by
  have value : (⟨decide (m < 0), Decimal.digitsOfNat m.natAbs, none, none⟩ : NumberLiteral).value? =
      some (int m) := by
    simp [NumberLiteral.value?, Pointer.natOfDigits_digitsOfNat, wholeNumber_of_inRange range]
  have read : readNumber (intText m).toList = some (int m, []) := by
    simp [readNumber, readLiteral_intText, value]
  rw [reread?, readAsNumber?, read]

mutual

/-- A value is nested at most so deep, and has no fractions and no numbers out of range. -/
def isFirm : Nat → Json → Bool
  | _, null | _, bool _ | _, string _ => true
  | _, int m => decide (InRange m)
  | _, float _ | 0, array _ | 0, object _ => false
  | n + 1, array xs => areFirm n xs
  | n + 1, object ms => haveFirm n ms

def areFirm (n : Nat) : List Json → Bool
  | [] => true
  | x :: xs => isFirm n x && areFirm n xs

def haveFirm (n : Nat) : List (String × Json) → Bool
  | [] => true
  | (_, x) :: ms => isFirm n x && haveFirm n ms

end

mutual

/-- Without fractions a value is read as itself. -/
theorem reread?_of_isFirm : (n : Nat) → (j : Json) → isFirm n j = true → reread? n j = some j
  | _, null, _ | _, bool _, _ | _, string _, _ => rfl
  | n, int m, h => by
    rw [isFirm, decide_eq_true_eq] at h
    exact reread?_int h n
  | _, float _, h | 0, array _, h | 0, object _, h => by cases h
  | n + 1, array xs, h => by
    rw [reread?, rereadElements?_of_areFirm n xs h, Option.map_some]
  | n + 1, object ms, h => by
    rw [reread?, rereadMembers?_of_haveFirm n ms h, Option.map_some]

theorem rereadElements?_of_areFirm : (n : Nat) → (xs : List Json) → areFirm n xs = true →
    rereadElements? n xs = some xs
  | _, [], _ => rfl
  | n, x :: xs, h => by
    obtain ⟨first, rest⟩ := Bool.and_eq_true_iff.mp h
    rw [rereadElements?, reread?_of_isFirm n x first, rereadElements?_of_areFirm n xs rest]
    rfl

theorem rereadMembers?_of_haveFirm : (n : Nat) → (ms : List (String × Json)) →
    haveFirm n ms = true → rereadMembers? n ms = some ms
  | _, [], _ => rfl
  | n, (key, x) :: ms, h => by
    obtain ⟨first, rest⟩ := Bool.and_eq_true_iff.mp h
    rw [rereadMembers?, reread?_of_isFirm n x first, rereadMembers?_of_haveFirm n ms rest]
    rfl

end

theorem eq_of_isFirm {m n : Nat} {j k : Json} (firm : isFirm m j = true)
    (h : reread? n j = some k) : k = j :=
  reread?_unique n m j h (reread?_of_isFirm m j firm)

theorem areFirm_append (n : Nat) (xs ys : List Json) :
    areFirm n (xs ++ ys) = (areFirm n xs && areFirm n ys) := by
  induction xs with
  | nil => rfl
  | cons x xs ih => rw [List.cons_append, areFirm, areFirm, ih, Bool.and_assoc]

theorem areFirm_strings (n : Nat) (values : List String) :
    areFirm n (values.map string) = true := by
  induction values with
  | nil => rfl
  | cons s values ih => rw [List.map_cons, areFirm, isFirm, ih, Bool.and_self]

end Json

end ApiContract
