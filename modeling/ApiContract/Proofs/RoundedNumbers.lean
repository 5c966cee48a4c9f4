import ApiContract.Number.Binary64
import Mathlib.Algebra.Order.Field.Basic
import Mathlib.Algebra.Order.Field.Power
import Mathlib.Tactic.GCongr
import Mathlib.Tactic.Linarith
import Mathlib.Tactic.NormNum
import Mathlib.Tactic.Ring

/-!
# Rounded numbers

What a double stands for exactly, and how far rounding can be off: no double lies between a fraction
and the double that it is rounded to. So a whole number and a bound compare as their exact values
do, unless the number is rounded to the bound itself.
-/

namespace ApiContract.Binary64

/-! ### Exact values -/

def sign (negative : Bool) : ℚ := if negative then -1 else 1

def magnitude (x : Binary64) : ℚ := x.significand * 2 ^ x.exponent

def toRat (x : Binary64) : ℚ := sign x.negative * x.magnitude

@[simp] theorem sign_false : sign false = 1 := rfl

@[simp] theorem sign_true : sign true = -1 := rfl

variable {x b : Binary64} {negative : Bool} {num den m k : Nat} {e : Int} {q : ℚ}

theorem magnitude_nonneg (x : Binary64) : 0 ≤ x.magnitude := by
  unfold magnitude
  positivity

theorem toRat_eq_or (x : Binary64) : x.toRat = x.magnitude ∨ x.toRat = -x.magnitude := by
  unfold toRat
  cases x.negative with
  | false => exact .inl (one_mul _)
  | true => exact .inr (neg_one_mul _)

/-- Shifting to the left by some places moves the point as many to the right. -/
theorem shiftLeft_mul_zpow (m : Nat) {e e' : Int} (h : e ≤ e') :
    ((m <<< (e' - e).toNat : Nat) : ℚ) * 2 ^ e = m * 2 ^ e' := by
  have places : ((e' - e).toNat : Int) = e' - e := Int.toNat_of_nonneg (by omega)
  rw [Nat.shiftLeft_eq, Nat.cast_mul, Nat.cast_pow, Nat.cast_ofNat, ← zpow_natCast, places,
    mul_assoc, ← zpow_add₀ two_ne_zero, sub_add_cancel]

theorem scaled_mul_zpow (h : e ≤ x.exponent) : (x.scaled e : ℚ) * 2 ^ e = x.toRat := by
  have shifted := shiftLeft_mul_zpow x.significand h
  unfold scaled toRat magnitude
  rw [← shifted]
  cases x.negative with
  | false => rw [if_neg Bool.false_ne_true, Int.cast_natCast, sign_false, one_mul]
  | true => rw [if_pos rfl, Int.cast_neg, Int.cast_natCast, sign_true, neg_mul, neg_one_mul]

/-- Doubles are ordered as the numbers that they stand for. -/
theorem le_iff_toRat_le (x y : Binary64) : x.le y = true ↔ x.toRat ≤ y.toRat := by
  rw [← scaled_mul_zpow (min_le_left x.exponent y.exponent),
    ← scaled_mul_zpow (min_le_right x.exponent y.exponent), mul_le_mul_iff_left₀ (by positivity),
    Int.cast_le]
  simp [le]

theorem lt_eq_false_iff (x y : Binary64) : x.lt y = false ↔ y.toRat ≤ x.toRat := by
  rw [lt, Bool.not_eq_false', le_iff_toRat_le]

/-- A double without a fraction stands for a whole number. -/
theorem toRat_of_toInt? {n : Int} (h : x.toInt? = some n) : x.toRat = n := by
  unfold toInt? at h
  split at h
  · rename_i whole
    cases h
    simpa using (scaled_mul_zpow whole).symm
  · cases h

/-! ### In lowest terms -/

/-- Factors of two move from the significand to the exponent. -/
theorem reduce_mul_zpow (n m : Nat) (e : Int) :
    ((reduce n m e).1 : ℚ) * 2 ^ (reduce n m e).2 = m * 2 ^ e := by
  induction n generalizing m e with
  | zero => rfl
  | succ n ih =>
    unfold reduce
    split
    · rename_i even
      obtain ⟨half, rfl⟩ := Nat.dvd_of_mod_eq_zero even
      rw [ih, Nat.mul_div_cancel_left half (by decide), zpow_add_one₀ two_ne_zero]
      push_cast
      ring
    · rfl

theorem reduce_fst_le (n m : Nat) (e : Int) : (reduce n m e).1 ≤ m := by
  induction n generalizing m e with
  | zero => exact le_rfl
  | succ n ih =>
    unfold reduce
    split
    · exact (ih _ _).trans (Nat.div_le_self m 2)
    · exact le_rfl

theorem le_reduce_snd (n m : Nat) (e : Int) : e ≤ (reduce n m e).2 := by
  induction n generalizing m e with
  | zero => exact le_rfl
  | succ n ih =>
    unfold reduce
    split
    · exact (Int.le_add_one le_rfl).trans (ih _ _)
    · exact le_rfl

/-- Enough divisions leave an odd number. -/
theorem reduce_fst_odd (n m : Nat) (e : Int) (nonzero : m ≠ 0) (few : m < 2 ^ n) :
    (reduce n m e).1 % 2 = 1 := by
  induction n generalizing m e with
  | zero => omega
  | succ n ih =>
    unfold reduce
    split
    · exact ih _ _ (by omega) (by rw [pow_succ] at few; omega)
    · show m % 2 = 1
      omega

/-- A dyadic number is taken as it is. -/
theorem toRat_of_ofDyadic? (h : ofDyadic? negative m e = some x) :
    x.toRat = sign negative * (m * 2 ^ e) := by
  unfold ofDyadic? at h
  by_cases zero : m = 0
  · simp only [zero, if_true] at h
    split at h
    · cases h
      simp [toRat, magnitude, zero]
    · cases h
  · simp only [zero, if_false] at h
    split at h
    · cases h
      rw [toRat, magnitude, reduce_mul_zpow]
    · cases h

/-- A number of 53 bits is a double if it is neither too fine nor too large. -/
theorem exists_ofDyadic? (negative : Bool) (few : m ≤ 2 ^ 53) (coarse : -1074 ≤ e)
    (small : (m : ℚ) * 2 ^ e < 2 ^ (1024 : Int)) : ∃ x, ofDyadic? negative m e = some x := by
  suffices canonical : Canonical (if m = 0 then (0, 0) else reduce (m.log2 + 1) m e).1
      (if m = 0 then (0, 0) else reduce (m.log2 + 1) m e).2 from
    ⟨_, dif_pos canonical⟩
  by_cases zero : m = 0
  · rw [if_pos zero]
    exact .inl ⟨rfl, rfl⟩
  · rw [if_neg zero]
    have odd := reduce_fst_odd (m.log2 + 1) m e zero Nat.lt_log2_self
    have value := reduce_mul_zpow (m.log2 + 1) m e
    have le := reduce_fst_le (m.log2 + 1) m e
    have exponent := le_reduce_snd (m.log2 + 1) m e
    generalize reduce (m.log2 + 1) m e = r at *
    have pos : r.1 ≠ 0 := by omega
    refine .inr ⟨odd, (Nat.log2_lt pos).mpr (by omega), coarse.trans exponent, ?_⟩
    have below : (2 : ℚ) ^ ((r.1.log2 : Int) + r.2) < 2 ^ (1024 : Int) :=
      calc (2 : ℚ) ^ ((r.1.log2 : Int) + r.2) = ((2 ^ r.1.log2 : Nat) : ℚ) * 2 ^ r.2 := by
            rw [zpow_add₀ two_ne_zero, zpow_natCast, Nat.cast_pow, Nat.cast_ofNat]
        _ ≤ r.1 * 2 ^ r.2 := by gcongr; exact Nat.log2_self_le pos
        _ < 2 ^ (1024 : Int) := value ▸ small
    have := (zpow_lt_zpow_iff_right₀ (one_lt_two (α := ℚ))).mp below
    omega

/-! ### Rounding a fraction -/

theorem le_roundDiv (pos : 0 < den) (h : k * den ≤ num) : k ≤ roundDiv num den := by
  have whole : k ≤ num / den := (Nat.le_div_iff_mul_le pos).mpr h
  unfold roundDiv
  dsimp only
  split
  · exact whole
  · split <;> omega

theorem roundDiv_le (pos : 0 < den) (h : num ≤ k * den) : roundDiv num den ≤ k := by
  obtain rfl | below := h.eq_or_lt
  · simp [roundDiv, Nat.mul_div_cancel k pos, pos]
  · have whole : num / den < k := (Nat.div_lt_iff_lt_mul pos).mpr below
    unfold roundDiv
    dsimp only
    split
    · omega
    · split <;> omega

theorem scaleDown_snd_pos (num : Nat) (pos : 0 < den) (e : Int) : 0 < (scaleDown num den e).2 := by
  unfold scaleDown
  split
  · exact Nat.shiftLeft_eq .. ▸ Nat.mul_pos pos (Nat.two_pow_pos _)
  · exact pos

/-- Scaling is dividing by a power of two, whichever side it is put on. -/
theorem scaleDown_eq_div (num : Nat) (pos : 0 < den) (e : Int) :
    ((scaleDown num den e).1 : ℚ) / (scaleDown num den e).2 = num / den / 2 ^ e := by
  have denominator : (den : ℚ) ≠ 0 := Nat.cast_ne_zero.mpr pos.ne'
  unfold scaleDown
  split
  · rename_i up
    have shifted := shiftLeft_mul_zpow den up
    rw [zpow_zero, mul_one, sub_zero] at shifted
    rw [shifted, div_div]
  · rename_i down
    have shifted := shiftLeft_mul_zpow num (show (0 : Int) ≤ -e by omega)
    rw [zpow_zero, mul_one, sub_zero, zpow_neg] at shifted
    rw [shifted, div_right_comm, div_eq_mul_inv (num : ℚ)]

/-- A positive fraction lies between two powers of two. -/
theorem binade_spec (nonzero : num ≠ 0) (pos : 0 < den) :
    (2 : ℚ) ^ binade num den ≤ num / den ∧ (num : ℚ) / den < 2 ^ (binade num den + 1) := by
  have denominator : (0 : ℚ) < den := Nat.cast_pos.mpr pos
  have guessed : 1 ≤ (num : ℚ) / den / 2 ^ ((num.log2 : Int) - den.log2) ↔
      (scaleDown num den (num.log2 - den.log2)).2 ≤
        (scaleDown num den (num.log2 - den.log2)).1 := by
    rw [← scaleDown_eq_div num pos,
      one_le_div (Nat.cast_pos.mpr (scaleDown_snd_pos num pos _)), Nat.cast_le]
  rw [one_le_div (by positivity)] at guessed
  have numLow : (2 : ℚ) ^ (num.log2 : Int) ≤ num := by
    exact_mod_cast Nat.log2_self_le nonzero
  have numHigh : (num : ℚ) < 2 ^ ((num.log2 : Int) + 1) := by
    exact_mod_cast Nat.lt_log2_self (n := num)
  have denLow : (2 : ℚ) ^ (den.log2 : Int) ≤ den := by
    exact_mod_cast Nat.log2_self_le pos.ne'
  have denHigh : (den : ℚ) < 2 ^ ((den.log2 : Int) + 1) := by
    exact_mod_cast Nat.lt_log2_self (n := den)
  unfold binade
  dsimp only
  split
  · rename_i reached
    refine ⟨guessed.mpr reached, ?_⟩
    rw [div_lt_iff₀ denominator]
    calc (num : ℚ) < 2 ^ ((num.log2 : Int) + 1) := numHigh
      _ = 2 ^ ((num.log2 : Int) - den.log2 + 1) * 2 ^ (den.log2 : Int) := by
          rw [← zpow_add₀ two_ne_zero]; congr 1; omega
      _ ≤ 2 ^ ((num.log2 : Int) - den.log2 + 1) * den := by gcongr
  · rename_i missed
    refine ⟨?_, by rw [sub_add_cancel]; exact not_le.mp fun h => missed (guessed.mp h)⟩
    rw [le_div_iff₀ denominator]
    calc (2 : ℚ) ^ ((num.log2 : Int) - den.log2 - 1) * den
        ≤ 2 ^ ((num.log2 : Int) - den.log2 - 1) * 2 ^ ((den.log2 : Int) + 1) := by gcongr
      _ = 2 ^ (num.log2 : Int) := by rw [← zpow_add₀ two_ne_zero]; congr 1; omega
      _ ≤ num := numLow

/-- The exponent of the unit that a fraction is rounded in. -/
def unitExponent (num den : Nat) : Int := max (binade num den - 52) (-1074)

def units (num den : Nat) : Nat :=
  roundDiv (scaleDown num den (unitExponent num den)).1 (scaleDown num den (unitExponent num den)).2

theorem ofRatio?_of_ne_zero (nonzero : num ≠ 0) :
    ofRatio? negative num den = ofDyadic? negative (units num den) (unitExponent num den) :=
  if_neg nonzero

theorem le_units (pos : 0 < den) (h : (k : ℚ) * 2 ^ unitExponent num den ≤ num / den) :
    k ≤ units num den := by
  have parts := scaleDown_snd_pos num pos (unitExponent num den)
  refine le_roundDiv parts ?_
  rw [← le_div_iff₀ (by positivity), ← scaleDown_eq_div num pos,
    le_div_iff₀ (Nat.cast_pos.mpr parts)] at h
  exact_mod_cast h

theorem units_le (pos : 0 < den) (h : (num : ℚ) / den ≤ k * 2 ^ unitExponent num den) :
    units num den ≤ k := by
  have parts := scaleDown_snd_pos num pos (unitExponent num den)
  refine roundDiv_le parts ?_
  rw [← div_le_iff₀ (by positivity), ← scaleDown_eq_div num pos,
    div_le_iff₀ (Nat.cast_pos.mpr parts)] at h
  exact_mod_cast h

/-! ### No double lies between -/

theorem significand_lt (x : Binary64) : x.significand < 2 ^ 53 := by
  rcases x.canonical with ⟨zero, -⟩ | ⟨odd, bits, -⟩
  · omega
  · exact (Nat.log2_lt (by omega)).mp bits

/-- A double is some units that a fraction is rounded in, or it is nearer to zero than any fraction
that is rounded in them. -/
theorem magnitude_eq_or_lt (b : Binary64) (num den : Nat) :
    (∃ k : Nat, b.magnitude = k * 2 ^ unitExponent num den) ∨
      unitExponent num den = binade num den - 52 ∧ b.magnitude < 2 ^ binade num den := by
  by_cases fine : unitExponent num den ≤ b.exponent
  · exact .inl ⟨_, (shiftLeft_mul_zpow b.significand fine).symm⟩
  rcases b.canonical with ⟨zero, -⟩ | ⟨-, -, coarse, -⟩
  · exact .inl ⟨0, by simp [magnitude, zero]⟩
  · have unit : unitExponent num den = binade num den - 52 := by
      unfold unitExponent at fine ⊢
      omega
    refine .inr ⟨unit, ?_⟩
    calc b.magnitude < 2 ^ (53 : Int) * 2 ^ b.exponent := by
          unfold magnitude
          gcongr
          exact_mod_cast b.significand_lt
      _ = 2 ^ (53 + b.exponent) := (zpow_add₀ two_ne_zero _ _).symm
      _ ≤ 2 ^ binade num den := zpow_le_zpow_right₀ one_le_two (by omega)

/-- What a fraction is rounded to is at most as far from zero as any double that the fraction does
not exceed. -/
theorem units_mul_le_magnitude (nonzero : num ≠ 0) (pos : 0 < den)
    (h : (num : ℚ) / den ≤ b.magnitude) :
    (units num den : ℚ) * 2 ^ unitExponent num den ≤ b.magnitude := by
  rcases b.magnitude_eq_or_lt num den with ⟨k, hk⟩ | ⟨-, small⟩
  · rw [hk] at h ⊢
    gcongr
    exact units_le pos h
  · exact absurd ((binade_spec nonzero pos).1.trans h) (not_le.mpr small)

/-- What a fraction is rounded to is at least as far from zero as any double that does not exceed
the fraction. -/
theorem magnitude_le_units_mul (nonzero : num ≠ 0) (pos : 0 < den) (h : b.magnitude ≤ num / den) :
    b.magnitude ≤ (units num den : ℚ) * 2 ^ unitExponent num den := by
  rcases b.magnitude_eq_or_lt num den with ⟨k, hk⟩ | ⟨unit, small⟩
  · rw [hk] at h ⊢
    gcongr
    exact le_units pos h
  · have power : ((2 ^ 52 : Nat) : ℚ) * 2 ^ unitExponent num den = 2 ^ binade num den := by
      rw [unit, Nat.cast_pow, Nat.cast_ofNat, ← zpow_natCast, ← zpow_add₀ two_ne_zero]
      congr 1
      omega
    have many : 2 ^ 52 ≤ units num den := le_units pos (power ▸ (binade_spec nonzero pos).1)
    calc b.magnitude ≤ 2 ^ binade num den := small.le
      _ = ((2 ^ 52 : Nat) : ℚ) * 2 ^ unitExponent num den := power.symm
      _ ≤ units num den * 2 ^ unitExponent num den := by gcongr

/-- No double lies between a number and the double that it is rounded to. -/
structure Rounds (q : ℚ) (x : Binary64) : Prop where
  upper : ∀ b : Binary64, q ≤ b.toRat → x.toRat ≤ b.toRat
  lower : ∀ b : Binary64, b.toRat ≤ q → b.toRat ≤ x.toRat

/-- A number that is a double is rounded to itself. -/
theorem Rounds.exact (h : Rounds q x) (hb : b.toRat = q) : x.toRat = q :=
  le_antisymm (hb ▸ h.upper b hb.ge) (hb ▸ h.lower b hb.le)

/-- A bound that a number is not merely rounded to is met by the rounding just where the number
meets it. -/
theorem Rounds.le_iff (h : Rounds q x) (apart : x.toRat = b.toRat → q = b.toRat) :
    b.toRat ≤ x.toRat ↔ b.toRat ≤ q := by
  refine ⟨fun above => ?_, h.lower b⟩
  by_contra below
  have here := le_antisymm (h.upper b (not_le.mp below).le) above
  exact below (apart here).ge

theorem Rounds.ge_iff (h : Rounds q x) (apart : x.toRat = b.toRat → q = b.toRat) :
    x.toRat ≤ b.toRat ↔ q ≤ b.toRat := by
  refine ⟨fun below => ?_, h.upper b⟩
  by_contra above
  have here := le_antisymm below (h.lower b (not_le.mp above).le)
  exact above (apart here).le

theorem Rounds.self (x : Binary64) : Rounds x.toRat x :=
  ⟨fun _ => id, fun _ => id⟩

/-- A fraction comes to one of the doubles around it. -/
theorem rounds_of_ofRatio? (pos : 0 < den) (h : ofRatio? negative num den = some x) :
    Rounds (sign negative * (num / den)) x := by
  by_cases zero : num = 0
  · subst zero
    cases h
    constructor <;> simp [toRat, magnitude]
  rw [ofRatio?_of_ne_zero zero] at h
  have value := toRat_of_ofDyadic? h
  have positive : (0 : ℚ) < num / den := by positivity
  have unsigned : (0 : ℚ) ≤ units num den * 2 ^ unitExponent num den := by positivity
  have far (b : Binary64) := units_mul_le_magnitude (b := b) zero pos
  have near (b : Binary64) := magnitude_le_units_mul (b := b) zero pos
  generalize (num : ℚ) / den = q at *
  generalize (units num den : ℚ) * 2 ^ unitExponent num den = r at *
  have nonneg (b : Binary64) := b.magnitude_nonneg
  -- nothing is to be shown across zero, and below zero the two directions change places
  cases negative with
  | false =>
    rw [sign_false, one_mul] at value ⊢
    refine ⟨fun b above => ?_, fun b below => ?_⟩
    · rcases b.toRat_eq_or with hm | hm
      · linarith [far b (hm ▸ above)]
      · linarith [nonneg b]
    · rcases b.toRat_eq_or with hm | hm
      · linarith [near b (hm ▸ below)]
      · linarith [nonneg b]
  | true =>
    rw [sign_true, neg_one_mul] at value ⊢
    refine ⟨fun b above => ?_, fun b below => ?_⟩
    · rcases b.toRat_eq_or with hm | hm
      · linarith [nonneg b]
      · linarith [near b (by linarith)]
    · rcases b.toRat_eq_or with hm | hm
      · linarith [nonneg b]
      · linarith [far b (by linarith)]

def greatestPower : Binary64 := ⟨false, 1, 1023, by decide⟩

/-- Below the greatest power of two there is no overflow. -/
theorem exists_ofRatio? (negative : Bool) (pos : 0 < den)
    (small : (num : ℚ) / den ≤ greatestPower.toRat) : ∃ x, ofRatio? negative num den = some x := by
  by_cases zero : num = 0
  · exact ⟨_, if_pos zero⟩
  rw [ofRatio?_of_ne_zero zero]
  have greatest : greatestPower.toRat = greatestPower.magnitude := one_mul _
  refine exists_ofDyadic? negative (units_le pos ?_) (le_max_right _ _) ?_
  · refine (binade_spec zero pos).2.le.trans ?_
    rw [Nat.cast_pow, Nat.cast_ofNat, ← zpow_natCast, ← zpow_add₀ two_ne_zero]
    refine zpow_le_zpow_right₀ one_le_two ?_
    unfold unitExponent
    push_cast
    omega
  · calc (units num den : ℚ) * 2 ^ unitExponent num den
        ≤ greatestPower.magnitude := units_mul_le_magnitude zero pos (greatest ▸ small)
      _ = 2 ^ (1023 : Int) := one_mul _
      _ < 2 ^ (1024 : Int) := zpow_lt_zpow_right₀ one_lt_two (by decide)

/-! ### Whole numbers -/

theorem sign_mul_natAbs (n : Int) : sign (n < 0) * (n.natAbs : ℚ) = n := by
  rw [Nat.cast_natAbs]
  unfold sign
  by_cases below : n < 0
  · simp [below, abs_of_neg]
  · simp [below, abs_of_nonneg (not_lt.mp below)]

theorem rounds_of_ofInt? {n : Int} (h : ofInt? n = some x) : Rounds n x := by
  have rounds := rounds_of_ofRatio? one_pos h
  rwa [Nat.cast_one, div_one, sign_mul_natAbs] at rounds

/-- A whole number of 53 bits is a double. -/
theorem exists_ofInt? {n : Int} (few : n.natAbs ≤ 2 ^ 53) :
    ∃ x, ofInt? n = some x ∧ x.toRat = n := by
  have size : (n.natAbs : ℚ) ≤ 2 ^ (53 : Int) := by exact_mod_cast few
  have below : (n.natAbs : ℚ) * 2 ^ (0 : Int) < 2 ^ (1024 : Int) := by
    rw [zpow_zero, mul_one]
    exact size.trans_lt (zpow_lt_zpow_right₀ one_lt_two (by decide))
  obtain ⟨b, hb⟩ := exists_ofDyadic? (n < 0) few (by decide) below
  have small : ((n.natAbs : Nat) : ℚ) / (1 : Nat) ≤ greatestPower.toRat := by
    rw [Nat.cast_one, div_one]
    calc (n.natAbs : ℚ) ≤ 2 ^ (53 : Int) := size
      _ ≤ 2 ^ (1023 : Int) := zpow_le_zpow_right₀ one_le_two (by decide)
      _ = greatestPower.toRat := by simp [greatestPower, toRat, sign, magnitude]
  obtain ⟨x, hx⟩ := exists_ofRatio? (n < 0) one_pos small
  refine ⟨x, hx, (rounds_of_ofInt? hx).exact (b := b) ?_⟩
  rw [toRat_of_ofDyadic? hb, zpow_zero, mul_one, sign_mul_natAbs]

end ApiContract.Binary64
