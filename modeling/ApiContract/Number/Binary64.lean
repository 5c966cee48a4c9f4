/-!
# Finite binary numbers of 64 bits

A finite double is kept as what it denotes, `± significand * 2 ^ exponent`, in lowest terms: the
significand is odd, or the number is a zero. Two numbers are the same value exactly when they have
the same fields, the two zeros apart. Rounding, comparison and conversion are exact integer
arithmetic, so every statement about them is one about `Nat` and `Int`.
-/

namespace ApiContract

/-- A significand and exponent in lowest terms that a finite double can hold. -/
def Binary64.Canonical (significand : Nat) (exponent : Int) : Prop :=
  (significand = 0 ∧ exponent = 0) ∨
    (significand % 2 = 1 ∧ significand.log2 < 53 ∧ -1074 ≤ exponent ∧
      (significand.log2 : Int) + 1 + exponent ≤ 1024)

instance (significand : Nat) (exponent : Int) :
    Decidable (Binary64.Canonical significand exponent) := by
  unfold Binary64.Canonical; infer_instance

structure Binary64 where
  negative : Bool
  significand : Nat
  exponent : Int
  canonical : Binary64.Canonical significand exponent
  deriving DecidableEq

namespace Binary64

def zero : Binary64 := ⟨false, 0, 0, .inl ⟨rfl, rfl⟩⟩

instance : Inhabited Binary64 := ⟨zero⟩

/-- Divides out factors of two, at most as many as the first argument says. -/
def reduce : Nat → Nat → Int → Nat × Int
  | 0, m, e => (m, e)
  | n + 1, m, e => if m % 2 = 0 then reduce n (m / 2) (e + 1) else (m, e)

/-- The number `± m * 2 ^ e`, when a finite double holds it exactly. -/
def ofDyadic? (negative : Bool) (m : Nat) (e : Int) : Option Binary64 :=
  let (m, e) := if m = 0 then (0, 0) else reduce (m.log2 + 1) m e
  if h : Canonical m e then some ⟨negative, m, e, h⟩ else none

/-- The quotient rounded to the nearest integer, a half to the even neighbour. -/
def roundDiv (num den : Nat) : Nat :=
  let quotient := num / den
  let remainder := num % den
  if 2 * remainder < den then quotient
  else if den < 2 * remainder then quotient + 1
  else quotient + quotient % 2

/-- The fraction `num / den` divided by `2 ^ e`, as numerator and denominator. -/
def scaleDown (num den : Nat) (e : Int) : Nat × Nat :=
  if 0 ≤ e then (num, den <<< e.toNat) else (num <<< (-e).toNat, den)

/-- The greatest `k` with `2 ^ k ≤ num / den`, for a positive fraction. -/
def binade (num den : Nat) : Int :=
  let guess : Int := num.log2 - den.log2
  let (n, d) := scaleDown num den guess
  if d ≤ n then guess else guess - 1

/-- The double nearest to `± num / den`, a tie going to the even significand; none on overflow. -/
def ofRatio? (negative : Bool) (num den : Nat) : Option Binary64 :=
  if num = 0 then some ⟨negative, 0, 0, .inl ⟨rfl, rfl⟩⟩
  else
    let e := max (binade num den - 52) (-1074)
    let (n, d) := scaleDown num den e
    ofDyadic? negative (roundDiv n d) e

/-- The double nearest to an integer; none beyond the finite range. -/
def ofInt? (n : Int) : Option Binary64 :=
  ofRatio? (n < 0) n.natAbs 1

/-- The magnitude of a double as numerator and denominator. -/
def fraction (x : Binary64) : Nat × Nat := scaleDown x.significand 1 (-x.exponent)

/-- The double nearest to a product; none on overflow. -/
def mul? (x y : Binary64) : Option Binary64 :=
  let (n, d) := x.fraction
  let (n', d') := y.fraction
  ofRatio? (x.negative != y.negative) (n * n') (d * d')

/-- The double nearest to a quotient whose divisor is not zero; none on overflow. -/
def div? (x y : Binary64) : Option Binary64 :=
  let (n, d) := x.fraction
  let (n', d') := y.fraction
  ofRatio? (x.negative != y.negative) (n * d') (d * n')

/-- The double nearest to `± digits * 10 ^ exponent`; none on overflow.
Exponents so far out that only the range decides are cut off before any power is taken. -/
def ofDecimal? (negative : Bool) (digits : Nat) (exponent : Int) : Option Binary64 :=
  if digits = 0 then ofRatio? negative 0 1
  else if 400 < exponent then none
  else if digits.log2 + 3 * exponent < -1100 then ofRatio? negative 0 1
  else if 0 ≤ exponent then ofRatio? negative (digits * Nat.pow 10 exponent.toNat) 1
  else ofRatio? negative digits (Nat.pow 10 (-exponent).toNat)

/-- The signed significand over the common exponent `e`, which must not exceed the number's own. -/
def scaled (x : Binary64) (e : Int) : Int :=
  let m : Int := (x.significand <<< (x.exponent - e).toNat : Nat)
  if x.negative then -m else m

def le (x y : Binary64) : Bool :=
  let e := min x.exponent y.exponent
  x.scaled e ≤ y.scaled e

def lt (x y : Binary64) : Bool := !le y x

/-- Equal as numbers: the two zeros are one value. -/
def sameValue (x y : Binary64) : Bool :=
  x.significand == y.significand && x.exponent == y.exponent &&
    (x.significand == 0 || x.negative == y.negative)

theorem sameValue_refl (x : Binary64) : x.sameValue x = true := by
  simp [sameValue]

/-- The integer a number without fractional part denotes. -/
def toInt? (x : Binary64) : Option Int :=
  if 0 ≤ x.exponent then some (x.scaled 0) else none

end Binary64

end ApiContract
