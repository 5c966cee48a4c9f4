import ApiContract.Number.Binary64

/-!
# Decimal text of binary numbers

Reading takes a sign, digits, an optional fraction and an optional exponent to the nearest double.
Writing chooses the fewest significant digits that read back as the same double and, among those,
the nearest; the two layouts (`text`, `plainText`) then only place the point.
-/

namespace ApiContract

/-- Digits `0.d₁d₂… * 10 ^ point`, without sign. -/
structure Decimal where
  digits : List Char
  point : Int
  deriving DecidableEq

namespace Decimal

def digitValue (c : Char) : Nat := c.toNat - '0'.toNat

/-- The value of a run of ASCII digits. -/
def natOfDigits (cs : List Char) : Nat :=
  cs.foldl (fun n c => 10 * n + digitValue c) 0

def digitsOfNat (n : Nat) : List Char := Nat.toDigits 10 n

end Decimal

namespace Binary64

/-- The significand as doubles store it: 53 bits, or fewer at the least exponent. -/
def stored (x : Binary64) : Nat × Int :=
  let shift := min (52 - x.significand.log2) (x.exponent + 1074).toNat
  (x.significand <<< shift, x.exponent - shift)

/-- A fraction of naturals. -/
structure Ratio where
  num : Nat
  den : Nat

namespace Ratio

/-- The fraction `m * 2 ^ e`. -/
def ofDyadic (m : Nat) (e : Int) : Ratio :=
  if 0 ≤ e then ⟨m <<< e.toNat, 1⟩ else ⟨m, 1 <<< (-e).toNat⟩

/-- The fraction times `10 ^ k`. -/
def scaleTen (r : Ratio) (k : Int) : Ratio :=
  if 0 ≤ k then ⟨r.num * Nat.pow 10 k.toNat, r.den⟩
  else ⟨r.num, r.den * Nat.pow 10 (-k).toNat⟩

def ltNat (r : Ratio) (n : Nat) : Bool := r.num < n * r.den
def leNat (r : Ratio) (n : Nat) : Bool := r.num ≤ n * r.den
def gtNat (r : Ratio) (n : Nat) : Bool := n * r.den < r.num
def geNat (r : Ratio) (n : Nat) : Bool := n * r.den ≤ r.num

end Ratio

/-- The reals that round to one double, and that double itself. -/
structure Rounding where
  low : Ratio
  value : Ratio
  high : Ratio
  closed : Bool

/-- The interval of a positive double: half way to its neighbours, the ends included exactly when
the significand is even. -/
def rounding (x : Binary64) : Rounding :=
  let (m, e) := x.stored
  let low := if m = 1 <<< 52 ∧ -1074 < e then Ratio.ofDyadic (4 * m - 1) (e - 2)
    else Ratio.ofDyadic (2 * m - 1) (e - 1)
  { low, value := .ofDyadic m e, high := .ofDyadic (2 * m + 1) (e - 1), closed := m % 2 == 0 }

/-- Whether the grid point `n / 10 ^ k` rounds to the double. -/
def Rounding.holds (r : Rounding) (k : Int) (n : Nat) : Bool :=
  let low := r.low.scaleTen k
  let high := r.high.scaleTen k
  if r.closed then low.leNat n && high.geNat n else low.ltNat n && high.gtNat n

/-- The point of the grid of step `10 ^ -k` that is nearest to the double and rounds to it;
of two equally near points the even one. -/
def Rounding.onGrid? (r : Rounding) (k : Int) : Option Nat :=
  let v := r.value.scaleTen k
  let below := v.num / v.den
  let rest := v.num % v.den
  let nearBelow := 2 * rest < v.den || (2 * rest == v.den && below % 2 == 0)
  let first := if nearBelow then below else below + 1
  let second := if nearBelow then below + 1 else below
  if r.holds k first then some first
  else if r.holds k second then some second
  else none

/-- The least `p` with `value < 10 ^ p`, searched upward from a start below it. -/
def decimalPoint (v : Ratio) : Nat → Int → Int
  | 0, p => p
  | n + 1, p => if (v.scaleTen (-p)).ltNat 1 then p else decimalPoint v n (p + 1)

/-- The first of the grids with `count`, `count + 1`, … digits that has a point for the double. -/
def Rounding.firstGrid (r : Rounding) (p : Int) : Nat → Nat → Nat × Int
  | 0, count => (0, (count : Int) - p)
  | fuel + 1, count =>
    let k := (count : Int) - p
    match r.onGrid? k with
    | some n => (n, k)
    | none => r.firstGrid p fuel (count + 1)

/-- The fewest digits that read back as the double; of those the nearest. -/
def shortest (x : Binary64) : Decimal :=
  if x.significand = 0 then ⟨['0'], 1⟩
  else
    let r := x.rounding
    let start : Int := ((x.significand.log2 : Int) + x.exponent) * 30103 / 100000 - 1
    let p := decimalPoint r.value 5 start
    let (n, k) := r.firstGrid p 17 1
    let ds := Decimal.digitsOfNat n
    let trimmed := (ds.reverse.dropWhile (· == '0')).reverse
    ⟨trimmed, (ds.length : Int) - k⟩

def zeros (n : Nat) : List Char := List.replicate n '0'

/-- Positional digits with a point, and at least `places` digits after it. -/
def positional (d : Decimal) (places : Nat) : List Char :=
  if d.point ≤ 0 then '0' :: '.' :: zeros (-d.point).toNat ++ d.digits
  else
    let whole := d.digits.take d.point.toNat
    let rest := d.digits.drop d.point.toNat
    let whole := whole ++ zeros (d.point.toNat - whole.length)
    let rest := rest ++ zeros (places - rest.length)
    if rest.isEmpty then whole else whole ++ '.' :: rest

/-- Scientific digits: one digit before the point, and an exponent that always has a sign. -/
def scientific (d : Decimal) : List Char :=
  let e := d.point - 1
  let mantissa := match d.digits with
    | c :: c' :: rest => c :: '.' :: c' :: rest
    | short => short
  let power := Decimal.digitsOfNat e.natAbs
  mantissa ++ 'e' :: (if e < 0 then '-' else '+') :: power

def signed (x : Binary64) (digits : List Char) : String :=
  String.ofList (if x.negative then '-' :: digits else digits)

/-- Positional from `1e-5` up to `1e16`, with a digit or more after the point; else scientific. -/
def text (x : Binary64) : String :=
  let d := x.shortest
  x.signed (if -5 < d.point ∧ d.point ≤ 16 then positional d 1 else scientific d)

/-- Positional throughout, and no point for a whole number. -/
def plainText (x : Binary64) : String :=
  x.signed (positional x.shortest 0)

end Binary64

namespace Decimal

/-- A decimal literal in parts: the sign, all digits as one number, and the power of ten. -/
structure Literal where
  negative : Bool
  digits : Nat
  exponent : Int

def Literal.toBinary64? (l : Literal) : Option Binary64 :=
  Binary64.ofDecimal? l.negative l.digits l.exponent

/-- An exponent part: `e` or `E`, an optional sign and digits; nothing at all is exponent zero. -/
def readExponent : List Char → Option Int
  | [] => some 0
  | c :: rest =>
    if c = 'e' ∨ c = 'E' then
      let (negative, ds) := match rest with
        | '-' :: ds => (true, ds)
        | '+' :: ds => (false, ds)
        | ds => (false, ds)
      if ds.isEmpty ∨ ¬ ds.all Char.isDigit then none
      else some (if negative then -(natOfDigits ds : Int) else natOfDigits ds)
    else none

/-- Reads a sign, digits with an optional point, and an optional exponent. At least one digit must
stand on one side of the point. -/
def readLiteral (cs : List Char) : Option Literal :=
  let (negative, cs) := match cs with
    | '-' :: r => (true, r)
    | '+' :: r => (false, r)
    | r => (false, r)
  let whole := cs.takeWhile Char.isDigit
  let rest := cs.dropWhile Char.isDigit
  let (fraction, rest) := match rest with
    | '.' :: r => (r.takeWhile Char.isDigit, r.dropWhile Char.isDigit)
    | r => ([], r)
  if whole.isEmpty ∧ fraction.isEmpty then none
  else do
    let e ← readExponent rest
    some ⟨negative, natOfDigits (whole ++ fraction), e - fraction.length⟩

end Decimal

end ApiContract
