import ApiContract.Json

/-!
# Reading JSON text

The reader accepts exactly one value with blanks around it. A number without point and exponent is
whole when it lies in `-2^63 … 2^64-1` and is not `-0`; every other number is a binary fraction.
Fractions are read fast and not to the nearest double: the digits go into a significand of 64 bits,
which is rounded, and then rounded again when a power of ten is multiplied or divided by.
Nesting beyond a limit is refused, as are unpaired surrogates and numbers out of range.
-/

namespace ApiContract.Json

/-- How deep a text may be nested. -/
def maxNesting : Nat := 127

def isBlank (c : Char) : Bool := c == ' ' || c == '\n' || c == '\t' || c == '\r'

def skipBlank (cs : List Char) : List Char := cs.dropWhile isBlank

def hexValue? (c : Char) : Option Nat :=
  if c.isDigit then some (c.toNat - '0'.toNat)
  else if 'a' ≤ c ∧ c ≤ 'f' then some (c.toNat - 'a'.toNat + 10)
  else if 'A' ≤ c ∧ c ≤ 'F' then some (c.toNat - 'A'.toNat + 10)
  else none

def hexQuad? (a b c d : Char) : Option Nat := do
  return ((← hexValue? a) * 16 + (← hexValue? b)) * 256 + (← hexValue? c) * 16 + (← hexValue? d)

def simpleEscape? (c : Char) : Option Char :=
  if c = '"' ∨ c = '\\' ∨ c = '/' then some c
  else if c = 'b' then some (Char.ofNat 8)
  else if c = 'f' then some (Char.ofNat 12)
  else if c = 'n' then some '\n'
  else if c = 'r' then some '\r'
  else if c = 't' then some '\t'
  else none

/-- The characters up to the closing quote, and what follows it. -/
def readString : List Char → Option (List Char × List Char)
  | [] => none
  | '"' :: rest => some ([], rest)
  | '\\' :: 'u' :: a :: b :: c :: d :: rest => do
    let unit ← hexQuad? a b c d
    if 0xD800 ≤ unit ∧ unit < 0xDC00 then
      match rest with
      | '\\' :: 'u' :: a' :: b' :: c' :: d' :: rest' =>
        let low ← hexQuad? a' b' c' d'
        if 0xDC00 ≤ low ∧ low < 0xE000 then
          let (s, after) ← readString rest'
          some (Char.ofNat (0x10000 + (unit - 0xD800) * 0x400 + (low - 0xDC00)) :: s, after)
        else none
      | _ => none
    else if 0xDC00 ≤ unit ∧ unit < 0xE000 then none
    else
      let (s, after) ← readString rest
      some (Char.ofNat unit :: s, after)
  | '\\' :: e :: rest => do
    let c ← simpleEscape? e
    let (s, after) ← readString rest
    some (c :: s, after)
  | c :: rest =>
    if c.toNat < 32 then none
    else do
      let (s, after) ← readString rest
      some (c :: s, after)

/-- The whole number a literal without point and exponent denotes, if it is in range. -/
def wholeNumber (negative : Bool) (n : Nat) : Option Json :=
  if negative then
    if n = 0 ∨ signedEnd < n then none else some (.int (-(n : Int)))
  else if n < unsignedEnd then some (.int n) else none

/-- Digits go into a significand as long as it stays one of 64 bits: what it is then, and how many
digits went in. -/
def takeDigits : Nat → List Char → Nat × Nat
  | m, [] => (m, 0)
  | m, c :: cs =>
    let next := 10 * m + Decimal.digitValue c
    if next < unsignedEnd then
      let (m, count) := takeDigits next cs
      (m, count + 1)
    else (m, 0)

/-- A double times a power of ten; none on overflow. The powers from `1e0` to `1e308` are doubles
themselves. Two quotients by the last one leave nothing of a significand of 64 bits. -/
def timesPower? (x : Binary64) (exponent : Int) : Option Binary64 := do
  let power? (k : Int) := Binary64.ofDecimal? false 1 k
  if x.significand = 0 then some x
  else if 308 < exponent then none
  else if 0 ≤ exponent then x.mul? (← power? exponent)
  else if -308 ≤ exponent then x.div? (← power? (-exponent))
  else if -616 ≤ exponent then (← x.div? (← power? 308)).div? (← power? (-exponent - 308))
  else Binary64.ofRatio? x.negative 0 1

/-- The fraction that digits before and after a point and an exponent are read as. Digits that the
significand does not take are zeros before the point and nothing behind it. -/
def quickFraction? (negative : Bool) (whole fraction : List Char) (exponent : Int) :
    Option Binary64 := do
  let (m, count) := takeDigits 0 whole
  let (m, count') := takeDigits m fraction
  timesPower? (← Binary64.ofRatio? negative m 1) (exponent + (whole.length - count : Nat) - count')

/-- The parts of a number literal. -/
structure NumberLiteral where
  negative : Bool
  whole : List Char
  fraction : Option (List Char)
  exponent : Option Int

def NumberLiteral.value? (l : NumberLiteral) : Option Json :=
  let integral := if l.fraction.isNone ∧ l.exponent.isNone then
      wholeNumber l.negative (Decimal.natOfDigits l.whole)
    else none
  integral.or
    ((quickFraction? l.negative l.whole (l.fraction.getD []) (l.exponent.getD 0)).map .float)

def readMinus : List Char → Bool × List Char
  | '-' :: rest => (true, rest)
  | rest => (false, rest)

/-- Digits without a superfluous zero in front. -/
def readWhole (cs : List Char) : Option (List Char × List Char) :=
  let digits := cs.takeWhile Char.isDigit
  if digits.isEmpty ∨ (digits.length > 1 ∧ digits.head? = some '0') then none
  else some (digits, cs.dropWhile Char.isDigit)

/-- A point and the digits behind it; there must be some. -/
def readFraction : List Char → Option (Option (List Char) × List Char)
  | '.' :: rest =>
    let digits := rest.takeWhile Char.isDigit
    if digits.isEmpty then none else some (some digits, rest.dropWhile Char.isDigit)
  | rest => some (none, rest)

def readSign : List Char → Bool × List Char
  | '-' :: rest => (true, rest)
  | '+' :: rest => (false, rest)
  | rest => (false, rest)

def readExponent : List Char → Option (Option Int × List Char)
  | [] => some (none, [])
  | c :: rest =>
    if c = 'e' ∨ c = 'E' then
      let (negative, rest) := readSign rest
      let digits := rest.takeWhile Char.isDigit
      let n : Int := Decimal.natOfDigits digits
      if digits.isEmpty then none
      else some (some (if negative then -n else n), rest.dropWhile Char.isDigit)
    else some (none, c :: rest)

def readLiteral (cs : List Char) : Option (NumberLiteral × List Char) := do
  let (negative, rest) := readMinus cs
  let (whole, rest) ← readWhole rest
  let (fraction, rest) ← readFraction rest
  let (exponent, rest) ← readExponent rest
  return ({ negative, whole, fraction, exponent }, rest)

def readNumber (cs : List Char) : Option (Json × List Char) := do
  let (l, rest) ← readLiteral cs
  return (← l.value?, rest)

mutual

/-- One value and the text after it. The first argument bounds the number of steps, the second the
nesting that is left. -/
def readValue : Nat → Nat → List Char → Option (Json × List Char)
  | 0, _, _ => none
  | fuel + 1, nesting, cs =>
    match skipBlank cs with
    | '[' :: rest =>
      match nesting, skipBlank rest with
      | 0, _ => none
      | _ + 1, ']' :: rest => some (.array [], rest)
      | inner + 1, rest => do
        let (xs, rest) ← readElements fuel inner rest
        some (.array xs, rest)
    | '{' :: rest =>
      match nesting, skipBlank rest with
      | 0, _ => none
      | _ + 1, '}' :: rest => some (.object [], rest)
      | inner + 1, rest => do
        let (fs, rest) ← readMembers fuel inner rest
        some (.ofMembers fs, rest)
    | '"' :: rest => do
      let (s, rest) ← readString rest
      some (.string (String.ofList s), rest)
    | 'n' :: 'u' :: 'l' :: 'l' :: rest => some (.null, rest)
    | 't' :: 'r' :: 'u' :: 'e' :: rest => some (.bool true, rest)
    | 'f' :: 'a' :: 'l' :: 's' :: 'e' :: rest => some (.bool false, rest)
    | rest => readNumber rest

/-- Elements up to the closing bracket; at least one. -/
def readElements : Nat → Nat → List Char → Option (List Json × List Char)
  | 0, _, _ => none
  | fuel + 1, nesting, cs => do
    let (x, rest) ← readValue fuel nesting cs
    match skipBlank rest with
    | ',' :: rest =>
      let (xs, rest) ← readElements fuel nesting rest
      some (x :: xs, rest)
    | ']' :: rest => some ([x], rest)
    | _ => none

/-- Members up to the closing brace; at least one. -/
def readMembers : Nat → Nat → List Char → Option (List (String × Json) × List Char)
  | 0, _, _ => none
  | fuel + 1, nesting, cs =>
    match skipBlank cs with
    | '"' :: rest => do
      let (key, rest) ← readString rest
      match skipBlank rest with
      | ':' :: rest =>
        let (v, rest) ← readValue fuel nesting rest
        match skipBlank rest with
        | ',' :: rest =>
          let (fs, rest) ← readMembers fuel nesting rest
          some ((String.ofList key, v) :: fs, rest)
        | '}' :: rest => some ([(String.ofList key, v)], rest)
        | _ => none
      | _ => none
    | _ => none

end

/-- Reads one value nested at most `nesting` deep. Every step of the reader either takes a character
or goes from a list to its next entry, so twice the length bounds the steps. -/
def read? (nesting : Nat) (text : String) : Option Json :=
  let cs := text.toList
  match readValue (2 * cs.length + 2) nesting cs with
  | some (v, rest) => if (skipBlank rest).isEmpty then some v else none
  | none => none

end ApiContract.Json
