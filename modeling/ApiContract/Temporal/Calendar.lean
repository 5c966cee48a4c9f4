import ApiContract.Number.Decimal
import ApiContract.Text.Blank

/-!
# Dates and times of day

Days of the proleptic Gregorian calendar and times of day down to the nanosecond, read leniently:
blanks may stand before a number, and a number may have fewer digits than its place. The second 60
is a leap second.
-/

namespace ApiContract

structure Date where
  year : Int
  month : Nat
  day : Nat
  deriving DecidableEq

structure TimeOfDay where
  hour : Nat
  minute : Nat
  second : Nat
  nanosecond : Nat
  deriving DecidableEq

def isLeapYear (year : Int) : Bool :=
  year % 4 == 0 && (year % 100 != 0 || year % 400 == 0)

def daysInMonth (year : Int) (month : Nat) : Nat :=
  if month = 2 then if isLeapYear year then 29 else 28
  else if month = 4 ∨ month = 6 ∨ month = 9 ∨ month = 11 then 30
  else 31

namespace Date

/-- A day of the calendar, in a year that is not out of range. -/
def Valid (d : Date) : Prop :=
  -262143 ≤ d.year ∧ d.year ≤ 262142 ∧ 1 ≤ d.month ∧ d.month ≤ 12 ∧ 1 ≤ d.day ∧
    d.day ≤ daysInMonth d.year d.month

instance (d : Date) : Decidable d.Valid := by unfold Valid; infer_instance

end Date

namespace TimeOfDay

def Valid (t : TimeOfDay) : Prop :=
  t.hour ≤ 23 ∧ t.minute ≤ 59 ∧ t.second ≤ 60 ∧ t.nanosecond < 1000000000

instance (t : TimeOfDay) : Decidable t.Valid := by unfold Valid; infer_instance

end TimeOfDay

namespace Temporal

/-- One to `most` ASCII digits, as many as there are. -/
def digits (most : Nat) (cs : List Char) : Option (Nat × List Char) :=
  let ds := (cs.take most).takeWhile Char.isDigit
  if ds.isEmpty then none else some (Decimal.natOfDigits ds, cs.drop ds.length)

def skipBlanks (cs : List Char) : List Char := cs.dropWhile isBlank

/-- A number of one or two digits, blanks allowed before it. -/
def pair (cs : List Char) : Option (Nat × List Char) := digits 2 (skipBlanks cs)

/-- A year: up to four digits, or a sign and any number of them; blanks allowed before it. -/
def year (cs : List Char) : Option (Int × List Char) :=
  match skipBlanks cs with
  | '-' :: rest => (digits rest.length rest).map fun (n, rest) => (-(n : Int), rest)
  | '+' :: rest => (digits rest.length rest).map fun (n, rest) => ((n : Int), rest)
  | cs => (digits 4 cs).map fun (n, rest) => ((n : Int), rest)

def mark (c : Char) : List Char → Option (List Char)
  | d :: rest => if c = d then some rest else none
  | [] => none

/-- A point with digits after it, as nanoseconds; digits from the tenth on do not count. Without a
point there is no fraction. -/
def fraction (cs : List Char) : Option (Nat × List Char) :=
  match cs with
  | '.' :: rest =>
    let ds := rest.takeWhile Char.isDigit
    if ds.isEmpty then none
    else
      let counted := ds.take 9
      some (Decimal.natOfDigits counted * Nat.pow 10 (9 - counted.length), rest.drop ds.length)
  | cs => some (0, cs)

/-- Year, month and day with hyphens between them. -/
def date (cs : List Char) : Option (Date × List Char) := do
  let (year, cs) ← year cs
  let cs ← mark '-' cs
  let (month, cs) ← pair cs
  let cs ← mark '-' cs
  let (day, cs) ← pair cs
  let d : Date := { year, month, day }
  if d.Valid then some (d, cs) else none

/-- Hour and minute with a colon between them. -/
def hourMinute (cs : List Char) : Option (TimeOfDay × List Char) := do
  let (hour, cs) ← pair cs
  let cs ← mark ':' cs
  let (minute, cs) ← pair cs
  let t : TimeOfDay := { hour, minute, second := 0, nanosecond := 0 }
  if t.Valid then some (t, cs) else none

/-- Hour, minute and second with colons between them, and an optional fraction. -/
def timeOfDay (cs : List Char) : Option (TimeOfDay × List Char) := do
  let (t, cs) ← hourMinute cs
  let cs ← mark ':' cs
  let (second, cs) ← pair cs
  let (nanosecond, cs) ← fraction cs
  let t := { t with second, nanosecond }
  if t.Valid then some (t, cs) else none

/-- A reading that leaves nothing over. -/
def whole {α : Type} (r : Option (α × List Char)) : Option α :=
  match r with
  | some (a, []) => some a
  | _ => none

/-- `n` in decimal with zeros in front up to a width. -/
def padded (width n : Nat) : List Char :=
  let ds := Decimal.digitsOfNat n
  List.replicate (width - ds.length) '0' ++ ds

/-- Four digits; a year outside `0 … 9999` with a sign. -/
def yearText (y : Int) : List Char :=
  if 0 ≤ y ∧ y ≤ 9999 then padded 4 y.toNat
  else (if y < 0 then '-' else '+') :: padded 4 y.natAbs

def dateText (d : Date) : List Char :=
  yearText d.year ++ '-' :: padded 2 d.month ++ '-' :: padded 2 d.day

def clockText (t : TimeOfDay) : List Char :=
  padded 2 t.hour ++ ':' :: padded 2 t.minute ++ ':' :: padded 2 t.second

/-- The fraction with 3, 6 or 9 digits, the fewest that are exact; nothing for a whole second. -/
def fractionText (nanosecond : Nat) : List Char :=
  if nanosecond = 0 then []
  else if nanosecond % 1000000 = 0 then '.' :: padded 3 (nanosecond / 1000000)
  else if nanosecond % 1000 = 0 then '.' :: padded 6 (nanosecond / 1000)
  else '.' :: padded 9 nanosecond

end Temporal

end ApiContract
