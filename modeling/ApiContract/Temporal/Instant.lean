import ApiContract.Temporal.Calendar
import ApiContract.Text.Digit

/-!
# Dates, times and datetimes as text

A datetime is complete when it ends in an offset: `Z`, `+HH`, `+HHMM` or `+HH:MM`. Its outline is
checked first, where any script's digits pass; the numbers themselves must be in ASCII digits. A
datetime without offset is one in UTC and can be completed. The offset is cut by its bytes, so that
reading a datetime can break off inside a character.
-/

namespace ApiContract

namespace Temporal

/-- `n` decimal digits of any script, and the rest. -/
def anyDigits : Nat → List Char → Option (List Char × List Char)
  | 0, cs => some ([], cs)
  | _ + 1, [] => none
  | n + 1, c :: cs =>
    if isDecimal c then (anyDigits n cs).map fun (ds, rest) => (c :: ds, rest) else none

/-- A point and at least one digit of any script; nothing where there is no point. -/
def anyFraction (cs : List Char) : Option (List Char × List Char) :=
  match cs with
  | '.' :: rest =>
    let ds := rest.takeWhile isDecimal
    if ds.isEmpty then none else some ('.' :: ds, rest.drop ds.length)
  | cs => some ([], cs)

/-- The outline of a date and time, `dddd-dd-ddTdd:dd:dd` with an optional fraction. -/
def outline (cs : List Char) : Option (List Char × List Char) := do
  let (y, cs) ← anyDigits 4 cs
  let cs ← mark '-' cs
  let (m, cs) ← anyDigits 2 cs
  let cs ← mark '-' cs
  let (d, cs) ← anyDigits 2 cs
  let cs ← mark 'T' cs
  let (h, cs) ← anyDigits 2 cs
  let cs ← mark ':' cs
  let (n, cs) ← anyDigits 2 cs
  let cs ← mark ':' cs
  let (s, cs) ← anyDigits 2 cs
  let (f, cs) ← anyFraction cs
  some (y ++ '-' :: m ++ '-' :: d ++ 'T' :: h ++ ':' :: n ++ ':' :: s ++ f, cs)

/-- Whether a text has the outline of an offset. -/
def isOffsetOutline (cs : List Char) : Bool :=
  match cs with
  | ['Z'] => true
  | sign :: a :: b :: rest =>
    (sign == '+' || sign == '-') && isDecimal a && isDecimal b &&
      match rest with
      | [] => true
      | [c, d] => isDecimal c && isDecimal d
      | [':', c, d] => isDecimal c && isDecimal d
      | _ => false
  | _ => false

/-- The number of bytes a text takes. -/
def byteLength (cs : List Char) : Nat := cs.foldr (fun c n => c.utf8Size + n) 0

/-- Cuts a text after a number of bytes; none when that falls inside a character. -/
def cutAt? : Nat → List Char → Option (List Char × List Char)
  | 0, cs => some ([], cs)
  | _ + 1, [] => none
  | n + 1, c :: cs =>
    if c.utf8Size ≤ n + 1 then
      (cutAt? (n + 1 - c.utf8Size) cs).map fun (front, back) => (c :: front, back)
    else none

/-- A cut that would fall inside a character. It breaks off whatever the text is read for. -/
structure CharacterSplit where
  text : List Char
  position : Nat
  deriving DecidableEq

/-- The offset with hours and minutes spelled out and a colon between them, judged by its length in
bytes; an error when the cut before the minutes falls inside a character. -/
def spellOffset (offset : List Char) : Except CharacterSplit (List Char) :=
  if byteLength offset = 3 then .ok (offset ++ [':', '0', '0'])
  else if byteLength offset = 5 then
    match cutAt? 3 offset with
    | some (hours, minutes) => .ok (hours ++ ':' :: minutes)
    | none => .error ⟨offset, 3⟩
  else .ok offset

/-- Whether a text is `Z` or a signed offset of less than a day. -/
def isOffset (cs : List Char) : Bool :=
  match cs with
  | ['Z'] => true
  | [sign, a, b, ':', c, d] =>
    (sign == '+' || sign == '-') && [a, b, c, d].all Char.isDigit &&
      Decimal.natOfDigits [a, b] ≤ 23 && Decimal.natOfDigits [c, d] ≤ 59
  | _ => false

/-- Whether a text starts with a day and a time of day joined by `T` and goes on as an offset. -/
def isComplete (cs : List Char) : Bool :=
  match date cs with
  | some (_, rest) =>
    match (mark 'T' rest).bind timeOfDay with
    | some (_, rest) => isOffset rest
    | none => false
  | none => false

/-- A datetime without offset, with `T` or any blanks between day and time. -/
def localDatetime (spaced : Bool) (cs : List Char) : Option (Date × TimeOfDay) := do
  let (d, rest) ← date cs
  let rest ← if spaced then some (skipBlanks rest) else mark 'T' rest
  let t ← whole (timeOfDay rest)
  some (d, t)

def utcText (d : Date) (t : TimeOfDay) : List Char :=
  dateText d ++ 'T' :: clockText t ++ fractionText t.nanosecond ++ ['Z']

end Temporal

open Temporal

def isDate (s : String) : Bool := (whole (date s.toList)).isSome

/-- Whether a text is a complete datetime, unless reading it breaks off. -/
def readDatetime (s : String) : Except CharacterSplit Bool :=
  match outline s.toList with
  | some (body, offset) =>
    if isOffsetOutline offset then
      (spellOffset offset).map fun offset => isComplete (body ++ offset)
    else .ok false
  | none => .ok false

/-- A text whose reading breaks off counts as no datetime here. -/
def isDatetime (s : String) : Bool :=
  match readDatetime s with
  | .ok complete => complete
  | .error _ => false

/-- Whether reading a text as a datetime breaks off. -/
def breaksOff (s : String) : Bool :=
  match readDatetime s with
  | .ok _ => false
  | .error _ => true

/-- A time is two digits each for hour, minute and second, with an optional fraction. -/
def isTime (s : String) : Bool :=
  match s.toList with
  | a :: b :: ':' :: c :: d :: ':' :: e :: f :: rest =>
    [a, b, c, d, e, f].all isDecimal &&
      (match anyFraction rest with
        | some (_, []) => true
        | _ => false) &&
      (whole (timeOfDay s.toList)).isSome
  | _ => false

/-- The datetime as it stands if it is complete, and in UTC if it lacks an offset. -/
def completeDatetime? (s : String) : Option String :=
  if isDatetime s then some s
  else
    (localDatetime false s.toList <|> localDatetime true s.toList).map fun (d, t) =>
      String.ofList (utcText d t)

/-- The time as it stands if it is complete, and with seconds if it lacks them. -/
def completeTime? (s : String) : Option String :=
  if isTime s then some s
  else (whole (hourMinute s.toList)).map fun t => String.ofList (clockText t)

end ApiContract
