import ApiContract.Json.Text
import ApiContract.Schema.Scalar
import ApiContract.Temporal.Instant
import ApiContract.Text.Identity
import ApiContract.Text.Letter

/-!
# Turning values into scalars of a kind

A value is converted to a kind when its text says so unmistakably: digits to numbers, the usual
words to booleans, a datetime without offset to one in UTC. `null` is never converted.
-/

namespace ApiContract

namespace ScalarKind

/-- A whole number of 64 bits: ASCII digits with an optional minus sign. -/
def wholeOfText? (cs : List Char) : Option Int :=
  let (negative, ds) := match cs with
    | '-' :: rest => (true, rest)
    | rest => (false, rest)
  if ds.isEmpty ∨ ¬ ds.all Char.isDigit then none
  else
    let n : Int := Decimal.natOfDigits ds
    let n := if negative then -n else n
    if -(Json.signedEnd : Int) ≤ n ∧ n < Json.signedEnd then some n else none

def toInteger? : Json → Option Json
  | .int n => some (.int n)
  | .string s => (wholeOfText? s.toList).map .int
  | _ => none

/-- A number of either sort; a text is whole when it can be. -/
def toNumber? : Json → Option Json
  | .int n => some (.int n)
  | .float x => some (.float x)
  | .string s =>
    let cs := trimChars s.toList
    match wholeOfText? cs with
    | some n => some (.int n)
    | none => ((Decimal.readLiteral cs).bind (·.toBinary64?)).map .float
  | _ => none

def toBoolean? : Json → Option Json
  | .bool b => some (.bool b)
  | .int 1 => some (.bool true)
  | .int 0 => some (.bool false)
  | .string s =>
    let word := lowercase s
    if word = "true" ∨ word = "1" ∨ word = "yes" then some (.bool true)
    else if word = "false" ∨ word = "0" ∨ word = "no" then some (.bool false)
    else none
  | _ => none

/-- Any value as a string; one that is none is written out. -/
def toText : Json → Json
  | .string s => .string s
  | j => .string j.text

/-- A value converted to a kind, if it can be. -/
def coerce? (kind : ScalarKind) (j : Json) : Option Json :=
  if j.isNull then none
  else match kind with
    | string => some (toText j)
    | integer => toInteger? j
    | float | decimal => toNumber? j
    | boolean => toBoolean? j
    | date => j.string?.bind fun s => if isDate s then some j else none
    | datetime => (j.string?.bind completeDatetime?).map .string
    | time => (j.string?.bind completeTime?).map .string
    | uuid => j.string?.bind fun s => if isUuid s then some j else none
    | unknown => some j

end ScalarKind

end ApiContract
