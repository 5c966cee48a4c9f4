import ApiContract.Issue.Basic
import ApiContract.KeyCase

/-!
# Errors a record store reports

A store names attributes by its own spelling, with dots into nested records. Turned into an issue,
the attribute becomes a path in the spelling of the payload and the store's error a code.
-/

namespace ApiContract

structure RecordError where
  attributeName : String
  error : String
  options : Keyed Json := []
  message : Option String := none

namespace RecordError

/-- The parts of a text at each occurrence of a character. -/
def splitAt (mark : Char) : List Char → List (List Char)
  | [] => [[]]
  | c :: rest =>
    if c = mark then [] :: splitAt mark rest
    else match splitAt mark rest with
      | part :: parts => (c :: part) :: parts
      | [] => [[c]]

/-- A place in a list: ASCII digits, a plus sign allowed in front, below `2^64`. -/
def index? (segment : List Char) : Option Nat :=
  let digits := match segment with
    | '+' :: rest => rest
    | cs => cs
  if digits.isEmpty ∨ ¬ digits.all Char.isDigit then none
  else
    let n := Decimal.natOfDigits digits
    if n < Json.unsignedEnd then some n else none

def segment (case : KeyCase) (cs : List Char) : PathSegment :=
  match index? cs with
  | some n => .index n
  | none => .key (case.apply (String.ofList cs))

def path (e : RecordError) (case : KeyCase) : Path :=
  ((splitAt '.' e.attributeName.toList).filter (!·.isEmpty)).map (segment case)

def count? (e : RecordError) : Option Binary64 := (e.options.get? "count") >>= Json.toBinary64?

/-- The issue that an error without a message of its own amounts to. -/
def classify (path : Path) (error : String) (count : Option Binary64) : Issue :=
  if error = "blank" ∨ error = "required" then .required path
  else if error = "inclusion" then { code := .enumInvalid, path }
  else if error = "taken" then
    { code := .valueInvalid, path, detail := "has already been taken",
      constraint := [("reason", .string "taken")] }
  else match count with
    | some n =>
      if error = "too_short" then .stringTooShort path n
      else if error = "too_long" then .stringTooLong path n
      else if error = "greater_than_or_equal_to" then .numberTooSmall path n
      else if error = "less_than_or_equal_to" then .numberTooLarge path n
      else { code := .valueInvalid, path }
    | none => { code := .valueInvalid, path }

def toIssue (e : RecordError) (case : KeyCase) : Issue :=
  let issue := classify (e.path case) e.error e.count?
  match e.message with
  | some message => { issue with detail := message }
  | none => issue

def ofJson? (j : Json) : Option RecordError := do
  let r ← j.recordOf? ["attribute", "error", "options", "message"]
  return { attributeName := ← Json.required r "attribute" Json.string?
           error := ← Json.required r "error" Json.string?
           options := ← Json.defaulted r "options" [] Json.object?
           message := ← Json.optional r "message" Json.string? }

end RecordError

end ApiContract
