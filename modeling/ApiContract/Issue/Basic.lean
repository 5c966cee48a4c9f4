import ApiContract.Issue.Pointer
import ApiContract.Json.Record

/-!
# Issues

An issue is one failed expectation about one value of a payload: a code, where the value stands, a
sentence about it, and the constraint it failed.
-/

namespace ApiContract

inductive IssueCode where
  | required
  | fieldUnknown
  | valueInvalid
  | numberTooSmall
  | numberTooLarge
  | stringTooShort
  | stringTooLong
  | stringFormatInvalid
  | enumInvalid
  deriving DecidableEq

namespace IssueCode

def all : List IssueCode :=
  [required, fieldUnknown, valueInvalid, numberTooSmall, numberTooLarge, stringTooShort,
    stringTooLong, stringFormatInvalid, enumInvalid]

def name : IssueCode → String
  | required => "required"
  | fieldUnknown => "field_unknown"
  | valueInvalid => "value_invalid"
  | numberTooSmall => "number_too_small"
  | numberTooLarge => "number_too_large"
  | stringTooShort => "string_too_short"
  | stringTooLong => "string_too_long"
  | stringFormatInvalid => "string_format_invalid"
  | enumInvalid => "enum_invalid"

/-- The detail of an issue that says nothing about a constraint. -/
def defaultDetail : IssueCode → String
  | required => "is required"
  | fieldUnknown => "is not a known field"
  | valueInvalid => "is invalid"
  | numberTooSmall => "is too small"
  | numberTooLarge => "is too large"
  | stringTooShort => "is too short"
  | stringTooLong => "is too long"
  | stringFormatInvalid => "has an invalid format"
  | enumInvalid => "is not an allowed value"

def ofJson? (j : Json) : Option IssueCode := do
  let name ← j.choice?
  all.find? (·.name == name)

end IssueCode

/-- A bound as text and constraints show it: whole numbers below `2^63` without a point. -/
def Binary64.toJson (x : Binary64) : Json :=
  match x.toInt? with
  | some n => if n.natAbs < Json.signedEnd then .int n else .float x
  | none => .float x

structure Issue where
  code : IssueCode
  path : Path
  detail : String := code.defaultDetail
  constraint : Keyed Json := []

namespace Issue

def pointer (i : Issue) : String := i.path.pointer

/-- Records one constraint with the issue. -/
def noting (i : Issue) (key : String) (value : Json) : Issue :=
  { i with constraint := Keyed.insert key value i.constraint }

def required (path : Path) : Issue := { code := .required, path }

def unknownField (path : Path) : Issue := { code := .fieldUnknown, path }

/-- The value is not of the kind named. -/
def invalid (path : Path) (expected : String) : Issue :=
  { code := .valueInvalid, path, detail := "must be a valid " ++ expected,
    constraint := [("expected", .string expected)] }

def numberTooSmall (path : Path) (least : Binary64) : Issue :=
  { code := .numberTooSmall, path,
    detail := "must be greater than or equal to " ++ least.toJson.text,
    constraint := [("minimum", least.toJson)] }

def numberTooLarge (path : Path) (greatest : Binary64) : Issue :=
  { code := .numberTooLarge, path,
    detail := "must be less than or equal to " ++ greatest.toJson.text,
    constraint := [("maximum", greatest.toJson)] }

def stringTooShort (path : Path) (least : Binary64) : Issue :=
  { code := .stringTooShort, path,
    detail := "must be at least " ++ least.toJson.text ++ " characters",
    constraint := [("minimum", least.toJson)] }

def stringTooLong (path : Path) (greatest : Binary64) : Issue :=
  { code := .stringTooLong, path,
    detail := "must be at most " ++ greatest.toJson.text ++ " characters",
    constraint := [("maximum", greatest.toJson)] }

def formatInvalid (path : Path) (format : String) : Issue :=
  { code := .stringFormatInvalid, path, detail := "must be a valid " ++ format,
    constraint := [("format", .string format)] }

def enumInvalid (path : Path) (allowed : List String) : Issue :=
  { code := .enumInvalid, path,
    detail := "must be one of: " ++ String.intercalate ", " allowed,
    constraint := [("allowed", .strings allowed)] }

/-- One line about the issue. -/
def text (i : Issue) : String :=
  let subject := if i.pointer.isEmpty then "value" else i.pointer
  "[" ++ i.code.name ++ "] " ++ subject ++ " " ++ i.detail

def toJson (i : Issue) : Json :=
  .ofMembers ([("code", .string i.code.name), ("detail", .string i.detail),
    ("path", .strings (i.path.map PathSegment.text)), ("pointer", .string i.pointer)] ++
    if i.constraint.isEmpty then [] else [("meta", .object i.constraint)])

/-- One line about all issues of a payload. -/
def textOfAll (issues : List Issue) : String :=
  Json.natText issues.length ++ " issue(s): " ++ String.intercalate "; " (issues.map text)

/-- Issues under their pointers, in order within each. -/
def byPointer (issues : List Issue) : Keyed (List Issue) :=
  issues.foldl (fun t i => Keyed.insert i.pointer ((t.get? i.pointer).getD [] ++ [i]) t) []

def listToJson (issues : List Issue) : Json := .array (issues.map toJson)

end Issue

end ApiContract
