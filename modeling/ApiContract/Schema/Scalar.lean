import ApiContract.Json.Record

/-!
# Kinds of scalar values and formats of strings
-/

namespace ApiContract

inductive ScalarKind where
  | string
  | integer
  | float
  | decimal
  | boolean
  | date
  | datetime
  | time
  | uuid
  | unknown
  deriving DecidableEq, Inhabited, Repr

namespace ScalarKind

def all : List ScalarKind :=
  [string, integer, float, decimal, boolean, date, datetime, time, uuid, unknown]

def name : ScalarKind → String
  | string => "string"
  | integer => "integer"
  | float => "float"
  | decimal => "decimal"
  | boolean => "boolean"
  | date => "date"
  | datetime => "datetime"
  | time => "time"
  | uuid => "uuid"
  | unknown => "unknown"

def ofName? (name : String) : Option ScalarKind := all.find? (·.name == name)

@[simp] theorem ofName?_name (kind : ScalarKind) : ofName? kind.name = some kind := by
  cases kind <;> decide

/-- Whether bounds compare values; for the other kinds they compare lengths. -/
def isNumeric : ScalarKind → Bool
  | integer | float | decimal => true
  | _ => false

def ofJson? (j : Json) : Option ScalarKind := j.choice? >>= ofName?

end ScalarKind

inductive StringFormat where
  | email
  | uri
  | uuid
  | date
  | datetime
  | ipv4
  | ipv6
  | pattern (source : String)
  deriving DecidableEq, Inhabited, Repr

namespace StringFormat

/-- The name under which an issue reports the format. -/
def name : StringFormat → String
  | email => "email"
  | uri => "uri"
  | uuid => "uuid"
  | date => "date"
  | datetime => "date-time"
  | ipv4 => "ipv4"
  | ipv6 => "ipv6"
  | pattern _ => "pattern"

def toJson : StringFormat → Json
  | datetime => .string "datetime"
  | pattern source => .object [("pattern", .string source)]
  | format => .string format.name

/-- The formats that are named without further content. -/
def ofName? (name : String) : Option StringFormat :=
  if name = "email" then some email
  else if name = "uri" then some uri
  else if name = "uuid" then some uuid
  else if name = "date" then some date
  else if name = "datetime" then some datetime
  else if name = "ipv4" then some ipv4
  else if name = "ipv6" then some ipv6
  else none

def ofJson? : Json → Option StringFormat
  | .object [("pattern", .string source)] => some (pattern source)
  | j => j.choice? >>= ofName?

@[simp] theorem ofJson?_toJson (format : StringFormat) : ofJson? format.toJson = some format := by
  cases format <;> rfl

end StringFormat

end ApiContract
