import ApiContract.Json.Record
import ApiContract.Text.Words

/-!
# The case of object keys

A payload spells its keys in one convention. Underscores in front of a name carry meaning and are
kept by every convention.
-/

namespace ApiContract

inductive KeyCase where
  | preserve
  | camel
  | snake
  | kebab
  deriving DecidableEq, Inhabited, Repr

namespace KeyCase

/-- A name without leading underscores, respelled. -/
def respell : KeyCase → String → String
  | preserve, body => body
  | camel, body => Words.camel body
  | snake, body => Words.snake body
  | kebab, body => Words.kebab body

/-- Respells a key after its leading underscores. -/
def apply (case : KeyCase) (key : String) : String :=
  let underscores := key.toList.takeWhile (· == '_')
  let body := key.toList.dropWhile (· == '_')
  if case = preserve ∨ body.isEmpty then key
  else String.ofList underscores ++ case.respell (String.ofList body)

@[simp] theorem apply_preserve (key : String) : preserve.apply key = key := by simp [apply]

mutual

/-- Respells every key at every depth. Of keys that come out alike the last one's value stays. -/
def applyDeep (case : KeyCase) : Json → Json
  | .object members => .ofMembers (applyMembers case members)
  | .array elements => .array (applyElements case elements)
  | j => j

def applyElements (case : KeyCase) : List Json → List Json
  | [] => []
  | j :: rest => applyDeep case j :: applyElements case rest

def applyMembers (case : KeyCase) : List (String × Json) → List (String × Json)
  | [] => []
  | (key, j) :: rest => (case.apply key, applyDeep case j) :: applyMembers case rest

end

def name : KeyCase → String
  | preserve => "preserve"
  | camel => "camel"
  | snake => "snake"
  | kebab => "kebab"

def ofName? (name : String) : Option KeyCase :=
  if name = "preserve" then some preserve
  else if name = "camel" then some camel
  else if name = "snake" then some snake
  else if name = "kebab" then some kebab
  else none

@[simp] theorem ofName?_name (case : KeyCase) : ofName? case.name = some case := by
  cases case <;> decide

def toJson (case : KeyCase) : Json := .string case.name

def ofJson? (j : Json) : Option KeyCase := j.choice? >>= ofName?

/-- Reads a spelling in any case of letters; a refusal gives the spelling in lower case. -/
def parse (text : String) : Except String KeyCase :=
  let spelling := lowercase text
  if spelling = "preserve" ∨ spelling = "source" then .ok preserve
  else if spelling = "camel" ∨ spelling = "camelcase" then .ok camel
  else if spelling = "snake" ∨ spelling = "snake_case" then .ok snake
  else if spelling = "kebab" ∨ spelling = "kebab-case" then .ok kebab
  else .error ("unknown key case `" ++ spelling ++ "`")

end KeyCase

end ApiContract
