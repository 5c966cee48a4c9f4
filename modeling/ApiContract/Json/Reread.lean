import ApiContract.Json.Reader
import ApiContract.Json.Text

/-!
# Values that are printed and read again

What a value is read as from its own text. Numbers are read anew, which may change a fraction in its
last digits; what is nested too deep is refused; all else stays as it is.
-/

namespace ApiContract.Json

/-- The number that a text is read as, if it is one. -/
def readAsNumber? (text : String) : Option Json :=
  match readNumber text.toList with
  | some (v, []) => some v
  | _ => none

mutual

/-- What a value nested at most `nesting` deep, the members of its objects in key order, is read as
from its text. -/
def reread? : Nat → Json → Option Json
  | _, null => some null
  | _, bool b => some (bool b)
  | _, int n => readAsNumber? (intText n)
  | _, float x => readAsNumber? x.text
  | _, string s => some (string s)
  | 0, array _ | 0, object _ => none
  | inner + 1, array xs => (rereadElements? inner xs).map array
  | inner + 1, object ms => (rereadMembers? inner ms).map object

def rereadElements? (nesting : Nat) : List Json → Option (List Json)
  | [] => some []
  | x :: rest => do return (← reread? nesting x) :: (← rereadElements? nesting rest)

def rereadMembers? (nesting : Nat) : List (String × Json) → Option (List (String × Json))
  | [] => some []
  | (key, x) :: rest => do
    return (key, ← reread? nesting x) :: (← rereadMembers? nesting rest)

end

end ApiContract.Json
