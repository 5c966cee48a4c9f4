import ApiContract.Json.Text

/-!
# Paths and JSON Pointers

A path leads from the root of a payload to a value. Its pointer puts `/` in front of each step and
escapes `~` and `/` inside a step as `~0` and `~1`.
-/

namespace ApiContract

inductive PathSegment where
  | key (name : String)
  | index (n : Nat)
  deriving DecidableEq

abbrev Path := List PathSegment

def PathSegment.text : PathSegment → String
  | key name => name
  | index n => Json.natText n

namespace Pointer

def escapeChar (c : Char) : List Char :=
  if c = '~' then ['~', '0'] else if c = '/' then ['~', '1'] else [c]

def escapeChars (cs : List Char) : List Char := cs.flatMap escapeChar

def unescapeChars : List Char → List Char
  | '~' :: '1' :: rest => '/' :: unescapeChars rest
  | '~' :: '0' :: rest => '~' :: unescapeChars rest
  | c :: rest => c :: unescapeChars rest
  | [] => []

def escape (token : String) : String := String.ofList (escapeChars token.toList)

def unescape (token : String) : String := String.ofList (unescapeChars token.toList)

/-- The parts of a text between slashes; one more than there are slashes. -/
def splitSlash : List Char → List (List Char)
  | [] => [[]]
  | c :: rest =>
    if c = '/' then [] :: splitSlash rest
    else match splitSlash rest with
      | part :: parts => (c :: part) :: parts
      | [] => [[c]]

/-- The steps of a pointer, unescaped. The slash in front may be left out. -/
def parse (pointer : String) : List String :=
  let tokens := match pointer.toList with
    | [] => []
    | '/' :: rest => splitSlash rest
    | cs => splitSlash cs
  tokens.map fun token => String.ofList (unescapeChars token)

end Pointer

/-- The pointer of a path. -/
def Path.pointer (path : Path) : String :=
  String.join (path.map fun segment => "/" ++ Pointer.escape segment.text)

end ApiContract
