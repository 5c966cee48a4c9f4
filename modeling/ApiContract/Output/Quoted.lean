import ApiContract.Json.Text

/-!
# Literals and keys in generated scripts

A string literal stands between double quotes; `\`, `"`, line feed, carriage return and tab are
escaped in it and every other character stands for itself. A key that is a plain identifier needs no
quotes.
-/

namespace ApiContract.Script

def escapeChar (c : Char) : List Char :=
  if c = '\\' then ['\\', '\\']
  else if c = '"' then ['\\', '"']
  else if c = '\n' then ['\\', 'n']
  else if c = '\r' then ['\\', 'r']
  else if c = '\t' then ['\\', 't']
  else [c]

def escape (cs : List Char) : List Char := cs.flatMap escapeChar

/-- A string literal. -/
def quote (s : String) : String := String.ofList ('"' :: escape s.toList ++ ['"'])

/-- The literal of any value. -/
def literal : Json → String
  | .string s => quote s
  | j => j.text

def isIdentifierStart (c : Char) : Bool := c.isAlpha || c == '_' || c == '$'

def isIdentifierRest (c : Char) : Bool := c.isAlphanum || c == '_' || c == '$'

def isIdentifier : List Char → Bool
  | [] => false
  | c :: rest => isIdentifierStart c && rest.all isIdentifierRest

/-- The key of a member, in quotes unless it is an identifier. -/
def key (name : String) : String := if isIdentifier name.toList then name else quote name

@[simp] theorem escape_nil : escape [] = [] := rfl

@[simp] theorem escape_cons (c : Char) (cs : List Char) :
    escape (c :: cs) = escapeChar c ++ escape cs := rfl

end ApiContract.Script
