import ApiContract.Pattern.Basic
import ApiContract.Text.Blank
import ApiContract.Text.Digit
import ApiContract.Text.FoldTable
import ApiContract.Text.Letter
import ApiContract.Text.WordTable

/-!
# Classes of characters in patterns
-/

namespace ApiContract.CharClass

def none : CharSet := fun _ => false

def any : CharSet := fun _ => true

def single (c : Char) : CharSet := fun d => c == d

def range (a b : Char) : CharSet := fun c => a ≤ c && c ≤ b

def union (s t : CharSet) : CharSet := fun c => s c || t c

def inter (s t : CharSet) : CharSet := fun c => s c && t c

def minus (s t : CharSet) : CharSet := fun c => s c && !t c

def xor (s t : CharSet) : CharSet := fun c => s c != t c

def complement (s : CharSet) : CharSet := fun c => !s c

/-- The character that stands for all that differ from it by case alone. -/
def fold (n : Nat) : Nat :=
  match Letter.foldSpans.find? (·.holds n) with
  | some s => (n + s.shift).toNat
  | Option.none => n

/-- All characters that differ from one by case alone, itself among them. -/
def caseVariants (c : Char) : List Char :=
  let f := fold c.toNat
  let sources := Letter.foldSpans.filterMap fun s =>
    let n := ((f : Int) - s.shift).toNat
    if s.holds n then some (Char.ofNat n) else Option.none
  Char.ofNat f :: sources

/-- A set together with the case variants of its members. -/
def ignoringCase (s : CharSet) : CharSet := fun c => s c || (caseVariants c).any s

/-- As `ignoringCase`, of letters of ASCII only. -/
def ignoringAsciiCase (s : CharSet) : CharSet := fun c => s c || s c.toLower || s c.toUpper

def isWordChar (c : Char) : Bool :=
  if c.toNat < 128 then c.isAlphanum || c == '_' else Letter.inRanges Letter.wordRanges c

def isAsciiWord (c : Char) : Bool := c.isAlphanum || c == '_'

def isAsciiSpace (c : Char) : Bool := c == ' ' || (9 ≤ c.toNat && c.toNat ≤ 13)

/-- The classes of ASCII characters that have names. -/
def named? (name : String) : Option CharSet :=
  let ascii (p : Nat → Bool) : CharSet := fun c => c.toNat < 128 && p c.toNat
  if name = "alnum" then some fun c => c.isAlphanum
  else if name = "alpha" then some fun c => c.isAlpha
  else if name = "ascii" then some (ascii fun _ => true)
  else if name = "blank" then some fun c => c == ' ' || c == '\t'
  else if name = "cntrl" then some (ascii fun n => n < 32 || n == 127)
  else if name = "digit" then some fun c => c.isDigit
  else if name = "graph" then some (ascii fun n => 33 ≤ n && n ≤ 126)
  else if name = "lower" then some fun c => c.isLower
  else if name = "print" then some (ascii fun n => 32 ≤ n && n ≤ 126)
  else if name = "punct" then
    some fun c => 33 ≤ c.toNat && c.toNat ≤ 126 && !c.isAlphanum
  else if name = "space" then some isAsciiSpace
  else if name = "upper" then some fun c => c.isUpper
  else if name = "word" then some isAsciiWord
  else if name = "xdigit" then
    some fun c => c.isDigit || ('a' ≤ c && c ≤ 'f') || ('A' ≤ c && c ≤ 'F')
  else Option.none

end ApiContract.CharClass
