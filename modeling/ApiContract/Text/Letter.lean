import ApiContract.Text.CaseTable
import ApiContract.Text.LetterTable

/-!
# Upper and lower case of text

Case mapping of whole texts by the Unicode standard: a character may map to several, and a capital
sigma at the end of a word has a lower case of its own.
-/

namespace ApiContract

namespace Letter

def inRanges (ranges : List (Nat × Nat)) (c : Char) : Bool :=
  ranges.any fun r => r.1 ≤ c.toNat && c.toNat ≤ r.2

def isCased (c : Char) : Bool := inRanges casedRanges c

def isCaseIgnorable (c : Char) : Bool := inRanges caseIgnorableRanges c

def Span.holds (s : Span) (n : Nat) : Bool :=
  s.first ≤ n && n ≤ s.last && (n - s.first) % s.step == 0

/-- The image of a character under a case mapping. -/
def mapCase (spans : List Span) (long : List (Nat × List Nat)) (c : Char) : List Char :=
  match long.lookup c.toNat with
  | some image => image.map Char.ofNat
  | none =>
    match spans.find? (·.holds c.toNat) with
    | some s => [Char.ofNat (c.toNat + s.shift).toNat]
    | none => [c]

def lowerChar (c : Char) : List Char :=
  if c.toNat < 128 then [c.toLower] else mapCase toLowerSpans longLower c

def upperChar (c : Char) : List Char :=
  if c.toNat < 128 then [c.toUpper] else mapCase toUpperSpans longUpper c

def capitalSigma : Char := Char.ofNat 0x3a3

def finalSigma : Char := Char.ofNat 0x3c2

/-- Whether the first character that is not passed over has case. -/
def startsCased (cs : List Char) : Bool :=
  ((cs.dropWhile isCaseIgnorable).head?.map isCased).getD false

/-- Lower case of the rest of a text, given what stands before it in reverse. -/
def lowerFrom (before : List Char) : List Char → List Char
  | [] => []
  | c :: rest =>
    let image := if c = capitalSigma ∧ startsCased before ∧ ¬ startsCased rest then [finalSigma]
      else lowerChar c
    image ++ lowerFrom (c :: before) rest

def lower (cs : List Char) : List Char := lowerFrom [] cs

def upper (cs : List Char) : List Char := cs.flatMap upperChar

/-- The first character in upper case, the rest in lower case. -/
def capitalize : List Char → List Char
  | [] => []
  | c :: rest => upperChar c ++ lower rest

end Letter

def lowercase (s : String) : String := String.ofList (Letter.lower s.toList)

def uppercase (s : String) : String := String.ofList (Letter.upper s.toList)

end ApiContract
