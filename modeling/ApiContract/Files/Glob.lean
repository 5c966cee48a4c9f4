/-!
# Filters on paths

`?` matches one character, `*` any number of them, slashes included. `**` stands for whole parts of
a path. `[abc]` and `[a-z]` match one of some characters, `[!abc]` any other one.
-/

namespace ApiContract

/-- A member of a bracket: the characters between two, both included. -/
structure GlobRange where
  first : Char
  last : Char
  deriving DecidableEq

inductive GlobToken where
  | char (c : Char)
  | any
  | anySequence
  | anyParts
  | within (ranges : List GlobRange)
  | except (ranges : List GlobRange)
  deriving DecidableEq

abbrev Glob := List GlobToken

namespace Glob

def ranges : List Char → List GlobRange
  | a :: '-' :: b :: rest => ⟨a, b⟩ :: ranges rest
  | a :: rest => ⟨a, a⟩ :: ranges rest
  | [] => []

/-- A bracket after its opening character, and what follows it. The first member may be the closing
character itself. -/
def bracket? (cs : List Char) : Option (GlobToken × List Char) :=
  let close (token : List GlobRange → GlobToken) (first : Char) (rest : List Char) :
      Option (GlobToken × List Char) :=
    let inside := rest.takeWhile (· != ']')
    match rest.drop inside.length with
    | _ :: after => some (token (ranges (first :: inside)), after)
    | [] => none
  match cs with
  | '!' :: first :: rest => close .except first rest
  | '!' :: _ => none
  | first :: rest => close .within first rest
  | [] => none

/-- The tokens of a pattern. `atStart` says that a part of the path begins here. -/
def tokens? : Nat → Bool → List Char → Option Glob
  | 0, _, _ => none
  | _ + 1, _, [] => some []
  | _ + 1, _, '*' :: '*' :: '*' :: _ => none
  | n + 1, atStart, '*' :: '*' :: rest =>
    if !atStart then none
    else match rest with
      | [] => some [.anyParts]
      | '/' :: rest => (tokens? n true rest).map (.anyParts :: ·)
      | _ => none
  | n + 1, _, '*' :: rest => (tokens? n false rest).map (.anySequence :: ·)
  | n + 1, _, '?' :: rest => (tokens? n false rest).map (.any :: ·)
  | n + 1, _, '[' :: rest => do
    let (token, after) ← bracket? rest
    return token :: (← tokens? n false after)
  | n + 1, _, c :: rest => (tokens? n (c == '/') rest).map (.char c :: ·)

/-- The filter a text denotes, if it is well formed. -/
def ofString? (pattern : String) : Option Glob :=
  tokens? (pattern.toList.length + 1) true pattern.toList

def GlobRange.contains (r : GlobRange) (c : Char) : Bool := r.first ≤ c && c ≤ r.last

def inRanges (rs : List GlobRange) (c : Char) : Bool := rs.any fun r => GlobRange.contains r c

mutual

def matchesList : Glob → List Char → Bool
  | [], cs => cs.isEmpty
  | .anySequence :: rest, cs => matchesAnySuffix rest cs
  | .anyParts :: rest, cs => matchesList rest cs || matchesAfterSlash rest cs
  | token :: rest, cs =>
    match token, cs with
    | .char c, d :: cs => c == d && matchesList rest cs
    | .any, _ :: cs => matchesList rest cs
    | .within rs, d :: cs => inRanges rs d && matchesList rest cs
    | .except rs, d :: cs => !inRanges rs d && matchesList rest cs
    | _, _ => false
termination_by ts cs => (ts.length, cs.length)

/-- Whether some end of the text matches. -/
def matchesAnySuffix (ts : Glob) : List Char → Bool
  | [] => matchesList ts []
  | c :: cs => matchesList ts (c :: cs) || matchesAnySuffix ts cs
termination_by cs => (ts.length, cs.length + 1)

/-- Whether what follows some slash matches, or the empty end. -/
def matchesAfterSlash (ts : Glob) : List Char → Bool
  | [] => matchesList ts []
  | c :: cs => (c == '/' && matchesList ts cs) || matchesAfterSlash ts cs
termination_by cs => (ts.length, cs.length + 1)

end

/-- Whether a path passes a filter. -/
def accepts (g : Glob) (p : String) : Bool := matchesList g p.toList

end Glob

end ApiContract
