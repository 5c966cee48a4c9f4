import ApiContract.Text.Letter

/-!
# The words of an identifier

An identifier falls into words at `_`, `-` and space, which are dropped, and between letters of
different case and digits. The unit is the written character: a letter together with its marks.
-/

namespace ApiContract.Words

open Letter

/-- A written character. -/
abbrev Cluster := List Char

/-- Puts a character in front of clusters, joining it where it or the next one attaches. -/
def attach (c : Char) : List Cluster → List Cluster
  | [] => [[c]]
  | cluster :: rest =>
    match cluster with
    | d :: _ =>
      if inRanges joinsPreviousRanges d || inRanges joinsNextRanges c then (c :: cluster) :: rest
      else [c] :: cluster :: rest
    | [] => [c] :: rest

def clusters (cs : List Char) : List Cluster := cs.foldr attach []

def hasCase (g : Cluster) : Bool := upper g != lower g

def isUpper (g : Cluster) : Bool := hasCase g && g == upper g

def isLower (g : Cluster) : Bool := hasCase g && g == lower g

def isDigit (g : Cluster) : Bool := g.all Char.isDigit

def isSeparator (g : Cluster) : Bool := g == ['_'] || g == ['-'] || g == [' ']

/-- Whether a word ends between `g` and the clusters after it. -/
def endsAfter (g : Cluster) (after : List Cluster) : Bool :=
  match after with
  | [] => false
  | h :: rest =>
    (isLower g && isUpper h) || (isLower g && isDigit h) || (isUpper g && isDigit h) ||
      (isDigit g && isLower h) || (isDigit g && isUpper h) ||
      (isUpper g && isUpper h && (rest.head?.map isLower).getD false)

/-- Puts a cluster in front of the first word. -/
def prepend (g : Cluster) : List (List Char) → List (List Char)
  | [] => [g]
  | word :: rest => (g ++ word) :: rest

/-- Words of the clusters; empty ones between separators stay. -/
def ofClusters : List Cluster → List (List Char)
  | [] => [[]]
  | g :: rest =>
    if isSeparator g then [] :: ofClusters rest
    else if endsAfter g rest then g :: ofClusters rest
    else prepend g (ofClusters rest)

def split (s : List Char) : List (List Char) :=
  if s.isEmpty then [] else ofClusters (clusters s)

/-- Words in lower case with a mark between them. -/
def joinLower (mark : Char) (words : List (List Char)) : List Char :=
  [mark].intercalate (words.map lower)

/-- Words run together, each with a capital. -/
def joinPascal (words : List (List Char)) : List Char := words.flatMap capitalize

/-- Words run together, each but the first with a capital. -/
def joinCamel : List (List Char) → List Char
  | [] => []
  | first :: rest => lower first ++ rest.flatMap capitalize

def snake (s : String) : String := String.ofList (joinLower '_' (split s.toList))

def kebab (s : String) : String := String.ofList (joinLower '-' (split s.toList))

def camel (s : String) : String := String.ofList (joinCamel (split s.toList))

def pascal (s : String) : String := String.ofList (joinPascal (split s.toList))

end ApiContract.Words
