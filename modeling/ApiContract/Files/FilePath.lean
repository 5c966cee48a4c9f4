/-!
# File paths

A path is written with `/` between its parts. One that starts with `/` leads from the root of all
directories, any other from the directory the program runs in. Empty parts and parts `.` lead
nowhere.
-/

namespace ApiContract

abbrev FilePath := String

namespace FilePath

def isAbsolute (p : FilePath) : Bool := p.toList.head? = some '/'

/-- The parts of a path between its slashes. -/
def split : List Char → List (List Char)
  | [] => [[]]
  | '/' :: rest => [] :: split rest
  | c :: rest =>
    match split rest with
    | part :: parts => (c :: part) :: parts
    | [] => [[c]]

/-- The steps of a path, each a name or `..`. -/
def steps (p : FilePath) : List String :=
  ((split p.toList).map String.ofList).filter fun part => !part.isEmpty && part != "."

/-- A path that goes on from another one, unless it is absolute. -/
def join (base p : FilePath) : FilePath :=
  if isAbsolute p ∨ base.isEmpty then p
  else if base.toList.getLast? = some '/' then base ++ p
  else base ++ "/" ++ p

/-- Drops slashes, and parts `.`, that a reversed path begins with; a lone `/` stays. -/
def dropTrailing : List Char → List Char
  | ['/'] => ['/']
  | '/' :: rest => dropTrailing rest
  | '.' :: '/' :: rest => dropTrailing ('/' :: rest)
  | cs => cs

/-- The path without its last part. The root and the empty path have nothing above them. -/
def parent? (p : FilePath) : Option FilePath :=
  let trimmed := dropTrailing p.toList.reverse
  if trimmed.isEmpty ∨ trimmed = ['/'] then none
  else some (String.ofList (dropTrailing (trimmed.dropWhile (· != '/'))).reverse)

/-- What stands after the last point of a name, if something stands in front of that point. -/
def extension? (name : String) : Option String :=
  let reversed := name.toList.reverse
  let last := reversed.takeWhile (· != '.')
  let stem := reversed.drop (last.length + 1)
  if stem.isEmpty then none else some (String.ofList last.reverse)

end FilePath

end ApiContract
