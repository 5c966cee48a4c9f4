import ApiContract.Files.Basic
import ApiContract.Text.Blank

/-!
# Files to be passed over

A directory may hold rules on which files below it do not count, one on each line of `.ignore` or,
inside a repository, of `.gitignore`. The last rule that matches decides, and inner directories
come before outer ones. `*` and `?` stay within a part of a path, `**` stands for any number of
parts; a rule without a slash in front of its end holds at every depth.
-/

namespace ApiContract

inductive IgnoreToken where
  | char (c : Char)
  | any
  | run
  | within (negated : Bool) (ranges : List (Char × Char))
  /-- Any number of parts in front. -/
  | leadingParts
  /-- Any number of parts between two slashes, which belong to it. -/
  | innerParts
  /-- A slash and everything behind it. -/
  | trailingParts
  deriving DecidableEq

structure IgnoreRule where
  tokens : List IgnoreToken
  /-- Files that match count after all. -/
  negated : Bool := false
  onlyDirectories : Bool := false

namespace IgnoreRule

/-! ### Reading a rule -/

/-- The ranges of a bracket, the opening character read, and what follows it. The last range read
stands first; `hyphen` says that a hyphen follows it. -/
def bracketRanges (isFirst hyphen : Bool) (ranges : List (Char × Char)) :
    List Char → Option (List (Char × Char) × List Char)
  | [] => none
  | c :: rest =>
    if c = ']' ∧ !isFirst then
      some ((if hyphen then ('-', '-') :: ranges else ranges).reverse, rest)
    else if hyphen then
      match ranges with
      | (a, _) :: others =>
        if a ≤ c then bracketRanges false false ((a, c) :: others) rest else none
      | [] => none
    else if c = '-' ∧ !isFirst then bracketRanges false true ranges rest
    else bracketRanges false false ((c, c) :: ranges) rest

def bracket? : List Char → Option (IgnoreToken × List Char)
  | '!' :: rest | '^' :: rest => do
    let (ranges, after) ← bracketRanges true false [] rest
    some (.within true ranges, after)
  | rest => do
    let (ranges, after) ← bracketRanges true false [] rest
    some (.within false ranges, after)

/-- Puts whole parts behind tokens that end in a slash, which they take over. -/
def joinParts (parts : IgnoreToken) : List IgnoreToken → List IgnoreToken
  | .leadingParts :: before => .leadingParts :: before
  | .trailingParts :: before => .trailingParts :: before
  | _ :: before => parts :: before
  | [] => [parts]

/-- The tokens of a pattern. `before` holds those read so far, the last one first; `previous` is the
character in front. -/
def tokens? : Nat → List IgnoreToken → Option Char → List Char → Option (List IgnoreToken)
  | 0, _, _, _ => none
  | _ + 1, before, _, [] => some before.reverse
  | n + 1, before, previous, '*' :: '*' :: rest =>
    let plain := tokens? n (.run :: .run :: before) (some '*') rest
    if before.isEmpty then
      match rest with
      | [] => tokens? n [.leadingParts] (some '*') []
      | '/' :: rest => tokens? n [.leadingParts] (some '/') rest
      | _ => plain
    else if previous != some '/' then plain
    else
      match rest with
      | [] => tokens? n (joinParts .trailingParts before) (some '*') []
      | '/' :: rest => tokens? n (joinParts .innerParts before) (some '/') rest
      | _ => plain
  | n + 1, before, _, '*' :: rest => tokens? n (.run :: before) (some '*') rest
  | n + 1, before, _, '?' :: rest => tokens? n (.any :: before) (some '?') rest
  | n + 1, before, _, '[' :: rest => do
    let (token, after) ← bracket? rest
    tokens? n (token :: before) (some ']') after
  | n + 1, before, _, '\\' :: c :: rest => tokens? n (.char c :: before) (some c) rest
  | _ + 1, _, _, ['\\'] => none
  | n + 1, before, _, c :: rest => tokens? n (.char c :: before) (some c) rest

/-- The line without blanks at its end, unless the last one is escaped. -/
def trimEnd (line : List Char) : List Char :=
  match line.reverse with
  | ' ' :: '\\' :: _ => line
  | reversed => (reversed.dropWhile isBlank).reverse

/-- The rule on a line: none where the line is empty, a comment or malformed. -/
def ofLine? (line : List Char) : Option IgnoreRule :=
  let line := if line.head? = some '#' then [] else trimEnd line
  if line.isEmpty then none
  else
    let escaped := line.take 2 = ['\\', '!'] ∨ line.take 2 = ['\\', '#']
    let negated := !escaped && line.head? = some '!'
    let body := if escaped ∨ negated then line.drop 1 else line
    let anchored := body.head? = some '/'
    let body := if anchored ∧ !escaped then body.drop 1 else body
    let onlyDirectories := body.getLast? = some '/'
    let body := if onlyDirectories then body.dropLast else body
    let body := if onlyDirectories ∧ body.getLast? = some '\\' then body.dropLast else body
    let atAnyDepth := !anchored && !body.contains '/' && body.take 3 != ['*', '*', '/'] &&
      body != ['*', '*']
    let body := if atAnyDepth then '*' :: '*' :: '/' :: body else body
    let body :=
      if body.drop (body.length - 3) = ['/', '*', '*'] then body ++ ['/', '*'] else body
    (tokens? (body.length + 1) [] none body).map fun tokens =>
      { tokens, negated, onlyDirectories }

/-! ### Matching -/

def isInside (ranges : List (Char × Char)) (c : Char) : Bool :=
  ranges.any fun (a, b) => a ≤ c && c ≤ b

mutual

def matchesChars : List IgnoreToken → List Char → Bool
  | [], cs => cs.isEmpty
  | .run :: rest, cs => matchesRun rest cs
  | .leadingParts :: rest, cs => matchesChars rest cs || matchesBehindSlash rest cs
  | .innerParts :: rest, cs =>
    match cs with
    | '/' :: cs => matchesChars rest cs || matchesBehindSlash rest cs
    | _ => false
  | .trailingParts :: rest, cs =>
    match cs with
    | '/' :: cs => matchesSuffix rest cs
    | _ => false
  | token :: rest, cs =>
    match token, cs with
    | .char c, d :: cs => c == d && matchesChars rest cs
    | .any, d :: cs => d != '/' && matchesChars rest cs
    | .within negated ranges, d :: cs => isInside ranges d != negated && matchesChars rest cs
    | _, _ => false
termination_by ts cs => (ts.length, cs.length)

/-- Whether a rest matches that begins in the same part. -/
def matchesRun (ts : List IgnoreToken) : List Char → Bool
  | [] => matchesChars ts []
  | c :: cs => matchesChars ts (c :: cs) || (c != '/' && matchesRun ts cs)
termination_by cs => (ts.length, cs.length + 1)

/-- Whether a rest matches that begins behind a slash. -/
def matchesBehindSlash (ts : List IgnoreToken) : List Char → Bool
  | [] => false
  | c :: cs => (c == '/' && matchesChars ts cs) || matchesBehindSlash ts cs
termination_by cs => (ts.length, cs.length + 1)

/-- Whether any rest matches. -/
def matchesSuffix (ts : List IgnoreToken) : List Char → Bool
  | [] => matchesChars ts []
  | c :: cs => matchesChars ts (c :: cs) || matchesSuffix ts cs
termination_by cs => (ts.length, cs.length + 1)

end

/-- Whether a rule speaks of a path below its directory. -/
def covers (r : IgnoreRule) (path : String) (isDirectory : Bool) : Bool :=
  (isDirectory || !r.onlyDirectories) && matchesChars r.tokens path.toList

/-- The rules of a file. -/
def ofText (text : String) : List IgnoreRule :=
  (text.splitOn "\n").filterMap fun line => ofLine? line.toList

/-- Whether the rules of one file exclude a path, if they speak of it. -/
def verdict? (rules : List IgnoreRule) (path : String) (isDirectory : Bool) : Option Bool :=
  (rules.reverse.find? fun r => r.covers path isDirectory).map fun r => !r.negated

end IgnoreRule

/-- The rules of one directory. -/
structure IgnoreLevel where
  /-- The names that lead to the directory from the root. -/
  location : List String
  general : List IgnoreRule
  repository : List IgnoreRule
  excluded : List IgnoreRule
  isRepository : Bool

namespace IgnoreLevel

variable {m : Type → Type} [Monad m] [MonadFiles m]

def rulesAt (p : FilePath) : m (List IgnoreRule) := do
  match ← MonadFiles.read p with
  | .ok text => return IgnoreRule.ofText text
  | .error _ => return []

/-- The rules of the directory at a path. -/
def read (p : FilePath) (location : List String) : m IgnoreLevel := do
  return { location
           general := ← rulesAt (FilePath.join p ".ignore")
           repository := ← rulesAt (FilePath.join p ".gitignore")
           excluded := ← rulesAt (FilePath.join p ".git/info/exclude")
           isRepository := ← MonadFiles.pathExists (FilePath.join p ".git") }

/-- The first verdict of some levels, inner ones first. -/
def firstVerdict (rules : IgnoreLevel → List IgnoreRule) (levels : List IgnoreLevel)
    (entry : List String) (isDirectory : Bool) : Option Bool :=
  levels.findSome? fun level =>
    let path := String.intercalate "/" (entry.drop level.location.length)
    IgnoreRule.verdict? (rules level) path isDirectory

/-- The levels up to the innermost repository; none outside of one. -/
def insideRepository : List IgnoreLevel → List IgnoreLevel
  | [] => []
  | level :: outer =>
    if level.isRepository then [level]
    else match insideRepository outer with
      | [] => []
      | within => level :: within

/-- Whether an entry, given by the names that lead to it, does not count. -/
def excludes (levels : List IgnoreLevel) (entry : List String) (isDirectory : Bool) : Bool :=
  let inside := insideRepository levels
  ((firstVerdict general levels entry isDirectory <|>
    firstVerdict repository inside entry isDirectory <|>
    firstVerdict excluded inside entry isDirectory).getD false)

end IgnoreLevel

end ApiContract
