import ApiContract.Pattern.Tree

/-!
# Reading patterns

The notation is that of regular expressions without look-around and back-references: literals,
classes, groups, alternation, repetition, boundaries, and flags that hold to the end of their group.
A text that is not a pattern is refused, and so is a pattern that is nested too deeply or needs too
many steps. Where the flags take characters for bytes, no class may have others than those of ASCII.
-/

namespace ApiContract.Pattern

/-- What an escape stands for. -/
inductive Escape where
  | char (c : Char)
  | set (s : CharSet)
  | boundary (b : Boundary)

def isWordAt (unicode : Bool) (c : Option Char) : Bool :=
  (c.map fun c => if unicode then CharClass.isWordChar c else CharClass.isAsciiWord c).getD false

def wordBoundary (unicode : Bool) : Boundary :=
  fun a b => isWordAt unicode a != isWordAt unicode b

def wordStart (unicode : Bool) : Boundary :=
  fun a b => !isWordAt unicode a && isWordAt unicode b

def wordEnd (unicode : Bool) : Boundary :=
  fun a b => isWordAt unicode a && !isWordAt unicode b

def textStart : Boundary := fun a _ => a.isNone

def textEnd : Boundary := fun _ b => b.isNone

def lineStart (crlf : Bool) : Boundary := fun a b =>
  a.isNone || a == some '\n' || (crlf && a == some '\r' && b != some '\n')

def lineEnd (crlf : Bool) : Boundary := fun a b =>
  b.isNone || (b == some '\n' && !(crlf && a == some '\r')) || (crlf && b == some '\r')

namespace Flags

def decimalSet (f : Flags) : CharSet := if f.unicode then isDecimal else Char.isDigit

def spaceSet (f : Flags) : CharSet := if f.unicode then isBlank else CharClass.isAsciiSpace

def wordSet (f : Flags) : CharSet :=
  if f.unicode then CharClass.isWordChar else CharClass.isAsciiWord

/-- A class of characters or the others; those are no characters where bytes are meant. -/
def signed? (f : Flags) (negated : Bool) (s : CharSet) : Option CharSet :=
  if !negated then some s
  else if f.unicode then some (CharClass.complement s)
  else none

def dotSet (f : Flags) : CharSet :=
  if f.dotAll then CharClass.any else fun c => c != '\n' && !(f.crlf && c == '\r')

/-- Sets or clears the flag a letter names. -/
def set? (f : Flags) (value : Bool) (c : Char) : Option Flags :=
  if c = 'i' then some { f with ignoreCase := value }
  else if c = 'm' then some { f with multiLine := value }
  else if c = 's' then some { f with dotAll := value }
  else if c = 'x' then some { f with verbose := value }
  else if c = 'u' then some { f with unicode := value }
  else if c = 'R' then some { f with crlf := value }
  else if c = 'U' then some f
  else none

end Flags

def hexValue? (c : Char) : Option Nat :=
  if c.isDigit then some (c.toNat - '0'.toNat)
  else if 'a' ≤ c ∧ c ≤ 'f' then some (c.toNat - 'a'.toNat + 10)
  else if 'A' ≤ c ∧ c ≤ 'F' then some (c.toNat - 'A'.toNat + 10)
  else none

/-- The character with a hexadecimal code point, if there is one. -/
def charOfHex? (digits : List Char) : Option Char := do
  let values ← digits.mapM hexValue?
  if values.isEmpty then none
  else
    let n := values.foldl (fun n v => min (16 * n + v) 0x110000) 0
    if n < 0xD800 ∨ (0xE000 ≤ n ∧ n < 0x110000) then some (Char.ofNat n) else none

/-- A code point in braces, or of a fixed number of digits. -/
def readHex (count : Nat) : List Char → Option (Char × List Char)
  | '{' :: rest => do
    let digits := rest.takeWhile (· != '}')
    match rest.drop digits.length with
    | _ :: after => return (← charOfHex? digits, after)
    | [] => none
  | cs => do
    if cs.length < count then none else return (← charOfHex? (cs.take count), cs.drop count)

/-- A character by its code: of two digits it is a byte where bytes are meant. -/
def readCode (f : Flags) (cs : List Char) : Option (Char × List Char) := do
  let (c, rest) ← readHex 2 cs
  if f.unicode || cs.head? == some '{' || c.toNat < 128 then some (c, rest) else none

/-- The name after `\p`: one letter, or a text in braces. -/
def readPropertyName : List Char → Option (List Char × List Char)
  | '{' :: rest =>
    let name := rest.takeWhile (· != '}')
    let after := rest.drop name.length
    if after.isEmpty then none else some (name, after.drop 1)
  | c :: rest => some ([c], rest)
  | [] => none

/-- The class that a name stands for, or the others. There is none where bytes are meant. -/
def Flags.property? (f : Flags) (negated : Bool) (name : List Char) : Option CharSet := do
  let (others, s) ← CharClass.property? name
  if !f.unicode then none
  else some (if negated != others then CharClass.complement (f.cased s) else f.cased s)

def readProperty (f : Flags) (negated : Bool) (cs : List Char) : Option (CharSet × List Char) := do
  let (name, rest) ← readPropertyName cs
  return (← f.property? negated name, rest)

def isEscapable (c : Char) : Bool :=
  c.toNat < 128 && !c.isAlphanum && c != '<' && c != '>'

/-- The boundary a name in braces after `\b` stands for, and the text after it. -/
def readBoundaryName (unicode : Bool) (cs : List Char) : Option (Boundary × List Char) :=
  match cs with
  | '{' :: rest =>
    let name := rest.takeWhile (· != '}')
    let after := rest.drop (name.length + 1)
    if String.ofList name = "start" then some (wordStart unicode, after)
    else if String.ofList name = "end" then some (wordEnd unicode, after)
    else if String.ofList name = "start-half" then
      some (fun a _ => !isWordAt unicode a, after)
    else if String.ofList name = "end-half" then
      some (fun _ b => !isWordAt unicode b, after)
    else none
  | cs => some (wordBoundary unicode, cs)

/-- Whether a brace after `\b` can only be a repetition. -/
def startsCount : List Char → Bool
  | '{' :: c :: _ => !(c.isAlpha || c == '-')
  | _ => true

/-- An escape, after its backslash. -/
def readEscape (f : Flags) : List Char → Option (Escape × List Char)
  | [] => none
  | c :: rest =>
    if isEscapable c then some (.char c, rest)
    else if c = 'd' ∨ c = 'D' then
      (f.signed? (c = 'D') f.decimalSet).map fun s => (.set s, rest)
    else if c = 's' ∨ c = 'S' then
      (f.signed? (c = 'S') f.spaceSet).map fun s => (.set s, rest)
    else if c = 'w' ∨ c = 'W' then
      (f.signed? (c = 'W') f.wordSet).map fun s => (.set s, rest)
    else if c = 'p' ∨ c = 'P' then
      (readProperty f (c = 'P') rest).map fun (s, rest) => (.set s, rest)
    else if c = 'a' then some (.char (Char.ofNat 7), rest)
    else if c = 'f' then some (.char (Char.ofNat 12), rest)
    else if c = 't' then some (.char '\t', rest)
    else if c = 'n' then some (.char '\n', rest)
    else if c = 'r' then some (.char '\r', rest)
    else if c = 'v' then some (.char (Char.ofNat 11), rest)
    else if c = 'x' then (readCode f rest).map fun (c, rest) => (.char c, rest)
    else if c = 'u' then (readHex 4 rest).map fun (c, rest) => (.char c, rest)
    else if c = 'U' then (readHex 8 rest).map fun (c, rest) => (.char c, rest)
    else if c = 'A' then some (.boundary textStart, rest)
    else if c = 'z' then some (.boundary textEnd, rest)
    else if c = 'b' then
      if startsCount rest then some (.boundary (wordBoundary f.unicode), rest)
      else (readBoundaryName f.unicode rest).map fun (b, rest) => (.boundary b, rest)
    else if c = 'B' then
      some (.boundary fun a b => !wordBoundary f.unicode a b, rest)
    else if c = '<' then some (.boundary (wordStart f.unicode), rest)
    else if c = '>' then some (.boundary (wordEnd f.unicode), rest)
    else none

/-- Takes blanks and comments away where they do not count. -/
def skipVerbose (f : Flags) : List Char → List Char
  | [] => []
  | c :: rest =>
    if !f.verbose then c :: rest
    else if isBlank c then skipVerbose f rest
    else if c = '#' then skipComment f rest
    else c :: rest
where
  skipComment (f : Flags) : List Char → List Char
    | [] => []
    | c :: rest => if c = '\n' then skipVerbose f rest else skipComment f rest

/-- A named ASCII class `[:name:]`, after its first bracket. -/
def readNamedClass (cs : List Char) : Option ((Bool × CharSet) × List Char) :=
  match cs with
  | ':' :: rest =>
    let (negated, rest) := match rest with
      | '^' :: rest => (true, rest)
      | rest => (false, rest)
    let name := rest.takeWhile (· != ':')
    match rest.drop name.length with
    | ':' :: ']' :: after => do
      let s ← CharClass.named? (String.ofList name)
      return ((negated, s), after)
    | _ => none
  | _ => none

/-- A member of a bracketed class: one character, or a class of its own. -/
def readMember (f : Flags) : List Char → Option ((Char ⊕ CharSet) × List Char)
  | '\\' :: rest => do
    let (escape, rest) ← readEscape f rest
    match escape with
    | .char c => if f.unicode || c.toNat < 128 then some (.inl c, rest) else none
    | .set s => some (.inr s, rest)
    | .boundary _ => none
  | c :: rest => if f.unicode || c.toNat < 128 then some (.inl c, rest) else none
  | [] => none

/-- A member, or two with a hyphen between them. -/
def readRange (f : Flags) (cs : List Char) : Option (CharSet × List Char) := do
  let (first, rest) ← readMember f cs
  let rest := skipVerbose f rest
  let alone : CharSet := match first with
    | .inl c => CharClass.single c
    | .inr s => s
  match rest with
  | [] => none
  | '-' :: after =>
    match skipVerbose f after with
    | [] => none
    | ']' :: _ | '-' :: _ => some (alone, rest)
    | after =>
      let (last, rest) ← readMember f after
      match first, last with
      | .inl a, .inl b => if a ≤ b then some (CharClass.range a b, rest) else none
      | _, _ => none
  | rest => some (alone, rest)

def setOperation? : List Char → Option (SetOperation × List Char)
  | '&' :: '&' :: rest => some (CharClass.inter, rest)
  | '-' :: '-' :: rest => some (CharClass.minus, rest)
  | '~' :: '~' :: rest => some (CharClass.xor, rest)
  | _ => none

/-- The hyphens and the closing bracket that stand for themselves at the start of a class. -/
def readLeading (f : Flags) (cs : List Char) : List ClassTree × List Char :=
  let cs := skipVerbose f cs
  let hyphens := cs.takeWhile (· == '-')
  let rest := cs.drop hyphens.length
  if hyphens.isEmpty then
    match rest with
    | ']' :: rest => ([.leaf (CharClass.single ']')], rest)
    | rest => ([], rest)
  else (hyphens.map fun c => .leaf (CharClass.single c), rest)

mutual

/-- The parts of a class up to its closing bracket, the last one first. `pending` holds the operation
whose right side is being read. -/
def readItems (f : Flags) : Nat → Option (ClassTree × SetOperation) → List ClassTree →
    List Char → Option (ClassTree × List Char)
  | 0, _, _, _ => none
  | fuel + 1, pending, parts, cs =>
    let whole := ClassTree.joinedTo pending (.ofParts parts.reverse)
    match skipVerbose f cs with
    | [] => none
    | ']' :: rest => some (whole, rest)
    | '[' :: rest =>
      match readNamedClass rest with
      | some ((negated, s), rest) =>
        match f.signed? negated (f.cased s) with
        | some s => readItems f fuel pending (.leaf s :: parts) rest
        | none => none
      | none => do
        let (part, rest) ← readClass f fuel rest
        readItems f fuel pending (part :: parts) rest
    | cs =>
      match setOperation? cs with
      | some (op, rest) => readItems f fuel (some (whole, op)) [] rest
      | none => do
        let (s, rest) ← readRange f cs
        readItems f fuel pending (.leaf s :: parts) rest

/-- A bracketed class, after its opening bracket. -/
def readClass (f : Flags) : Nat → List Char → Option (ClassTree × List Char)
  | 0, _ => none
  | fuel + 1, cs => do
    let (negated, cs) := match skipVerbose f cs with
      | '^' :: rest => (true, rest)
      | cs => (false, cs)
    let (leading, cs) := readLeading f cs
    let (inner, rest) ← readItems f fuel none leading.reverse cs
    if negated && !f.unicode then none else return (.bracketed negated inner, rest)

end

/-- Counts have at most 32 bits. -/
def countEnd : Nat := 4294967296

/-- A count, with blanks around it. -/
def readCount (cs : List Char) : Option Nat × List Char :=
  let cs := cs.dropWhile isBlank
  let digits := cs.takeWhile Char.isDigit
  let rest := (cs.drop digits.length).dropWhile isBlank
  let n := digits.foldl (fun n c => min (10 * n + (c.toNat - '0'.toNat)) countEnd) 0
  (if digits.isEmpty ∨ countEnd ≤ n then none else some n, rest)

/-- Bounds of a repetition, after the opening brace: the least count, and how many more. -/
def readBounds (f : Flags) (cs : List Char) : Option ((Nat × Option Nat) × List Char) := do
  let (least, rest) := readCount (skipVerbose f cs)
  let least ← least
  match skipVerbose f rest with
  | '}' :: rest => some ((least, some 0), rest)
  | ',' :: rest =>
    match skipVerbose f rest with
    | '}' :: rest => some ((least, none), rest)
    | rest =>
      let (most, rest) := readCount rest
      let most ← most
      match skipVerbose f rest with
      | '}' :: rest => if least ≤ most then some ((least, some (most - least)), rest) else none
      | _ => none
  | _ => none

/-- A lazy mark changes which match is found, not whether there is one. -/
def skipLazy (f : Flags) (cs : List Char) : List Char :=
  match skipVerbose f cs with
  | '?' :: rest => rest
  | cs => cs

/-- Flags in a group's head, up to `:` or `)`. `seen` lists those already given. -/
def readFlags (f : Flags) : List Char → Bool → List Char → List Char →
    Option (Flags × Char × List Char)
  | _, _, _, [] => none
  | seen, negated, last, c :: rest =>
    if c = ':' ∨ c = ')' then
      if last = ['-'] then none else some (f, c, rest)
    else if c = '-' then
      if negated then none else readFlags f seen true [c] rest
    else if seen.contains c then none
    else do
      let f ← f.set? (!negated) c
      readFlags f (c :: seen) negated [c] rest

/-- A capture name: a letter or underscore, then those, digits, dots and brackets. -/
def isCaptureName : List Char → Bool
  | [] => false
  | c :: rest =>
    (c == '_' || CharClass.isAlphabetic c) &&
      rest.all fun c => c == '_' || c == '.' || c == '[' || c == ']' ||
        CharClass.isAlphabetic c || CharClass.category "IJK" c

/-- What an opening parenthesis begins: a group with its flags, or flags for what follows. -/
inductive GroupHead where
  | group (f : Flags) (name : Option (List Char))
  | setting (f : Flags)

def readGroupName (f : Flags) (rest : List Char) : Option (GroupHead × List Char) :=
  let name := rest.takeWhile (· != '>')
  if isCaptureName name ∧ name.length < rest.length then
    some (.group f (some name), rest.drop (name.length + 1))
  else none

def readGroupHead (f : Flags) : List Char → Option (GroupHead × List Char)
  | '?' :: 'P' :: '<' :: rest => readGroupName f rest
  | '?' :: '<' :: rest => readGroupName f rest
  | '?' :: rest => do
    let (f', close, after) ← readFlags f [] false [] rest
    if close = ':' then some (.group f' none, after)
    else if after.length + 1 = rest.length then none
    else some (.setting f', after)
  | rest => some (.group f none, rest)

/-- A pattern being read: the branches before and the parts of this one, the last one first. -/
structure Draft where
  branches : List Tree := []
  parts : List Tree := []

namespace Draft

def push (d : Draft) (t : Tree) : Draft := { d with parts := t :: d.parts }

def branch (d : Draft) : Tree := .ofParts d.parts.reverse

def tree (d : Draft) : Tree :=
  if d.branches.isEmpty then d.branch else .branches (d.branch :: d.branches).reverse

/-- Repeats the last part; there must be one. -/
def repeatLast? (d : Draft) (least : Nat) (more : Option Nat) : Option Draft :=
  match d.parts with
  | .setting :: _ | [] => none
  | t :: rest => some { d with parts := .counted t least more :: rest }

end Draft

/-- A pattern with what follows it: the flags in force there, the names taken, and the text. -/
structure Reading where
  tree : Tree
  flags : Flags
  names : List (List Char)
  rest : List Char

/-- Reads branches up to a closing parenthesis, which is left, or the end. -/
def readBranches : Nat → Flags → List (List Char) → Draft → List Char → Option Reading
  | 0, _, _, _, _ => none
  | fuel + 1, f, names, d, cs =>
    let literal (c : Char) : Tree := .one (f.cased (CharClass.single c))
    match skipVerbose f cs with
    | [] => some ⟨d.tree, f, names, []⟩
    | ')' :: rest => some ⟨d.tree, f, names, ')' :: rest⟩
    | '|' :: rest => readBranches fuel f names { branches := d.branch :: d.branches } rest
    | '(' :: rest =>
      match readGroupHead f (skipVerbose f rest) with
      | none => none
      | some (.setting f', rest) =>
        readBranches fuel f' names (d.push .setting) rest
      | some (.group f' name, rest) =>
        if (name.map names.contains).getD false then none
        else
          match readBranches fuel f' (name.toList ++ names) {} rest with
          | some ⟨t, _, names, ')' :: rest⟩ => readBranches fuel f names (d.push (.group t)) rest
          | _ => none
    | '[' :: rest =>
      match readClass f fuel rest with
      | some (part, rest) => readBranches fuel f names (d.push (.bracketed f part)) rest
      | none => none
    | '*' :: rest =>
      match d.repeatLast? 0 none with
      | some d => readBranches fuel f names d (skipLazy f rest)
      | none => none
    | '+' :: rest =>
      match d.repeatLast? 1 none with
      | some d => readBranches fuel f names d (skipLazy f rest)
      | none => none
    | '?' :: rest =>
      match d.repeatLast? 0 (some 1) with
      | some d => readBranches fuel f names d (skipLazy f rest)
      | none => none
    | '{' :: rest =>
      match readBounds f rest with
      | none => none
      | some ((least, more), rest) =>
        match d.repeatLast? least more with
        | some d => readBranches fuel f names d (skipLazy f rest)
        | none => none
    | '.' :: rest =>
      if f.unicode then readBranches fuel f names (d.push (.one f.dotSet)) rest else none
    | '^' :: rest =>
      let b := if f.multiLine then lineStart f.crlf else textStart
      readBranches fuel f names (d.push (.boundary b)) rest
    | '$' :: rest =>
      let b := if f.multiLine then lineEnd f.crlf else textEnd
      readBranches fuel f names (d.push (.boundary b)) rest
    | '\\' :: rest =>
      match readEscape f rest with
      | some (.char c, rest) => readBranches fuel f names (d.push (literal c)) rest
      | some (.set s, rest) => readBranches fuel f names (d.push (.one s)) rest
      | some (.boundary b, rest) => readBranches fuel f names (d.push (.boundary b)) rest
      | none => none
    | c :: rest => readBranches fuel f names (d.push (literal c)) rest

/-- The pattern a text denotes, if it is one. Each character costs at most two steps. -/
def read? (source : List Char) : Option Pattern :=
  match readBranches (2 * source.length + 2) {} [] {} source with
  | some ⟨t, _, _, []⟩ => if t.isModest then some t.pattern else none
  | _ => none

end ApiContract.Pattern

namespace ApiContract

/-- Whether a text is a pattern at all. -/
def isPattern (source : String) : Bool := (Pattern.read? source.toList).isSome

/-- Whether a pattern occurs in a text; none if it is no pattern. -/
def patternOccurs? (source text : String) : Option Bool :=
  (Pattern.read? source.toList).map (·.occursIn text.toList)

end ApiContract
