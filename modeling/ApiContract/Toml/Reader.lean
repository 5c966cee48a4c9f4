import ApiContract.Json.Reader
import ApiContract.Temporal.Calendar
import ApiContract.Toml.Basic

/-!
# Reading TOML

`Toml.read?` reads a document as one JSON object. Dates and times become objects that hold their
text; an infinity or NaN, which has no JSON form, becomes zero.
-/

namespace ApiContract.Toml

/-! ### Blanks, comments and line ends -/

def isBlank (c : Char) : Bool := c == ' ' || c == '\t'

def skipBlanks (cs : List Char) : List Char := cs.dropWhile isBlank

/-- Characters allowed in comments and, but for quotes, in strings of one line. -/
def isPlain (c : Char) : Bool := c == '\t' || (32 ≤ c.toNat && c.toNat != 127)

/-- Takes a comment off, if one begins here. -/
def skipComment : List Char → List Char
  | '#' :: rest => rest.dropWhile isPlain
  | cs => cs

/-- Takes the end of a line off. -/
def lineEnd? : List Char → Option (List Char)
  | [] => some []
  | '\n' :: rest => some rest
  | '\r' :: '\n' :: rest => some rest
  | _ => none

/-- Takes blanks, comments and line ends off. -/
def skipLines : Nat → List Char → List Char
  | 0, cs => cs
  | n + 1, cs =>
    match skipComment (skipBlanks cs) with
    | [] => []
    | rest =>
      match lineEnd? rest with
      | some after => skipLines n after
      | none => rest

/-! ### Strings -/

def hexNumber? (cs : List Char) : Option Nat :=
  cs.foldlM (fun n c => do return n * 16 + (← Json.hexValue? c)) 0

/-- The character of some hexadecimal digits, and what follows them. -/
def hexChar? (digits : Nat) (cs : List Char) : Option (Char × List Char) := do
  let taken := cs.take digits
  if taken.length < digits then none
  else
    let n ← hexNumber? taken
    if n.isValidChar then some (Char.ofNat n, cs.drop digits) else none

/-- The character an escape stands for; the backslash is read. -/
def escape? : List Char → Option (Char × List Char)
  | 'b' :: rest => some (Char.ofNat 8, rest)
  | 't' :: rest => some ('\t', rest)
  | 'n' :: rest => some ('\n', rest)
  | 'f' :: rest => some (Char.ofNat 12, rest)
  | 'r' :: rest => some ('\r', rest)
  | 'e' :: rest => some (Char.ofNat 27, rest)
  | '"' :: rest => some ('"', rest)
  | '\\' :: rest => some ('\\', rest)
  | 'x' :: rest => hexChar? 2 rest
  | 'u' :: rest => hexChar? 4 rest
  | 'U' :: rest => hexChar? 8 rest
  | _ => none

/-- A string of one line after its opening quote. -/
def basicString : Nat → List Char → Option (List Char × List Char)
  | 0, _ => none
  | _ + 1, '"' :: rest => some ([], rest)
  | n + 1, '\\' :: rest => do
    let (c, rest) ← escape? rest
    let (s, rest) ← basicString n rest
    some (c :: s, rest)
  | n + 1, c :: rest =>
    if isPlain c then do
      let (s, rest) ← basicString n rest
      some (c :: s, rest)
    else none
  | _ + 1, [] => none

/-- A string of one line without escapes, after its opening quote. -/
def literalString (cs : List Char) : Option (List Char × List Char) :=
  let s := cs.takeWhile fun c => c != '\'' && isPlain c
  match cs.drop s.length with
  | '\'' :: rest => some (s, rest)
  | _ => none

/-- The end of a string of several lines: three quotes, and up to two more that belong to it. -/
def closing? (quote : Char) (cs : List Char) : Option (List Char × List Char) :=
  let quotes := (cs.takeWhile (· == quote)).length
  if quotes < 3 ∨ 5 < quotes then none
  else some (List.replicate (quotes - 3) quote, cs.drop quotes)

/-- Takes blanks and line ends off. -/
def skipSpace (cs : List Char) : List Char :=
  cs.dropWhile fun c => isBlank c || c == '\n' || c == '\r'

/-- A string of several lines after its opening quotes. -/
def longString (quote : Char) (escapes : Bool) : Nat → List Char → Option (List Char × List Char)
  | 0, _ => none
  | _ + 1, [] => none
  | n + 1, '\r' :: '\n' :: rest => do
    let (s, rest) ← longString quote escapes n rest
    some ('\n' :: s, rest)
  | n + 1, c :: rest =>
    if c = quote then
      match closing? quote (c :: rest) with
      | some found => some found
      | none =>
        if 5 < ((c :: rest).takeWhile (· == quote)).length then none
        else do
          let (s, rest) ← longString quote escapes n rest
          some (c :: s, rest)
    else if c = '\\' ∧ escapes then
      match lineEnd? (skipBlanks rest), skipBlanks rest with
      | some _, _ :: _ => longString quote escapes n (skipSpace rest)
      | _, _ => do
        let (c, rest) ← escape? rest
        let (s, rest) ← longString quote escapes n rest
        some (c :: s, rest)
    else if isPlain c ∨ c = '\n' then do
      let (s, rest) ← longString quote escapes n rest
      some (c :: s, rest)
    else none

/-- A line end right after the opening quotes is no part of the string. -/
def dropFirstLineEnd : List Char → List Char
  | '\n' :: rest => rest
  | '\r' :: '\n' :: rest => rest
  | cs => cs

/-- A string of any kind. -/
def string? (n : Nat) : List Char → Option (String × List Char)
  | '"' :: '"' :: '"' :: rest => do
    let (s, rest) ← longString '"' true n (dropFirstLineEnd rest)
    some (String.ofList s, rest)
  | '\'' :: '\'' :: '\'' :: rest => do
    let (s, rest) ← longString '\'' false n (dropFirstLineEnd rest)
    some (String.ofList s, rest)
  | '"' :: rest => do
    let (s, rest) ← basicString n rest
    some (String.ofList s, rest)
  | '\'' :: rest => do
    let (s, rest) ← literalString rest
    some (String.ofList s, rest)
  | _ => none

/-! ### Keys -/

def isBareKeyChar (c : Char) : Bool := c.isAlphanum || c == '_' || c == '-'

def simpleKey? (n : Nat) (cs : List Char) : Option (String × List Char) :=
  match cs with
  | '"' :: rest => do
    let (s, rest) ← basicString n rest
    some (String.ofList s, rest)
  | '\'' :: rest => do
    let (s, rest) ← literalString rest
    some (String.ofList s, rest)
  | _ =>
    let key := cs.takeWhile isBareKeyChar
    if key.isEmpty then none else some (String.ofList key, cs.drop key.length)

/-- Keys with points between them, and the blanks after them. -/
def dottedKey? : Nat → List Char → Option (List String × List Char)
  | 0, _ => none
  | n + 1, cs => do
    let (key, rest) ← simpleKey? (n + 1) (skipBlanks cs)
    match skipBlanks rest with
    | '.' :: rest =>
      let (keys, rest) ← dottedKey? n rest
      some (key :: keys, rest)
    | rest => some ([key], rest)

/-! ### Numbers, dates and times -/

/-- Digits with single underscores between them, without the underscores. -/
def digits? (isDigit : Char → Bool) : List Char → Option (List Char)
  | [] => none
  | [c] => if isDigit c then some [c] else none
  | c :: '_' :: rest => if isDigit c then (digits? isDigit rest).map (c :: ·) else none
  | c :: rest => if isDigit c then (digits? isDigit rest).map (c :: ·) else none

def inBase (base : Nat) (c : Char) : Bool :=
  match Json.hexValue? c with
  | some v => v < base
  | none => false

/-- A whole number without a sign, written in a base. -/
def based? (base : Nat) (cs : List Char) : Option Json := do
  let ds ← digits? (inBase base) cs
  let n ← ds.foldlM (fun n c => do return n * base + (← Json.hexValue? c)) 0
  return .int n

/-- Takes a sign off. -/
def signed : List Char → Bool × List Char
  | '-' :: rest => (true, rest)
  | '+' :: rest => (false, rest)
  | cs => (false, cs)

/-- Digits without a superfluous leading zero. -/
def wholePart? (cs : List Char) : Option (List Char) := do
  let ds ← digits? Char.isDigit cs
  if ds.length > 1 ∧ ds.head? = some '0' then none else some ds

/-- A decimal number: whole, or with a fraction, an exponent or both. -/
def decimal? (token : List Char) : Option Json := do
  let (negative, cs) := signed token
  if cs = "inf".toList ∨ cs = "nan".toList then return .float default
  let isExponent (c : Char) : Bool := c == 'e' || c == 'E'
  let mantissa := cs.takeWhile fun c => !isExponent c
  let exponent := (cs.drop mantissa.length).drop 1
  let whole := mantissa.takeWhile (· != '.')
  let fraction := (mantissa.drop whole.length).drop 1
  let whole' ← wholePart? whole
  let hasPoint := mantissa.contains '.'
  let fraction' ← if hasPoint then digits? Char.isDigit fraction else some []
  let hasExponent := cs.any isExponent
  let (minus, exponent) := signed exponent
  let exponent' ← if hasExponent then digits? Char.isDigit exponent else some []
  if hasPoint ∨ hasExponent then
    let e : Int := Decimal.natOfDigits exponent'
    let x := Binary64.ofDecimal? negative (Decimal.natOfDigits (whole' ++ fraction'))
      ((if minus then -e else e) - fraction'.length)
    return .float (x.getD default)
  else
    let n : Int := Decimal.natOfDigits whole'
    return .int (if negative then -n else n)

/-- Exactly some digits, as a number within bounds. -/
def fixed? (count lower upper : Nat) (cs : List Char) : Option (Nat × List Char) :=
  let ds := cs.take count
  let n := Decimal.natOfDigits ds
  if ds.length = count ∧ ds.all Char.isDigit ∧ lower ≤ n ∧ n ≤ upper then some (n, cs.drop count)
  else none

def date? (cs : List Char) : Option (List Char) := do
  let (year, rest) ← fixed? 4 0 9999 cs
  match rest with
  | '-' :: rest =>
    let (month, rest) ← fixed? 2 1 12 rest
    match rest with
    | '-' :: rest => (fixed? 2 1 (daysInMonth year month) rest).map (·.2)
    | _ => none
  | _ => none

def time? (cs : List Char) : Option (List Char) := do
  let (_, rest) ← fixed? 2 0 23 cs
  match rest with
  | ':' :: rest =>
    let (_, rest) ← fixed? 2 0 59 rest
    match rest with
    | ':' :: rest =>
      let (_, rest) ← fixed? 2 0 60 rest
      match rest with
      | '.' :: rest =>
        let fraction := rest.takeWhile Char.isDigit
        if fraction.isEmpty then none else some (rest.drop fraction.length)
      | _ => some rest
    | _ => some rest
  | _ => none

def isOffset : List Char → Bool
  | [] => true
  | [c] => c == 'Z' || c == 'z'
  | sign :: rest =>
    (sign == '+' || sign == '-') &&
      match fixed? 2 0 23 rest with
      | some (_, ':' :: rest) => (fixed? 2 0 59 rest).any (·.2.isEmpty)
      | _ => false

def isTimeOrDate (token : List Char) : Bool :=
  match date? token with
  | some [] => true
  | some (c :: rest) => (c == 'T' || c == 't' || c == ' ') && (time? rest).any isOffset
  | none => (time? token).any (·.isEmpty)

def isTokenChar (c : Char) : Bool :=
  c.isAlphanum || c == '_' || c == '+' || c == '-' || c == '.' || c == ':'

/-- The text of a number, date, time or truth value. A blank between a date and a time belongs to
it. -/
def token (cs : List Char) : List Char :=
  let first := cs.takeWhile isTokenChar
  match date? first, cs.drop first.length with
  | some [], ' ' :: c :: rest =>
    if c.isDigit then first ++ ' ' :: (c :: rest).takeWhile isTokenChar else first
  | _, _ => first

/-- The value of a token. -/
def scalar? (token : List Char) : Option Json :=
  match token with
  | ['t', 'r', 'u', 'e'] => some (.bool true)
  | ['f', 'a', 'l', 's', 'e'] => some (.bool false)
  | '0' :: 'x' :: rest => based? 16 rest
  | '0' :: 'o' :: rest => based? 8 rest
  | '0' :: 'b' :: rest => based? 2 rest
  | _ =>
    if isTimeOrDate token then some (.object [("time", .string (String.ofList token))])
    else decimal? token

/-! ### Values -/

mutual

def value? : Nat → List Char → Option (Json × List Char)
  | 0, _ => none
  | n + 1, cs =>
    match cs with
    | '[' :: rest => do
      let (values, rest) ← elements? n (skipLines n rest)
      some (.array values, rest)
    | '\x7b' :: rest => do
      let (t, rest) ← members? n [] (skipLines n rest)
      some (t.toJson, rest)
    | '"' :: _ | '\'' :: _ => do
      let (s, rest) ← string? (n + 1) cs
      some (.string s, rest)
    | _ => do
      let text := token cs
      some (← scalar? text, cs.drop text.length)

/-- Elements up to the closing bracket. -/
def elements? : Nat → List Char → Option (List Json × List Char)
  | 0, _ => none
  | n + 1, cs =>
    match cs with
    | ']' :: rest => some ([], rest)
    | _ => do
      let (j, rest) ← value? n cs
      match skipLines n rest with
      | ',' :: rest =>
        let (values, rest) ← elements? n (skipLines n rest)
        some (j :: values, rest)
      | ']' :: rest => some ([j], rest)
      | _ => none

/-- Members up to the closing brace, added to a table. -/
def members? : Nat → TomlTable → List Char → Option (TomlTable × List Char)
  | 0, _, _ => none
  | n + 1, t, cs =>
    match cs with
    | '\x7d' :: rest => some (t, rest)
    | _ => do
      let (keys, rest) ← dottedKey? n cs
      match rest with
      | '=' :: rest =>
        let (j, rest) ← value? n (skipBlanks rest)
        let t ← TomlTable.define j keys t
        match skipLines n rest with
        | ',' :: rest => members? n t (skipLines n rest)
        | '\x7d' :: rest => some (t, rest)
        | _ => none
      | _ => none

end

/-! ### Documents -/

/-- The document so far, and the header above the current line. -/
structure Progress where
  document : TomlTable := []
  header : List String := []

/-- A header between brackets, the opening ones read. -/
def header? (n : Nat) (closing cs : List Char) : Option (List String × List Char) := do
  let (keys, rest) ← dottedKey? n cs
  if rest.take closing.length = closing then some (keys, rest.drop closing.length) else none

/-- One line that holds something. -/
def line? (n : Nat) (p : Progress) (cs : List Char) : Option (Progress × List Char) := do
  let opened (keys : List String) (change : String → TomlTable → Option TomlTable) :
      Option Progress := do
    let document ← TomlTable.within (change (← keys.getLast?)) keys.dropLast p.document
    return { document, header := keys }
  match cs with
  | '[' :: '[' :: rest =>
    let (keys, rest) ← header? n [']', ']'] rest
    some (← opened keys TomlTable.append, rest)
  | '[' :: rest =>
    let (keys, rest) ← header? n [']'] rest
    some (← opened keys TomlTable.declare, rest)
  | _ =>
    let (keys, rest) ← dottedKey? n cs
    match rest with
    | '=' :: rest =>
      let (j, rest) ← value? n (skipBlanks rest)
      some ({ p with document := ← p.document.within (TomlTable.define j keys) p.header }, rest)
    | _ => none

def lines? : Nat → Progress → List Char → Option TomlTable
  | 0, _, _ => none
  | n + 1, p, cs =>
    match skipLines (n + 1) cs with
    | [] => some p.document
    | cs => do
      let (p, rest) ← line? n p cs
      lines? n p (← lineEnd? (skipComment (skipBlanks rest)))

/-- Takes a byte order mark off. -/
def dropMark : List Char → List Char
  | c :: rest => if c.toNat = 0xFEFF then rest else c :: rest
  | [] => []

/-- Reads a document. Every step of the reader takes a character or goes to a next entry, so twice
the length bounds the steps. -/
def read? (text : String) : Option Json :=
  let cs := dropMark text.toList
  (lines? (2 * cs.length + 2) {} cs).map TomlTable.toJson

end ApiContract.Toml
