import ApiContract.Pattern.CharClass
import ApiContract.Text.CategoryTable
import ApiContract.Text.PropertyTable

/-!
# Classes of characters by property

`\p{…}` names a general category, a script, or another property and, behind a sign, its value. Names
are compared without regard to case, spaces, hyphens and underscores.
-/

namespace ApiContract.CharClass

/-! ### Tables -/

/-- Splits `12A3B…` into lengths and keys. -/
def readCategoryRuns : Nat → List Char → List (Nat × Char)
  | _, [] => []
  | n, c :: rest =>
    if c.isDigit then readCategoryRuns (10 * n + (c.toNat - '0'.toNat)) rest
    else (n, c) :: readCategoryRuns 0 rest

/-- Splits `12:0 3:7 …` into lengths and keys. -/
def readKeyedRuns : Nat → Nat → List Char → List (Nat × Nat)
  | _, _, [] => []
  | length, n, c :: rest =>
    if c.isDigit then readKeyedRuns length (10 * n + (c.toNat - '0'.toNat)) rest
    else if c = ':' then readKeyedRuns n 0 rest
    else (length, n) :: readKeyedRuns 0 0 rest

/-- Splits `12 3 …` into lengths. -/
def readRuns : Nat → List Char → List Nat
  | _, [] => []
  | n, c :: rest =>
    if c.isDigit then readRuns (10 * n + (c.toNat - '0'.toNat)) rest else n :: readRuns 0 rest

def categoryRuns : List (Nat × Char) := readCategoryRuns 0 (String.join Letter.categoryRuns).toList

def scriptRuns : List (Nat × Nat) := readKeyedRuns 0 0 (String.join Letter.scriptRuns).toList

def ageRuns : List (Nat × Nat) := readKeyedRuns 0 0 (String.join Letter.ageRuns).toList

def extensionRuns : List (Nat × Nat) := readKeyedRuns 0 0 (String.join Letter.extensionRuns).toList

def propertyRuns : List (String × List Nat) :=
  Letter.propertyRuns.map fun (name, runs) => (name, readRuns 0 (String.join runs).toList)

/-- The key of the run that holds the `n`th position. -/
def keyAt {α : Type} : List (Nat × α) → Nat → Option α
  | [], _ => Option.none
  | (length, key) :: rest, n => if n < length then some key else keyAt rest (n - length)

/-- Whether every second run, from the second one on, holds the `n`th position. -/
def inSecondRuns : List Nat → Nat → Bool
  | outside :: inside :: rest, n =>
    if n < outside then false
    else if n < outside + inside then true
    else inSecondRuns rest (n - outside - inside)
  | _, _ => false

def unions (sets : List CharSet) : CharSet := fun c => sets.any fun s => s c

/-- The characters with one of some code points. -/
def codes (points : List Nat) : CharSet := fun c => points.contains c.toNat

def codeRange (first last : Nat) : CharSet := fun c => first ≤ c.toNat && c.toNat ≤ last

/-! ### Categories and scripts -/

def category (keys : String) : CharSet := fun c =>
  ((keyAt categoryRuns c.toNat).map keys.toList.contains).getD false

/-- The category with a name of the table. -/
def categoryOf (name : String) : CharSet := category ((Letter.categoryNames.lookup name).getD "")

def script (key : Nat) : CharSet := fun c => keyAt scriptRuns c.toNat == some key

def categoryNamed? (name : String) : Option CharSet :=
  if name = "any" then some any
  else if name = "ascii" then some fun c => c.toNat < 128
  else if name = "assigned" then some (complement (categoryOf "cn"))
  else (Letter.categoryNames.lookup name).map category

def scriptNamed? (name : String) : Option CharSet := (Letter.scriptNames.lookup name).map script

/-- The characters that are used in a script. -/
def usedIn (key : Nat) : CharSet := fun c =>
  match keyAt extensionRuns c.toNat with
  | some (n + 1) => (Letter.extensions.getD n []).contains key
  | _ => script key c

def extensionNamed? (name : String) : Option CharSet := (Letter.scriptNames.lookup name).map usedIn

/-- The characters that are no younger than an age. -/
def since (age : Nat) : CharSet := fun c =>
  match keyAt ageRuns c.toNat with
  | some n => 0 < n && n ≤ age
  | Option.none => false

def ageNamed? (name : String) : Option CharSet := (Letter.ageNames.lookup name).map since

/-! ### Properties that characters have or lack -/

/-- A property with a table of its own. -/
def listed (name : String) : CharSet :=
  let runs := (propertyRuns.lookup name).getD []
  fun c => inSecondRuns runs c.toNat

def isLowercase : CharSet := union (categoryOf "ll") (listed "olower")

def isUppercase : CharSet := union (categoryOf "lu") (listed "oupper")

/-- Letters, and what else words are spelled with. Of ASCII that is the letters. -/
def isAlphabetic : CharSet := fun c =>
  if c.toNat < 128 then c.isAlpha
  else category "ABCDEJ" c || unions [listed "olower", listed "oupper", listed "oalpha"] c

def isMath : CharSet := union (categoryOf "sm") (listed "omath")

def isReserved : CharSet := union (listed "patsyn") (listed "patws")

def isIdStart : CharSet :=
  minus (unions [categoryOf "l", categoryOf "nl", listed "oids"]) isReserved

def isIdContinue : CharSet :=
  minus (unions [isIdStart, categoryOf "mn", categoryOf "mc", categoryOf "nd", categoryOf "pc",
    listed "oidc"]) isReserved

def isGraphemeExtend : CharSet := unions [categoryOf "mn", categoryOf "me", listed "ogrext"]

def isGraphemeBase : CharSet :=
  complement (unions [category "XYZabcd", isGraphemeExtend])

def isDefaultIgnorable : CharSet :=
  minus (unions [listed "odi", categoryOf "cf", listed "vs"])
    (unions [isBlank, listed "pcm", codeRange 0xFFF9 0xFFFB, codeRange 0x13430 0x13440])

def changesLowered : CharSet := fun c => Letter.lowerChar c != [c]

def changesRaised : CharSet := fun c => Letter.upperChar c != [c]

/-- What an initial changes: capitals of two letters do, and the Georgian letters do not. -/
def changesTitled : CharSet :=
  union (minus changesRaised (union (categoryOf "lt") (codeRange 0x10D0 0x10FF)))
    (codes [0x1C4, 0x1C7, 0x1CA, 0x1F1])

def changesFolded : CharSet :=
  union (minus changesLowered (codeRange 0x13A0 0x13F5)) (listed "ocwcf")

/-- The properties that follow from others. -/
def derivedProperties : List (String × CharSet) := [
  ("alpha", isAlphabetic), ("lower", isLowercase), ("upper", isUppercase),
  ("cased", unions [isLowercase, isUppercase, categoryOf "lt"]), ("ci", Letter.isCaseIgnorable),
  ("cwl", changesLowered), ("cwu", changesRaised), ("cwt", changesTitled),
  ("cwcf", changesFolded), ("cwcm", unions [changesLowered, changesRaised, changesTitled]),
  ("math", isMath), ("wspace", isBlank), ("di", isDefaultIgnorable), ("ids", isIdStart),
  ("idc", isIdContinue), ("xids", minus isIdStart (listed "noxids")),
  ("xidc", minus isIdContinue (listed "noxidc")), ("grext", isGraphemeExtend),
  ("grbase", isGraphemeBase)]

def binaryNamed? (name : String) : Option CharSet :=
  (Letter.binaryNames.lookup name).map fun key => (derivedProperties.lookup key).getD (listed key)

/-! ### Boundaries in texts -/

/-- Syllables of two letters, which begin each run of 28, and of three. -/
def hangulSyllable (two : Bool) : CharSet := fun c =>
  codeRange 0xAC00 0xD7A3 c && ((c.toNat - 0xAC00) % 28 == 0) == two

def joiner : CharSet := codes [0x200D]

def graphemeExtenders : CharSet := union isGraphemeExtend (listed "emod")

/-- The classes by which texts are divided into what is seen as one character. -/
def graphemeBreaks : List (String × CharSet) :=
  let prepended := listed "gcbprepend"
  let control := minus
    (unions [category "XYZa", inter (categoryOf "cn") isDefaultIgnorable])
    (unions [codes [0xA, 0xD, 0x200C, 0x200D], prepended, graphemeExtenders])
  let spacing := union (codes [0xE33, 0xEB3])
    (minus (categoryOf "mc") (union isGraphemeExtend (listed "nospacing")))
  let regional := listed "ri"
  [("cr", codes [0xD]), ("lf", codes [0xA]), ("cn", control), ("control", control),
    ("ex", graphemeExtenders), ("extend", graphemeExtenders), ("pp", prepended),
    ("prepend", prepended), ("ri", regional), ("regionalindicator", regional), ("sm", spacing),
    ("spacingmark", spacing), ("l", union (codeRange 0x1100 0x115F) (codeRange 0xA960 0xA97C)),
    ("v", union (codeRange 0x1160 0x11A7) (codeRange 0xD7B0 0xD7C6)),
    ("t", union (codeRange 0x11A8 0x11FF) (codeRange 0xD7CB 0xD7FB)), ("lv", hangulSyllable true),
    ("lvt", hangulSyllable false), ("zwj", joiner)]

def wordExtenders : CharSet :=
  minus (union graphemeExtenders (categoryOf "mc")) joiner

def scriptOf (name : String) : CharSet := (scriptNamed? name).getD none

/-- The classes by which texts are divided into words. -/
def wordBreaks : List (String × CharSet) :=
  let format := minus (categoryOf "cf")
    (unions [codes [0x200B, 0x200C, 0x200D], wordExtenders, listed "gcbprepend"])
  let hebrew := inter (scriptOf "hebr") (categoryOf "lo")
  let katakana := union (minus (scriptOf "kana") (codes [0x1B000]))
    (unions [codeRange 0x3031 0x3035, codes [0x309B, 0x309C, 0x30A0, 0x30FC, 0xFF70, 0x1B000]])
  let letters := union (listed "oaletter") (minus isAlphabetic
    (unions [listed "ideo", katakana, scriptOf "hira", listed "complexcontext", wordExtenders,
      hebrew]))
  let numeric := unions [categoryOf "nd", codes [0x66B],
    minus (listed "pcm") (codes [0x70F])]
  let middle := codes [0x3A, 0xB7, 0x387, 0x55F, 0x5F4, 0x2027, 0xFE13, 0xFE55, 0xFF1A]
  let separators := codes [0x2C, 0x3B, 0x37E, 0x589, 0x60C, 0x60D, 0x66C, 0x7F8, 0x2044, 0xFE10,
    0xFE14, 0xFE50, 0xFE54, 0xFF0C, 0xFF1B]
  let points := codes [0x2E, 0x2018, 0x2019, 0x2024, 0xFE52, 0xFF07, 0xFF0E]
  let connectors := union (categoryOf "pc") (codes [0x202F])
  let lines := codes [0xB, 0xC, 0x85, 0x2028, 0x2029]
  let spaces := minus (categoryOf "zs") (codes [0xA0, 0x2007, 0x202F])
  [("cr", codes [0xD]), ("lf", codes [0xA]), ("nl", lines), ("newline", lines),
    ("extend", wordExtenders), ("fo", format), ("format", format), ("ka", katakana),
    ("katakana", katakana), ("hl", hebrew), ("hebrewletter", hebrew), ("le", letters),
    ("aletter", letters), ("ml", middle), ("midletter", middle), ("mn", separators),
    ("midnum", separators), ("mb", points), ("midnumlet", points), ("nu", numeric),
    ("numeric", numeric), ("ex", connectors), ("extendnumlet", connectors),
    ("ri", listed "ri"), ("regionalindicator", listed "ri"), ("sq", codes [0x27]),
    ("singlequote", codes [0x27]), ("dq", codes [0x22]), ("doublequote", codes [0x22]),
    ("wsegspace", spaces), ("zwj", joiner)]

/-- The classes by which texts are divided into sentences. -/
def sentenceBreaks : List (String × CharSet) :=
  let extend := union wordExtenders joiner
  let format := minus (categoryOf "cf")
    (unions [codes [0x200C, 0x200D], extend, listed "gcbprepend"])
  let ends := codes [0x85, 0x2028, 0x2029]
  let spaces := minus isBlank (union ends (codes [0xA, 0xD]))
  let lower := minus isLowercase (union isGraphemeExtend (codeRange 0x10D0 0x10FF))
  let upper := minus (union isUppercase (categoryOf "lt")) (codeRange 0x1C90 0x1CBF)
  let letters := minus (union isAlphabetic (codes [0xA0, 0x5F3])) (unions [lower, upper, extend])
  let numeric := unions [categoryOf "nd", codes [0x66B, 0x66C],
    minus (listed "pcm") (codes [0x70F])]
  let points := codes [0x2E, 0x2024, 0xFE52, 0xFF0E]
  let stops := minus (listed "sterm") (codes [0x2E, 0x2024, 0xFE52, 0xFF0E])
  let going := union (codes [0x2C, 0x2D, 0x3A, 0x55D, 0x60C, 0x60D, 0x7F8, 0x1802, 0x1808, 0x2013,
    0x2014, 0x3001, 0xFE10, 0xFE11, 0xFE13, 0xFE31, 0xFE32, 0xFE50, 0xFE51, 0xFE55, 0xFE58, 0xFE63])
    (codes [0xFF0C, 0xFF0D, 0xFF1A, 0xFF64])
  let closing := union (category "NOPQ") (listed "oclose")
  [("cr", codes [0xD]), ("lf", codes [0xA]), ("ex", extend), ("extend", extend), ("se", ends),
    ("sep", ends), ("fo", format), ("format", format), ("sp", spaces), ("lo", lower),
    ("lower", lower), ("up", upper), ("upper", upper), ("le", letters), ("oletter", letters),
    ("nu", numeric), ("numeric", numeric), ("at", points), ("aterm", points), ("sc", going),
    ("scontinue", going), ("st", stops), ("sterm", stops), ("cl", closing), ("close", closing)]

/-! ### Names -/

/-- A property's name in the spelling of the tables. A prefix `is` counts for nothing, but for what
would leave a `c` alone. -/
def normalizeName (name : List Char) : String :=
  let isPrefixed := (name.take 2).map Char.toLower = ['i', 's']
  let bare := if isPrefixed then name.drop 2 else name
  let plain := (bare.filter fun c =>
    c.toNat < 128 && c != ' ' && c != '-' && c != '_').map Char.toLower
  String.ofList (if isPrefixed ∧ plain = ['c'] then ['i', 's', 'c'] else plain)

/-- The classes of values that a property can be asked for. -/
def valueNamed? (key value : String) : Option CharSet :=
  if key = "gc" ∨ key = "generalcategory" then categoryNamed? value
  else if key = "sc" ∨ key = "script" then scriptNamed? value
  else if key = "scx" ∨ key = "scriptextensions" then extensionNamed? value
  else if key = "age" then ageNamed? value
  else if key = "gcb" ∨ key = "graphemeclusterbreak" then graphemeBreaks.lookup value
  else if key = "wb" ∨ key = "wordbreak" then wordBreaks.lookup value
  else if key = "sb" ∨ key = "sentencebreak" then sentenceBreaks.lookup value
  else Option.none

/-- The two sides of the first sign of inequality. -/
def cutUnequal? : List Char → Option (List Char × List Char)
  | '!' :: '=' :: rest => some ([], rest)
  | c :: rest => (cutUnequal? rest).map fun (key, value) => (c :: key, value)
  | [] => Option.none

/-- The two sides of the first of a character. -/
def cutAt? (sign : Char) (name : List Char) : Option (List Char × List Char) :=
  match name.dropWhile (· != sign) with
  | _ :: value => some (name.takeWhile (· != sign), value)
  | [] => Option.none

/-- The class that a name between the braces of `\p{…}` stands for, and whether it is the others
that are meant. -/
def property? (name : List Char) : Option (Bool × CharSet) :=
  match cutUnequal? name with
  | some (key, value) => (valueNamed? (normalizeName key) (normalizeName value)).map (true, ·)
  | Option.none =>
    let found := match (cutAt? ':' name).or (cutAt? '=' name) with
      | some (key, value) => valueNamed? (normalizeName key) (normalizeName value)
      | Option.none =>
        let name := normalizeName name
        binaryNamed? name <|> categoryNamed? name <|> scriptNamed? name
    found.map (false, ·)

end ApiContract.CharClass
