import ApiContract.Json

/-!
# Written JSON

`text` writes a value without spaces, `indented` one member or element a line. Characters outside
ASCII stand for themselves; only the quote, the backslash and control characters are escaped.
-/

namespace ApiContract

/-- One lower-case hexadecimal digit. -/
def hexDigit (n : Nat) : Char :=
  if n < 10 then Char.ofNat ('0'.toNat + n) else Char.ofNat ('a'.toNat + (n - 10))

namespace Json

def escapeChar (c : Char) : List Char :=
  if c = '"' then ['\\', '"']
  else if c = '\\' then ['\\', '\\']
  else if c = '\n' then ['\\', 'n']
  else if c = '\r' then ['\\', 'r']
  else if c = '\t' then ['\\', 't']
  else if c.toNat = 8 then ['\\', 'b']
  else if c.toNat = 12 then ['\\', 'f']
  else if c.toNat < 32 then ['\\', 'u', '0', '0', hexDigit (c.toNat / 16), hexDigit (c.toNat % 16)]
  else [c]

def quote (s : String) : String :=
  String.ofList ('"' :: s.toList.flatMap escapeChar ++ ['"'])

def intText (n : Int) : String :=
  let digits := Decimal.digitsOfNat n.natAbs
  String.ofList (if n < 0 then '-' :: digits else digits)

def natText (n : Nat) : String := String.ofList (Decimal.digitsOfNat n)

mutual

def text : Json → String
  | null => "null"
  | bool true => "true"
  | bool false => "false"
  | int n => intText n
  | float x => x.text
  | string s => quote s
  | array xs => "[" ++ String.intercalate "," (elementTexts xs) ++ "]"
  | object fs => "\x7b" ++ String.intercalate "," (memberTexts fs) ++ "\x7d"

def elementTexts : List Json → List String
  | [] => []
  | x :: rest => text x :: elementTexts rest

def memberTexts : List (String × Json) → List String
  | [] => []
  | (k, v) :: rest => (quote k ++ ":" ++ text v) :: memberTexts rest

end

/-- Entries one a line between brackets; the brackets alone when there are none. -/
def block (opening closing margin inner : String) (entries : List String) : String :=
  if entries.isEmpty then opening ++ closing
  else opening ++ "\n" ++ String.intercalate ",\n" (entries.map (inner ++ ·)) ++ "\n" ++ margin ++
    closing

mutual

/-- Written over several lines: `unit` is one step of indentation, `margin` the current one. -/
def indented (unit margin : String) : Json → String
  | array xs => block "[" "]" margin (margin ++ unit) (indentedElements unit (margin ++ unit) xs)
  | object fs =>
    block "\x7b" "\x7d" margin (margin ++ unit) (indentedMembers unit (margin ++ unit) fs)
  | null => text null
  | bool b => text (bool b)
  | int n => text (int n)
  | float x => text (float x)
  | string s => text (string s)

def indentedElements (unit margin : String) : List Json → List String
  | [] => []
  | x :: rest => indented unit margin x :: indentedElements unit margin rest

def indentedMembers (unit margin : String) : List (String × Json) → List String
  | [] => []
  | (k, v) :: rest =>
    (quote k ++ ": " ++ indented unit margin v) :: indentedMembers unit margin rest

end

end Json

end ApiContract
