import ApiContract.KeyCase

/-!
# Settings of generated files

How generated text is laid out and which optional parts it has.
-/

namespace ApiContract

/-- Whether declarations can be imported from the generated file. -/
inductive DeclarationStyle where
  | exported
  | plain
  deriving DecidableEq, Inhabited

namespace DeclarationStyle

def name : DeclarationStyle → String
  | exported => "const_export"
  | plain => "declaration"

def ofName? (name : String) : Option DeclarationStyle :=
  if name = "const_export" then some exported
  else if name = "declaration" then some plain
  else none

@[simp] theorem ofName?_name (s : DeclarationStyle) : ofName? s.name = some s := by
  cases s <;> decide

def ofJson? (j : Json) : Option DeclarationStyle := j.choice? >>= ofName?

/-- What stands in front of a declaration. -/
def keyword : DeclarationStyle → String
  | exported => "export "
  | plain => ""

end DeclarationStyle

inductive Indentation where
  | two
  | four
  | tab
  deriving DecidableEq, Inhabited

namespace Indentation

def name : Indentation → String
  | two => "spaces2"
  | four => "spaces4"
  | tab => "tabs"

def ofName? (name : String) : Option Indentation :=
  if name = "spaces2" then some two
  else if name = "spaces4" then some four
  else if name = "tabs" then some tab
  else none

@[simp] theorem ofName?_name (i : Indentation) : ofName? i.name = some i := by
  cases i <;> decide

def ofJson? (j : Json) : Option Indentation := j.choice? >>= ofName?

/-- One step of indentation. -/
def unit : Indentation → String
  | two => "  "
  | four => "    "
  | tab => "\t"

/-- The margin of a line some steps in. -/
def margin (i : Indentation) (depth : Nat) : String := String.join (List.replicate depth i.unit)

@[simp] theorem margin_zero (i : Indentation) : i.margin 0 = "" := rfl

end Indentation

inductive LineEnding where
  | lf
  | crlf
  deriving DecidableEq, Inhabited

namespace LineEnding

def name : LineEnding → String
  | lf => "lf"
  | crlf => "cr_lf"

def ofName? (name : String) : Option LineEnding :=
  if name = "lf" then some lf
  else if name = "cr_lf" then some crlf
  else none

@[simp] theorem ofName?_name (e : LineEnding) : ofName? e.name = some e := by
  cases e <;> decide

def ofJson? (j : Json) : Option LineEnding := j.choice? >>= ofName?

def chars : LineEnding → List Char
  | lf => ['\n']
  | crlf => ['\r', '\n']

def text (e : LineEnding) : String := String.ofList e.chars

/-- Ends every line of a text in this way. -/
def apply : LineEnding → String → String
  | lf, s => s
  | crlf, s => String.ofList (s.toList.flatMap fun c => if c = '\n' then crlf.chars else [c])

end LineEnding

structure OutputSettings where
  keyCase : KeyCase := .preserve
  locale : String := "en"
  style : DeclarationStyle := .exported
  inferredTypes : Bool := true
  docs : Bool := true
  indentation : Indentation := .two
  lineEnding : LineEnding := .lf
  deriving DecidableEq, Inhabited

namespace OutputSettings

def toJson (s : OutputSettings) : Json :=
  .ofMembers [("key_case", s.keyCase.toJson), ("locale", .string s.locale),
    ("output_style", .string s.style.name), ("generate_types", .bool s.inferredTypes),
    ("generate_docs", .bool s.docs), ("indent", .string s.indentation.name),
    ("line_ending", .string s.lineEnding.name)]

def ofJson? (j : Json) : Option OutputSettings := do
  let r ← j.recordOf? ["key_case", "locale", "output_style", "generate_types", "generate_docs",
    "indent", "line_ending"]
  return { keyCase := ← Json.defaulted r "key_case" .preserve KeyCase.ofJson?
           locale := ← Json.defaulted r "locale" "en" Json.string?
           style := ← Json.defaulted r "output_style" .exported DeclarationStyle.ofJson?
           inferredTypes := ← Json.defaulted r "generate_types" true Json.bool?
           docs := ← Json.defaulted r "generate_docs" true Json.bool?
           indentation := ← Json.defaulted r "indent" .two Indentation.ofJson?
           lineEnding := ← Json.defaulted r "line_ending" .lf LineEnding.ofJson? }

end OutputSettings

end ApiContract
