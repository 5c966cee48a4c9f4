import ApiContract.Keyed

/-!
# Options of a command

An option is written `--name VALUE`, `--name=VALUE`, `-n VALUE`, `-nVALUE` or `-n=VALUE`, a flag
`--name`. Each may be given once. A value that is an argument of its own does not look like an
option.
-/

namespace ApiContract

/-- What an option's value may be; a flag has none. -/
inductive OptionValue where
  | flag
  | text
  | path
  | choice (values : List String)
  deriving DecidableEq

structure OptionSpec where
  name : String
  short : Option Char := none
  value : OptionValue
  /-- What the help calls the value. -/
  valueName : String := ""
  required : Bool := false
  default? : Option String := none
  help : String

/-- Why arguments are not taken as options of a command. -/
inductive Interruption where
  | refused
  | helpAsked
  deriving DecidableEq

namespace OptionValue

def isFlag (v : OptionValue) : Bool := v == flag

/-- Whether a text can be the value. -/
def admits : OptionValue → String → Bool
  | flag, _ => false
  | text, _ => true
  | path, s => !s.isEmpty
  | choice values, s => values.contains s

end OptionValue

/-- The options given, by name; a flag has an empty value. -/
abbrev GivenOptions := Keyed String

namespace OptionSpec

/-- Adds an option that was not given before. -/
def give (spec : OptionSpec) (value : String) (given : GivenOptions) :
    Except Interruption GivenOptions :=
  if Keyed.contains given spec.name then .error .refused
  else .ok (Keyed.insert spec.name value given)

/-- Adds an option with a value. -/
def giveValue (spec : OptionSpec) (value : String) (given : GivenOptions) :
    Except Interruption GivenOptions :=
  if spec.value.admits value then spec.give value given else .error .refused

/-- An argument that begins an option: a hyphen and something behind it. -/
def looksLikeOption (arg : String) : Bool :=
  match arg.toList with
  | '-' :: _ :: _ => true
  | _ => false

/-- A value behind a short name, without the sign that may stand in front. -/
def attached : List Char → String
  | '=' :: value => String.ofList value
  | value => String.ofList value

/-- What one argument says. -/
inductive Reading where
  | done (given : GivenOptions)
  /-- The next argument is the value. -/
  | awaiting (spec : OptionSpec) (given : GivenOptions)

/-- Reads `--name` or `--name=VALUE`, the hyphens taken off. -/
def readLong (specs : List OptionSpec) (body : List Char) (given : GivenOptions) :
    Except Interruption Reading :=
  let name := String.ofList (body.takeWhile (· != '='))
  let value := (body.dropWhile (· != '=')).tail?.map String.ofList
  match specs.find? (·.name == name), value with
  | some spec, some value => return .done (← spec.giveValue value given)
  | some spec, none =>
    if spec.value.isFlag then return .done (← spec.give "" given) else return .awaiting spec given
  | none, none => .error (if name = "help" then .helpAsked else .refused)
  | none, some _ => .error .refused

/-- Reads short names, the hyphen taken off. -/
def readShort (specs : List OptionSpec) :
    List Char → GivenOptions → Except Interruption Reading
  | [], given => .ok (.done given)
  | c :: rest, given =>
    match specs.find? (·.short == some c) with
    | some spec =>
      if spec.value.isFlag then do readShort specs rest (← spec.give "" given)
      else if rest.isEmpty then .ok (.awaiting spec given)
      else return .done (← spec.giveValue (attached rest) given)
    | none => .error (if c = 'h' then .helpAsked else .refused)

/-- Reads the arguments of a command that takes options only. -/
def readAll (specs : List OptionSpec) : List String → GivenOptions →
    Except Interruption GivenOptions
  | [], given => .ok given
  | arg :: rest, given =>
    match arg.toList with
    | ['-', '-'] => if rest.isEmpty then .ok given else .error .refused
    | '-' :: '-' :: body => do
      match ← readLong specs body given with
      | .done given => readAll specs rest given
      | .awaiting spec given =>
        match rest with
        | value :: rest =>
          if looksLikeOption value then .error .refused
          else readAll specs rest (← spec.giveValue value given)
        | [] => .error .refused
    | '-' :: c :: body => do
      match ← readShort specs (c :: body) given with
      | .done given => readAll specs rest given
      | .awaiting spec given =>
        match rest with
        | value :: rest =>
          if looksLikeOption value then .error .refused
          else readAll specs rest (← spec.giveValue value given)
        | [] => .error .refused
    | _ => .error .refused

/-- The options of a command with the defaults of those not given; every required one is there. -/
def read (specs : List OptionSpec) (args : List String) : Except Interruption GivenOptions := do
  let given ← readAll specs args []
  if specs.any fun spec => spec.required && !Keyed.contains given spec.name then .error .refused
  else .ok (specs.foldl
    (fun given spec =>
      match spec.default? with
      | some value => if Keyed.contains given spec.name then given
          else Keyed.insert spec.name value given
      | none => given)
    given)

/-! ### Help -/

/-- An option as the help spells it. -/
def usage (spec : OptionSpec) : String :=
  "--" ++ spec.name ++ if spec.value.isFlag then "" else " <" ++ spec.valueName ++ ">"

/-- The short and the long name of an option. -/
def names (spec : OptionSpec) : String :=
  (match spec.short with
    | some c => String.ofList ['-', c, ',', ' ']
    | none => "    ") ++ spec.usage

/-- What the help says about an option. -/
def description (spec : OptionSpec) : String :=
  spec.help ++
    (match spec.default? with
      | some value => " [default: " ++ value ++ "]"
      | none => "") ++
    match spec.value with
    | .choice values => " [possible values: " ++ String.intercalate ", " values ++ "]"
    | _ => ""

/-- Two columns, the first as wide as its longest entry. -/
def columns (rows : List (String × String)) : String :=
  let width := (rows.map (·.1.length)).foldl max 0
  String.join (rows.map fun (left, right) =>
    "  " ++ left ++ String.ofList (List.replicate (width - left.length + 2) ' ') ++ right ++ "\n")

end OptionSpec

end ApiContract
