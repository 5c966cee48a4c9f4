import ApiContract.Command.Options
import ApiContract.Payload.Exchange
import ApiContract.Project.Settings

/-!
# Commands

What the program can be asked to do, and how that is said in its arguments.
-/

namespace ApiContract

inductive Command where
  | generate (settings : Option FilePath) (overrides : SettingOverrides) (preview : Bool)
  | check (settings : Option FilePath) (overrides : SettingOverrides) (directory : FilePath)
  | validatePayload (settings : Option FilePath) (overrides : SettingOverrides)
    (nspace type : String) (payload : FilePath) (direction : Direction)
  | init (settings : FilePath) (overwrite : Bool)
  /-- Shows a text. -/
  | tell (text : String)

/-- The kind of a command: its name, what it is for, and its options. -/
structure CommandSpec where
  name : String
  about : String
  options : List OptionSpec
  /-- The command that some options ask for. -/
  ofOptions : GivenOptions → Option Command

namespace CommandSpec

def programName : String := "contract-rs"

def versionLine : String := programName ++ " 0.1.0\n"

def settingsOption : OptionSpec :=
  { name := "config", short := some 'c', value := .path, valueName := "CONFIG",
    help := "Configuration file path" }

def inputOption : OptionSpec :=
  { name := "input", short := some 'i', value := .path, valueName := "INPUT",
    help := "Directory containing contract documents" }

def generate : CommandSpec :=
  { name := "generate"
    about := "Generate output files from contract documents"
    options := [settingsOption, inputOption,
      { name := "output", short := some 'o', value := .path, valueName := "OUTPUT",
        help := "Output directory for generated files" },
      { name := "dry-run", value := .flag, help := "Preview changes without writing files" },
      { name := "target", short := some 't', value := .text, valueName := "TARGET",
        help := "Only run one generator (ts, typescript, zod, openapi)" }]
    ofOptions := fun given =>
      some (.generate (Keyed.get? given "config")
        { contracts := Keyed.get? given "input"
          output := Keyed.get? given "output"
          target := Keyed.get? given "target" }
        (Keyed.contains given "dry-run")) }

def check : CommandSpec :=
  { name := "check"
    about := "Check that generated files are up-to-date"
    options := [
      { name := "path", short := some 'p', value := .path, valueName := "PATH", required := true,
        help := "Directory holding the generated files" },
      inputOption, settingsOption]
    ofOptions := fun given => do
      return .check (Keyed.get? given "config") { contracts := Keyed.get? given "input" }
        (← Keyed.get? given "path") }

def validatePayload : CommandSpec :=
  { name := "validate-payload"
    about := "Validate a JSON payload against a contract type"
    options := [
      { name := "type", short := some 't', value := .text, valueName := "TYPE_NAME",
        required := true, help := "Type name, e.g. InvoiceCreatePayload" },
      { name := "namespace", short := some 'n', value := .text, valueName := "NAMESPACE",
        required := true, help := "Namespace the type is declared in" },
      { name := "payload", short := some 'p', value := .path, valueName := "PAYLOAD",
        required := true, help := "JSON file holding the payload" },
      { name := "direction", short := some 'd', value := .choice ["query", "body"],
        valueName := "DIRECTION", default? := some "body", help := "How the payload arrives" },
      inputOption, settingsOption]
    ofOptions := fun given => do
      return .validatePayload (Keyed.get? given "config")
        { contracts := Keyed.get? given "input" }
        (← Keyed.get? given "namespace") (← Keyed.get? given "type")
        (← Keyed.get? given "payload")
        (← Keyed.get? given "direction" >>= Direction.ofName?) }

def init : CommandSpec :=
  { name := "init"
    about := "Initialize a new contract-rs configuration file"
    options := [
      { name := "output", short := some 'o', value := .path, valueName := "OUTPUT",
        default? := some ProjectSettings.fileName,
        help := "Output path for configuration file" },
      { name := "force", value := .flag, help := "Overwrite existing configuration file" }]
    ofOptions := fun given => do
      return .init (← Keyed.get? given "output") (Keyed.contains given "force") }

def all : List CommandSpec := [generate, check, validatePayload, init]

/-! ### Help -/

def helpRow : String × String := ("-h, --help", "Print help")

def helpText (c : CommandSpec) : String :=
  let required := c.options.filter (·.required)
  c.about ++ "\n\nUsage: " ++ programName ++ " " ++ c.name ++ " [OPTIONS]" ++
    String.join (required.map fun spec => " " ++ spec.usage) ++ "\n\nOptions:\n" ++
    OptionSpec.columns (c.options.map (fun spec => (spec.names, spec.description)) ++ [helpRow])

def helpCommandAbout : String := "Print this message or the help of the given subcommand(s)"

/-- The help on the program as a whole. -/
def overview : String :=
  "Generate TypeScript, Zod and OpenAPI output from API contracts\n\nUsage: " ++ programName ++
    " <COMMAND>\n\nCommands:\n" ++
    OptionSpec.columns (all.map (fun c => (c.name, c.about)) ++ [("help", helpCommandAbout)]) ++
    "\nOptions:\n" ++
    OptionSpec.columns [helpRow, ("-V, --version", "Print version")]

/-- What the command `help` shows. -/
def helpOn : List String → Option Command
  | [] => some (.tell overview)
  | ["help"] =>
    some (.tell (helpCommandAbout ++ "\n\nUsage: " ++ programName ++ " help [COMMAND]...\n\n" ++
      "Arguments:\n  [COMMAND]...  Print help for the subcommand(s)\n"))
  | [name] => (all.find? (·.name == name)).map fun c => .tell c.helpText
  | _ => none

end CommandSpec

namespace Command

/-- The command that some arguments ask for, if they are well formed. -/
def ofArguments? : List String → Option Command
  | [] => none
  | first :: rest =>
    match CommandSpec.all.find? (·.name == first) with
    | some c =>
      match OptionSpec.read c.options rest with
      | .ok given => c.ofOptions given
      | .error .helpAsked => some (.tell c.helpText)
      | .error .refused => none
    | none =>
      if first = "help" then CommandSpec.helpOn rest
      else match first.toList with
        | '-' :: 'h' :: _ => some (.tell CommandSpec.overview)
        | '-' :: 'V' :: _ => some (.tell CommandSpec.versionLine)
        | _ =>
          if first = "--help" then some (.tell CommandSpec.overview)
          else if first = "--version" then some (.tell CommandSpec.versionLine)
          else none

end Command

end ApiContract
