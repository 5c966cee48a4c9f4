import ApiContract.Error
import ApiContract.Files.Basic
import ApiContract.Json.Text

/-!
# Failures of a project
-/

namespace ApiContract

/-- Why a run on a project fails. -/
inductive ProjectError where
  | directoryNotFound (path : FilePath)
  | noDocuments (path : FilePath)
  | invalidFilter (pattern : String)
  | unreadableDocument (path : FilePath) (fault : FileFault)
  | invalidDocument (path : FilePath)
  | rejected (nspace : String) (cause : ConfigurationError)
  | generation (target nspace : String) (cause : GenerationError)
  | unknownTarget (name : String)
  | unknownNamespace (name : String)
  | invalidToml (path : FilePath)
  | noTargets
  | unsupportedTarget (name : String)
  | unreadableSettings (path : FilePath) (fault : FileFault)
  | noDirectory (path : FilePath) (fault : FileFault)
  | unwritable (path : FilePath) (fault : FileFault)
  | exchange (cause : ConfigurationError)
  | outdated (count : Nat)
  | mismatch (count : Nat) (payload : FilePath)
  | settingsPresent
  | file (fault : FileFault)

namespace ProjectError

/-- The parts of a project in which something can fail. -/
inductive Area where
  | load
  | configuration
  | generator
  | unknownTarget
  | unknownNamespace
  | settings
  | write
  | exchange
  | validation
  | file
  deriving DecidableEq

def area : ProjectError → Area
  | directoryNotFound _ | noDocuments _ | invalidFilter _ | unreadableDocument _ _
  | invalidDocument _ => .load
  | rejected _ _ => .configuration
  | generation _ _ _ => .generator
  | unknownTarget _ => .unknownTarget
  | unknownNamespace _ => .unknownNamespace
  | invalidToml _ | noTargets | unsupportedTarget _ | unreadableSettings _ _ => .settings
  | noDirectory _ _ | unwritable _ _ => .write
  | exchange _ => .exchange
  | outdated _ | mismatch _ _ | settingsPresent => .validation
  | file _ => .file

/-- What the message of an area begins with. -/
def Area.heading : Area → String
  | load => "Failed to load contracts: "
  | configuration | generator | unknownTarget | unknownNamespace => "Failed to generate output: "
  | settings => "Failed to load configuration: "
  | write => "Failed to write output: "
  | exchange => "Failed to process payload: "
  | validation => "Validation failed: "
  | file => "IO error: "

/-- The cause alone. A reader's own complaint about a text is not repeated. -/
def reason : ProjectError → String
  | directoryNotFound path => "Directory not found: " ++ path
  | noDocuments path => "No contract documents found in: " ++ path
  | invalidFilter pattern => "Invalid filter pattern '" ++ pattern ++ "'"
  | unreadableDocument path fault => "IO error reading " ++ path ++ ": " ++ fault.message
  | invalidDocument path => "Invalid contract document " ++ path
  | rejected nspace cause =>
    "Invalid contract for namespace '" ++ nspace ++ "': " ++ cause.message
  | generation target nspace cause =>
    target ++ " generation failed for namespace '" ++ nspace ++ "': " ++ cause.message
  | unknownTarget name =>
    "Unknown generator target '" ++ name ++ "' (expected typescript, zod or openapi)"
  | unknownNamespace name => "Unknown namespace '" ++ name ++ "'"
  | invalidToml path => "Invalid TOML in " ++ path
  | noTargets => "Invalid configuration value for 'generators.targets': no targets selected"
  | unsupportedTarget name =>
    "Invalid configuration value for 'generators.targets': unknown target `" ++ name ++ "`"
  | unreadableSettings path fault => "Failed to read config " ++ path ++ ": " ++ fault.message
  | noDirectory path fault => "Failed to create directory " ++ path ++ ": " ++ fault.message
  | unwritable path fault => "Failed to write file " ++ path ++ ": " ++ fault.message
  | exchange cause => cause.message
  | outdated count => Json.natText count ++ " generated file(s) out of date"
  | mismatch count payload => Json.natText count ++ " issue(s) in " ++ payload
  | settingsPresent => "Configuration file already exists"
  | file fault => fault.message

def message (e : ProjectError) : String := e.area.heading ++ e.reason

/-- What the program's exit tells its caller. -/
def exitCode (e : ProjectError) : Nat := if e.area = .validation then 2 else 1

end ProjectError

end ApiContract
