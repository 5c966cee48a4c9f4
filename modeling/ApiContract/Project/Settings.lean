import ApiContract.Error
import ApiContract.Files.FilePath
import ApiContract.Output.Settings
import ApiContract.Output.Target

/-!
# Settings of a project

Where the contract documents are, what is generated from them, and where to. Settings are read from
a file with sections; options of a command go over them.
-/

namespace ApiContract

structure ProjectSettings where
  contracts : FilePath := "./contracts"
  /-- A filter on the paths of documents below the directory. -/
  filter : Option String := none
  policy : ErrorPolicy := .raise
  output : FilePath := "./generated"
  text : OutputSettings := { keyCase := .camel }
  targets : List String := ["typescript", "zod", "openapi"]
  apiVersion : String := Target.defaultVersion
  deriving Inhabited

/-- What a command says itself instead of the settings. -/
structure SettingOverrides where
  contracts : Option FilePath := none
  output : Option FilePath := none
  target : Option String := none
  keyCase : Option KeyCase := none
  inferredTypes : Option Bool := none
  docs : Option Bool := none

namespace ProjectSettings

def fileName : FilePath := "contract-rs.toml"

/-- A section that may be missing. -/
def section? (r : Keyed Json) (name : String) (keys : List String) : Option (Keyed Json) :=
  Json.defaulted r name [] (Json.recordOf? keys)

def ofJson? (j : Json) : Option ProjectSettings := do
  let r ← j.recordOf? ["input", "output", "naming", "generators"]
  let input ← section? r "input" ["dir", "filter", "error_policy"]
  let output ← section? r "output"
    ["dir", "style", "indent", "line_ending", "generate_types", "generate_docs"]
  let naming ← section? r "naming" ["key_case", "locale"]
  let generators ← section? r "generators" ["targets", "api_version"]
  let standard : ProjectSettings := {}
  return {
    contracts := ← Json.defaulted input "dir" standard.contracts Json.string?
    filter := ← Json.optional input "filter" Json.string?
    policy := ← Json.defaulted input "error_policy" standard.policy ErrorPolicy.ofJson?
    output := ← Json.defaulted output "dir" standard.output Json.string?
    text := {
      keyCase := ← Json.defaulted naming "key_case" standard.text.keyCase KeyCase.ofJson?
      locale := ← Json.defaulted naming "locale" standard.text.locale Json.string?
      style := ← Json.defaulted output "style" standard.text.style DeclarationStyle.ofJson?
      inferredTypes :=
        ← Json.defaulted output "generate_types" standard.text.inferredTypes Json.bool?
      docs := ← Json.defaulted output "generate_docs" standard.text.docs Json.bool?
      indentation := ← Json.defaulted output "indent" standard.text.indentation
        Indentation.ofJson?
      lineEnding := ← Json.defaulted output "line_ending" standard.text.lineEnding
        LineEnding.ofJson? }
    targets := ← Json.defaulted generators "targets" standard.targets Json.strings?
    apiVersion := ← Json.defaulted generators "api_version" standard.apiVersion Json.string? }

/-- The settings with what a command says itself put over them. -/
def overriddenBy (s : ProjectSettings) (o : SettingOverrides) : ProjectSettings :=
  { s with
    contracts := o.contracts.getD s.contracts
    output := o.output.getD s.output
    targets := (o.target.map fun t => [t]).getD s.targets
    text := { s.text with
      keyCase := o.keyCase.getD s.text.keyCase
      inferredTypes := o.inferredTypes.getD s.text.inferredTypes
      docs := o.docs.getD s.text.docs } }

/-- The target of a name. -/
def target? (s : ProjectSettings) (name : String) : Option Target :=
  Target.ofName? name s.apiVersion

/-- A settings file that says what holds without one. -/
def template : String := String.intercalate "\n" [
  "# contract-rs configuration file",
  "",
  "[input]",
  "# Directory containing contract documents (*.json)",
  "dir = \"./contracts\"",
  "",
  "# Only load documents whose relative path matches this glob",
  "# filter = \"billing/*.json\"",
  "",
  "# Declaration mistakes: \"raise\" fails the run, \"log\" warns, \"silent\" ignores",
  "error_policy = \"raise\"",
  "",
  "[output]",
  "# Output directory for generated files",
  "dir = \"./generated\"",
  "",
  "# \"const_export\" (export const X = ...) or \"declaration\" (const X = ...)",
  "style = \"const_export\"",
  "",
  "# \"spaces2\", \"spaces4\" or \"tabs\"",
  "indent = \"spaces2\"",
  "",
  "# \"lf\" or \"cr_lf\"",
  "line_ending = \"lf\"",
  "",
  "# Whether to generate type inference exports (export type X = z.infer<typeof XSchema>)",
  "generate_types = true",
  "",
  "# Whether to generate JSDoc comments, .describe() calls and OpenAPI descriptions",
  "generate_docs = true",
  "",
  "[naming]",
  "# Case of field names on the wire: \"preserve\", \"camel\", \"snake\" or \"kebab\"",
  "key_case = \"camel\"",
  "",
  "# Locale recorded in generated file headers",
  "locale = \"en\"",
  "",
  "[generators]",
  "# Any of \"typescript\", \"zod\", \"openapi\"",
  "targets = [\"typescript\", \"zod\", \"openapi\"]",
  "",
  "# info.version of generated OpenAPI documents",
  "api_version = \"1.0.0\"",
  ""]

end ProjectSettings

end ApiContract
