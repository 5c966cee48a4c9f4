import ApiContract.Command.Basic
import ApiContract.Project.Discovery
import ApiContract.Project.Writing
import ApiContract.Toml.Reader

/-!
# Running commands

A command reads settings and documents, and shows what it does line by line. Its failure is reported
by its result.
-/

namespace ApiContract

/-- Issues of a payload over several lines: code, detail, path, pointer and what else is known. -/
def Issue.block (i : Issue) : String :=
  let margin := "      "
  let member (key : String) (value : Json) : String :=
    Json.quote key ++ ": " ++ value.indented "  " margin
  Json.block "\x7b" "\x7d" "    " margin
    ([member "code" (.string i.code.name), member "detail" (.string i.detail),
      member "path" (.strings (i.path.map PathSegment.text)),
      member "pointer" (.string i.pointer)] ++
      if i.constraint.isEmpty then [] else [member "meta" (.object i.constraint)])

/-- All issues of a payload as one object. -/
def Issue.report (issues : List Issue) : String :=
  "\x7b\n  \"issues\": " ++ Json.block "[" "]" "  " "    " (issues.map Issue.block) ++ "\n\x7d"

namespace Command

variable {m : Type → Type} [Monad m] [MonadFiles m]

/-- Work that may fail. -/
abbrev Work (m : Type → Type) := ExceptT ProjectError m

def say (line : String) : Work m Unit := ExceptT.lift (MonadFiles.print (line ++ "\n"))

def attempt {α : Type} (outcome : m (Except ProjectError α)) : Work m α := ExceptT.mk outcome

def require {α : Type} (outcome : Except ProjectError α) : Work m α := ExceptT.mk (pure outcome)

/-- The settings of a file; the standard ones where there is no such file. -/
def readSettings (path : FilePath) : Work m ProjectSettings := do
  if !(← ExceptT.lift (MonadFiles.pathExists path)) then return {}
  match ← ExceptT.lift (MonadFiles.read path) with
  | .error fault => throw (.unreadableSettings path fault)
  | .ok text =>
    match Toml.read? text >>= ProjectSettings.ofJson? with
    | some s => return s
    | none => throw (.invalidToml path)

/-- The settings of a command, which have to name targets. -/
def settingsFor (path : Option FilePath) (overrides : SettingOverrides) :
    Work m ProjectSettings := do
  let s := (← readSettings (path.getD ProjectSettings.fileName)).overriddenBy overrides
  require s.check
  return s

/-- Reads all documents into one set. -/
def load (s : ProjectSettings) : Work m ContractSet := do
  say "Loading contract documents..."
  let documents ← attempt (Discovery.documents s.contracts s.filter)
  say ("  Found " ++ Json.natText documents.length ++ " document(s)")
  let set ← require (ContractSet.ofDocuments s.policy documents)
  say ("  Registered " ++ Json.natText set.registry.size ++ " type(s) in " ++
    Json.natText set.namespaces.length ++ " namespace(s)")
  return set

/-- A line between a preview and the text around it. -/
def rule : String := String.ofList (List.replicate 60 '─')

def sayOutcome : WriteOutcome → Work m Unit
  | .written path bytes => say ("✓ Written " ++ Json.natText bytes ++ " bytes to " ++ path)
  | .unchanged path => say ("· Unchanged " ++ path)
  | .preview path content => do
    say ("[dry-run] Would write to " ++ path ++ ":")
    say rule
    say content
    say rule

def runGenerate (s : ProjectSettings) (preview : Bool) : Work m Unit := do
  let set ← load s
  say "Generating output..."
  let files ← require (set.files s)
  let outcomes ←
    if preview then pure (GeneratedFile.previewAll files s.output)
    else attempt (GeneratedFile.writeAll files s.output)
  outcomes.forM sayOutcome

def sayDrift : Drift → Work m Unit
  | .missing path => say ("  ✗ missing " ++ path)
  | .changed path => say ("  ✗ changed " ++ path)

def runCheck (s : ProjectSettings) (directory : FilePath) : Work m Unit := do
  if !(← ExceptT.lift (MonadFiles.pathExists directory)) then throw (.directoryNotFound directory)
  let set ← load s
  say "Checking generated files..."
  let files ← require (set.files s)
  let drift ← attempt (GeneratedFile.drift files directory)
  if drift.isEmpty then say ("✓ " ++ Json.natText files.length ++ " file(s) up-to-date")
  else
    drift.forM sayDrift
    say "  Run 'contract-rs generate' to update"
    throw (.outdated drift.length)

def runValidatePayload (s : ProjectSettings) (nspace type : String) (payload : FilePath)
    (direction : Direction) : Work m Unit := do
  let text ← match ← ExceptT.lift (MonadFiles.read payload) with
    | .ok text => pure text
    | .error fault => throw (.file fault)
  let value ← match Json.read? Json.maxNesting text with
    | some j => pure j
    | none => throw (.invalidDocument payload)
  let set ← load s
  let verdict ← require (set.process s nspace type direction value)
  if verdict.issues.isEmpty then
    say ("✓ Payload matches " ++ type)
    say (verdict.params.indented "  " "")
  else
    say ("✗ Payload does not match " ++ type)
    say (Issue.report verdict.issues)
    throw (.mismatch verdict.issues.length payload)

def runInit (path : FilePath) (overwrite : Bool) : Work m Unit := do
  if (← ExceptT.lift (MonadFiles.pathExists path)) && !overwrite then
    say ("Error: Configuration file already exists: " ++ path)
    say "  Use --force to overwrite"
    throw .settingsPresent
  match ← ExceptT.lift (MonadFiles.write path ProjectSettings.template) with
  | .ok () => say ("✓ Created configuration file: " ++ path)
  | .error fault => throw (.file fault)

def work : Command → Work m Unit
  | generate settings overrides preview => do
    runGenerate (← settingsFor settings overrides) preview
  | check settings overrides directory => do
    runCheck (← settingsFor settings overrides) directory
  | validatePayload settings overrides nspace type payload direction => do
    runValidatePayload (← settingsFor settings overrides) nspace type payload direction
  | init settings overwrite => runInit settings overwrite
  | tell text => ExceptT.lift (MonadFiles.print text)

/-- Runs a command. -/
def run (c : Command) : m (Except ProjectError Unit) := ExceptT.run c.work

/-- The exit code of a program that did not understand its arguments. -/
def usageExitCode : Nat := 2

end Command

end ApiContract
