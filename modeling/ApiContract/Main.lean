import ApiContract.Command.Run

/-!
# The program

Commands work on the files of the machine here; everything else is decided elsewhere.
-/

namespace ApiContract

def FileFault.ofError : IO.Error → FileFault
  | .noFileOrDirectory .. => .notFound
  | .alreadyExists .. => .alreadyExists
  | .inappropriateType .. => .notADirectory
  | e => .other (toString e)

/-- An action with its failure as a value. -/
def attemptIO {α : Type} (action : IO α) : IO (Except FileFault α) := do
  try return .ok (← action) catch e => return .error (FileFault.ofError e)

instance : MonadFiles IO where
  kind? p := do
    try
      let place ← IO.FS.realPath p
      return some (if ← place.isDir then .directory else .file)
    catch _ => return none
  read p := do
    match ← attemptIO (IO.FS.realPath p) with
    | .error fault => return .error fault
    | .ok place =>
      if ← place.isDir then return .error .isADirectory
      else attemptIO (IO.FS.readFile p)
  write p text := attemptIO (IO.FS.writeFile p text)
  makeDirectory p := attemptIO (IO.FS.createDir p)
  names p := do
    match ← attemptIO (do (← IO.FS.realPath p).readDir) with
    | .ok entries => return entries.toList.map (·.fileName)
    | .error _ => return []
  location? p := do
    match ← attemptIO (IO.FS.realPath p) with
    | .ok place => return some (FilePath.steps place.toString)
    | .error _ => return none
  print text := do
    let out ← IO.getStdout
    out.putStr text

/-- Runs the command that the arguments ask for. -/
def runProgram (args : List String) : IO UInt32 := do
  match Command.ofArguments? args with
  | none =>
    IO.eprint CommandSpec.overview
    return Command.usageExitCode.toUInt32
  | some c =>
    match ← c.run with
    | .ok () => return 0
    | .error e =>
      IO.eprintln ("Error: " ++ e.message)
      return e.exitCode.toUInt32

end ApiContract

def main (args : List String) : IO UInt32 := ApiContract.runProgram args
