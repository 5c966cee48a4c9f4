import ApiContract.Files.FilePath

/-!
# Access to files

The few things a program does with files, and why one of them may fail. `MonadFiles` leaves open
what the files are: those of a machine, or a tree held in memory.
-/

namespace ApiContract

/-- Why a file could not be used. -/
inductive FileFault where
  | notFound
  | alreadyExists
  | notADirectory
  | isADirectory
  | nameTooLong
  | other (reason : String)
  deriving DecidableEq

namespace FileFault

/-- The system's words for a fault, with its number. -/
def message : FileFault → String
  | notFound => "No such file or directory (os error 2)"
  | alreadyExists => "File exists (os error 17)"
  | notADirectory => "Not a directory (os error 20)"
  | isADirectory => "Is a directory (os error 21)"
  | nameTooLong => "File name too long (os error 36)"
  | other reason => reason

end FileFault

inductive FileKind where
  | file
  | directory
  deriving DecidableEq

class MonadFiles (m : Type → Type) where
  /-- What a path leads to, if it leads to anything. -/
  kind? : FilePath → m (Option FileKind)
  read : FilePath → m (Except FileFault String)
  /-- Makes a file with this content, over one that is there. -/
  write : FilePath → String → m (Except FileFault Unit)
  /-- Makes one directory. -/
  makeDirectory : FilePath → m (Except FileFault Unit)
  /-- The names in a directory, in any order. -/
  names : FilePath → m (List String)
  /-- The steps from the root to what a path leads to. -/
  location? : FilePath → m (Option (List String))
  /-- Shows a text to the user. -/
  print : String → m Unit

namespace MonadFiles

variable {m : Type → Type} [Monad m] [MonadFiles m]

def pathExists (p : FilePath) : m Bool := do
  return (← kind? p).isSome

def isFile (p : FilePath) : m Bool := do
  return (← kind? p) = some .file

def isDirectory (p : FilePath) : m Bool := do
  return (← kind? p) = some .directory

/-- Makes a directory and those above it that are missing, at most as many as the first argument
says. -/
def makeDirectories : Nat → FilePath → m (Except FileFault Unit)
  | 0, _ => return .error .nameTooLong
  | depth + 1, p => do
    if p.isEmpty then return .ok ()
    match ← makeDirectory p with
    | .ok () => return .ok ()
    | .error .notFound =>
      match FilePath.parent? p with
      | none => return .error .notFound
      | some above =>
        match ← makeDirectories depth above with
        | .error fault => return .error fault
        | .ok () => settle p (← makeDirectory p)
    | .error fault => settle p (.error fault)
where
  /-- A directory that could not be made may be there. -/
  settle (p : FilePath) : Except FileFault Unit → m (Except FileFault Unit)
    | .ok () => return .ok ()
    | .error fault => do
      if ← isDirectory p then return .ok () else return .error fault

/-- No path has more steps than this. -/
def maxDepth : Nat := 4096

end MonadFiles

end ApiContract
