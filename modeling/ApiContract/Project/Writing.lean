import ApiContract.Files.Basic
import ApiContract.Project.ContractSet

/-!
# Writing and comparing generated files

Files are written below a directory; one that already has its content is left alone. Comparing tells
which of them are missing or have another content.
-/

namespace ApiContract

/-- What became of one generated file. -/
inductive WriteOutcome where
  | written (path : FilePath) (bytes : Nat)
  | unchanged (path : FilePath)
  | preview (path : FilePath) (content : String)
  deriving DecidableEq

/-- How a generated file differs from the one that is there. -/
inductive Drift where
  | missing (path : FilePath)
  | changed (path : FilePath)
  deriving DecidableEq

namespace GeneratedFile

variable {m : Type → Type} [Monad m] [MonadFiles m]

/-- Where the file belongs below a directory. -/
def pathIn (f : GeneratedFile) (dir : FilePath) : FilePath := FilePath.join dir f.path

/-- Makes sure that the directory of a path is there. -/
def ensureDirectory (p : FilePath) : m (Except ProjectError Unit) := do
  match FilePath.parent? p with
  | none => return .ok ()
  | some above =>
    if above.isEmpty then return .ok ()
    if ← MonadFiles.pathExists above then return .ok ()
    match ← MonadFiles.makeDirectories MonadFiles.maxDepth above with
    | .ok () => return .ok ()
    | .error fault => return .error (.noDirectory above fault)

/-- Writes one file below a directory. -/
def write (f : GeneratedFile) (dir : FilePath) : m (Except ProjectError WriteOutcome) :=
    ExceptT.run do
  let path := f.pathIn dir
  match ← ExceptT.lift (MonadFiles.read path) with
  | .ok text => if text = f.content then return .unchanged path
  | .error _ => pure ()
  ExceptT.mk (ensureDirectory path)
  match ← ExceptT.lift (MonadFiles.write path f.content) with
  | .ok () => return .written path f.content.utf8ByteSize
  | .error fault => throw (.unwritable path fault)

/-- Writes files one after the other, as far as that succeeds. -/
def writeAll (files : List GeneratedFile) (dir : FilePath) :
    m (Except ProjectError (List WriteOutcome)) :=
  ExceptT.run (files.mapM fun f => ExceptT.mk (f.write dir))

/-- What writing would do, without doing it. -/
def previewAll (files : List GeneratedFile) (dir : FilePath) : List WriteOutcome :=
  files.map fun f => .preview (f.pathIn dir) f.content

/-- Compares one file with the one below a directory. -/
def drift? (f : GeneratedFile) (dir : FilePath) : m (Except ProjectError (Option Drift)) := do
  let path := f.pathIn dir
  if !(← MonadFiles.pathExists path) then return .ok (some (.missing f.path))
  match ← MonadFiles.read path with
  | .ok text => return .ok (if text = f.content then none else some (.changed f.path))
  | .error fault => return .error (.file fault)

/-- How files differ from those below a directory. -/
def drift (files : List GeneratedFile) (dir : FilePath) :
    m (Except ProjectError (List Drift)) := ExceptT.run do
  return (← files.mapM fun f => ExceptT.mk (f.drift? dir)).filterMap id

end GeneratedFile

end ApiContract
