import ApiContract.Files.Glob
import ApiContract.Files.Ignore
import ApiContract.Project.Document
import ApiContract.Project.Error

/-!
# Finding contract documents

Every file below a directory whose name ends in `.json` is a document, in the order of paths, unless
rules on ignored files or the filter pass it over.
-/

namespace ApiContract.Discovery

variable {m : Type → Type} [Monad m] [MonadFiles m]

/-- A file that was found: where it is, and its path below the directory searched. -/
structure Found where
  path : FilePath
  relative : FilePath

def sorted (names : List String) : List String := names.mergeSort fun a b => !(b < a)

/-- The files below the entries of a directory. The first argument bounds the depth. -/
def walk : Nat → FilePath → List String → List String → List IgnoreLevel → m (List Found)
  | 0, _, _, _, _ => return []
  | depth + 1, dir, root, inner, outer => do
    let location := root ++ inner
    let levels := (← IgnoreLevel.read dir location) :: outer
    let names ← MonadFiles.names dir
    let found ← (sorted names).mapM fun name => do
      let path := FilePath.join dir name
      match ← MonadFiles.kind? path with
      | none => return []
      | some kind =>
        if IgnoreLevel.excludes levels (location ++ [name]) (kind = .directory) then return []
        else if kind = .directory then walk depth path root (inner ++ [name]) levels
        else return [{ path, relative := String.intercalate "/" (inner ++ [name]) }]
    return found.flatten

/-- The rules of the directories around one, the nearest first. -/
def outerLevels (location : List String) : m (List IgnoreLevel) :=
  (List.range location.length).reverse.mapM fun n =>
    let above := location.take n
    IgnoreLevel.read ("/" ++ String.intercalate "/" above) above

/-- The files below a directory, or a file itself. -/
def filesBelow (dir : FilePath) : m (List Found) := do
  if ← MonadFiles.isFile dir then return [{ path := dir, relative := "" }]
  else
    let location := (← MonadFiles.location? dir).getD []
    walk MonadFiles.maxDepth dir location [] (← outerLevels location)

def isDocument (f : Found) : Bool :=
  match (FilePath.steps f.path).getLast? with
  | some name => FilePath.extension? name = some "json"
  | none => false

/-- The filter of the settings. -/
def filter? (pattern : Option String) : Except ProjectError (Option Glob) :=
  match pattern with
  | none => .ok none
  | some pattern =>
    match Glob.ofString? pattern with
    | some glob => .ok (some glob)
    | none => .error (.invalidFilter pattern)

/-- Reads one document. -/
def document (path : FilePath) : m (Except ProjectError ContractDocument) := do
  match ← MonadFiles.read path with
  | .error fault => return .error (.unreadableDocument path fault)
  | .ok text =>
    match ContractDocument.ofText? text with
    | some d => return .ok d
    | none => return .error (.invalidDocument path)

/-- The documents of a project. -/
def documents (dir : FilePath) (pattern : Option String) :
    m (Except ProjectError (List ContractDocument)) := ExceptT.run do
  let glob ← ExceptT.mk (pure (filter? pattern))
  if !(← ExceptT.lift (MonadFiles.pathExists dir)) then throw (.directoryNotFound dir)
  let found := (← ExceptT.lift (filesBelow dir)).filter fun f =>
    isDocument f && (glob.map fun g => g.accepts f.relative).getD true
  let documents ← found.mapM fun f => ExceptT.mk (document f.path)
  if documents.isEmpty then throw (.noDocuments dir)
  return documents

end ApiContract.Discovery
