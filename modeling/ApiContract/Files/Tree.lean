import ApiContract.Files.Basic
import ApiContract.Keyed

/-!
# Files held in memory

A tree of directories, one of which the program runs in, and what the program has shown so far.
-/

namespace ApiContract

inductive FileNode where
  | file (text : String)
  | directory (entries : List (String × FileNode))
  deriving Inhabited

namespace FileNode

def kind : FileNode → FileKind
  | file _ => .file
  | directory _ => .directory

def entries : FileNode → Keyed FileNode
  | file _ => []
  | directory entries => entries

/-- What some names lead to, one below the other. -/
def at? (node : FileNode) : List String → Option FileNode
  | [] => some node
  | name :: rest =>
    match Keyed.get? node.entries name with
    | some child => at? child rest
    | none => none

/-- Puts a node below a directory, over what stood there. Directories on the way that are missing
are made. -/
def put (node : FileNode) (new : FileNode) : List String → FileNode
  | [] => new
  | name :: rest =>
    let child := (Keyed.get? node.entries name).getD (directory [])
    directory (Keyed.insert name (put child new rest) node.entries)

mutual

/-- All files of a node with their paths. -/
def files (path : FilePath) : FileNode → List (FilePath × String)
  | file text => [(path, text)]
  | directory entries => filesOfEntries path entries

def filesOfEntries (path : FilePath) : List (String × FileNode) → List (FilePath × String)
  | [] => []
  | (name, child) :: rest => files (FilePath.join path name) child ++ filesOfEntries path rest

end

end FileNode

structure FileTree where
  root : FileNode
  /-- The names that lead to the directory the program runs in. -/
  workingDirectory : List String
  /-- Texts shown so far, the last one first. -/
  shown : List String := []
  deriving Inhabited

namespace FileTree

def maxNameSize : Nat := 255

/-- Goes some steps from a place. -/
def follow (root : FileNode) (location : List String) :
    List String → Except FileFault (List String)
  | [] => .ok location
  | step :: rest =>
    match root.at? location with
    | some (.directory entries) =>
      if step = ".." then follow root location.dropLast rest
      else if maxNameSize < step.utf8ByteSize then .error .nameTooLong
      else if Keyed.contains entries step then follow root (location ++ [step]) rest
      else .error .notFound
    | some (.file _) => .error .notADirectory
    | none => .error .notFound

/-- Where the steps of a path begin. -/
def origin (t : FileTree) (p : FilePath) : List String :=
  if FilePath.isAbsolute p then [] else t.workingDirectory

/-- A path that ends like this can only lead to a directory. -/
def asksForDirectory (p : FilePath) : Bool :=
  match p.toList.reverse with
  | '/' :: _ | '.' :: '/' :: _ => true
  | _ => false

/-- The place a path leads to, and what is there. -/
def find (t : FileTree) (p : FilePath) : Except FileFault (List String × FileNode) :=
  if p.isEmpty then .error .notFound
  else do
    let location ← follow t.root (t.origin p) (FilePath.steps p)
    match t.root.at? location with
    | none => .error .notFound
    | some (.file text) =>
      if asksForDirectory p then .error .notADirectory else .ok (location, .file text)
    | some node => .ok (location, node)

/-- The place a new entry would have. -/
def placeFor (t : FileTree) (p : FilePath) : Except FileFault (List String) :=
  match (FilePath.steps p).getLast? with
  | none => .error (if p.isEmpty then .notFound else .alreadyExists)
  | some name => do
    let above ← follow t.root (t.origin p) (FilePath.steps p).dropLast
    match t.root.at? above with
    | some (.directory entries) =>
      if name = ".." ∨ Keyed.contains entries name then .error .alreadyExists
      else if maxNameSize < name.utf8ByteSize then .error .nameTooLong
      else .ok (above ++ [name])
    | some (.file _) => .error .notADirectory
    | none => .error .notFound

def readFile (t : FileTree) (p : FilePath) : Except FileFault String := do
  match ← t.find p with
  | (_, .file text) => .ok text
  | (_, .directory _) => .error .isADirectory

def writeFile (t : FileTree) (p : FilePath) (text : String) : Except FileFault FileTree :=
  match t.find p with
  | .ok (_, .directory _) => .error .isADirectory
  | .ok (location, .file _) => .ok { t with root := t.root.put (.file text) location }
  | .error .notFound => do
    let location ← t.placeFor p
    if asksForDirectory p then .error .isADirectory
    else .ok { t with root := t.root.put (.file text) location }
  | .error fault => .error fault

def makeDirectory (t : FileTree) (p : FilePath) : Except FileFault FileTree := do
  let location ← t.placeFor p
  .ok { t with root := t.root.put (.directory []) location }

/-- The tree after a change, and how the change ended. -/
def after (t : FileTree) : Except FileFault FileTree → Except FileFault Unit × FileTree
  | .ok changed => (.ok (), changed)
  | .error fault => (.error fault, t)

/-- The files below the directory the program runs in. -/
def files (t : FileTree) : List (FilePath × String) :=
  match t.root.at? t.workingDirectory with
  | some node => node.files ""
  | none => []

/-- A tree of some files; the program runs in the directory that holds them. -/
def ofFiles (workingDirectory : List String) (files : List (FilePath × String)) : FileTree :=
  { root := files.foldl
      (fun root (p, text) => root.put (.file text) (workingDirectory ++ FilePath.steps p))
      ((FileNode.directory []).put (.directory []) workingDirectory)
    workingDirectory }

end FileTree

instance : MonadFiles (StateM FileTree) where
  kind? p := fun t => (((t.find p).toOption.map fun found => found.2.kind), t)
  read p := fun t => (t.readFile p, t)
  write p text := fun t => t.after (t.writeFile p text)
  makeDirectory p := fun t => t.after (t.makeDirectory p)
  names p := fun t => (((t.find p).toOption.map fun found => found.2.entries.keys).getD [], t)
  location? p := fun t => ((t.find p).toOption.map (·.1), t)
  print text := fun t => ((), { t with shown := text :: t.shown })

end ApiContract
