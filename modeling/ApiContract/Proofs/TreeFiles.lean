import ApiContract.Files.Tree
import ApiContract.Proofs.FileWork
import ApiContract.Proofs.KeyOrder
import ApiContract.Proofs.Outcomes

/-!
# Files of a tree

A tree held in memory obeys the laws of files. Something is put only where directories lead to, and
only over nothing or over a file; so what was there before keeps its place and its kind, paths lead
where they led, and only the file that was written has another text.
-/

namespace ApiContract

namespace FileNode

variable {node child new : FileNode} {place location rest : List String} {name : String}

/-! ### Places -/

theorem at?_cons : node.at? (name :: rest) = (Keyed.get? node.entries name).bind (·.at? rest) := by
  rw [at?]
  cases Keyed.get? node.entries name <;> rfl

theorem at?_append : node.at? (place ++ rest) = (node.at? place).bind (·.at? rest) := by
  induction place generalizing node with
  | nil => rfl
  | cons name place ih =>
    rw [List.cons_append, at?_cons, at?_cons]
    cases Keyed.get? node.entries name with
    | none => rfl
    | some child => exact ih

/-- The entries of a directory are what stands one step below it. -/
theorem contains_of_directory {entries : Keyed FileNode}
    (here : node.at? place = some (.directory entries)) :
    Keyed.contains entries name = (node.at? (place ++ [name])).isSome := by
  rw [at?_append, here, Option.bind_some, at?_cons, FileNode.entries, Keyed.contains]
  cases Keyed.get? entries name <;> rfl

theorem at?_put : (node.put new location).at? location = some new := by
  induction location generalizing node with
  | nil => rfl
  | cons name rest ih =>
    rw [put, at?_cons, entries, Keyed.get?_insert_self]
    exact ih

def Opens : FileNode → List String → Prop
  | _, [] => True
  | node, name :: rest =>
    node.kind = .directory ∧ ∀ child, Keyed.get? node.entries name = some child → child.Opens rest

/-- A way goes on from where it has come to. -/
theorem opens_append (h : node.at? place = some child) (below : child.Opens rest) :
    node.Opens (place ++ rest) := by
  induction place generalizing node with
  | nil =>
    cases h
    exact below
  | cons name place ih =>
    rw [at?_cons] at h
    obtain ⟨next, hn, found⟩ := Option.bind_eq_some_iff.mp h
    cases node with
    | file text => cases hn
    | directory entries =>
      refine ⟨rfl, fun other ho => ?_⟩
      rw [hn] at ho
      cases ho
      exact ih found

/-! ### What stays where something is put -/

/-- A node that is a directory still is one, and one that is a file has its text. -/
inductive Stays : FileNode → FileNode → Prop where
  | file (text : String) : Stays (.file text) (.file text)
  | directory (entries entries' : List (String × FileNode)) :
    Stays (.directory entries) (.directory entries')

theorem Stays.refl (node : FileNode) : Stays node node := by
  cases node with
  | file text => exact .file text
  | directory entries => exact .directory entries entries

/-- Something can be put at a place: directories lead there, and at most a file is there. -/
structure Takes (node : FileNode) (location : List String) : Prop where
  opens : node.Opens location
  noDirectory : ∀ old, node.at? location = some old → old.kind = .file

/-- Whatever is elsewhere stays. -/
theorem stays_put (new : FileNode) (takes : node.Takes location) (elsewhere : place ≠ location)
    (h : node.at? place = some child) :
    ∃ child', (node.put new location).at? place = some child' ∧ child.Stays child' := by
  induction location generalizing node place with
  | nil =>
    -- The node itself is replaced, which is no directory: nothing is below it.
    obtain ⟨name, rest, rfl⟩ := List.exists_cons_of_ne_nil elsewhere
    cases node with
    | file text => cases h
    | directory entries => cases takes.noDirectory _ rfl
  | cons name location ih =>
    obtain ⟨isDirectory, onward⟩ := takes.opens
    cases node with
    | file text => cases isDirectory
    | directory entries =>
      cases place with
      | nil =>
        cases h
        exact ⟨_, rfl, .directory _ _⟩
      | cons first rest =>
        rw [at?_cons] at h
        obtain ⟨next, hn, found⟩ := Option.bind_eq_some_iff.mp h
        rw [put, at?_cons, FileNode.entries, Keyed.get?_insert]
        by_cases same : first = name
        · subst same
          rw [if_pos rfl]
          have below : next.Takes location := by
            refine ⟨onward next hn, fun old ho => takes.noDirectory old ?_⟩
            rw [at?_cons, hn]
            exact ho
          change Keyed.get? entries first = some next at hn
          rw [show ((Keyed.get? (directory entries).entries first).getD (directory [])) = next from
            by rw [FileNode.entries, hn]; rfl]
          exact ih below (fun eq => elsewhere (by rw [eq])) found
        · rw [if_neg same]
          exact ⟨child, h, .refl child⟩

end FileNode

namespace FileTree

variable {t t' : FileTree} {p q : FilePath} {text : String} {start location : List String}
  {node : FileNode}

/-! ### Paths -/

/-- A way is followed in two parts. -/
theorem follow_append (root : FileNode) (start way onward : List String) :
    follow root start (way ++ onward) = (follow root start way).bind (follow root · onward) := by
  induction way generalizing start with
  | nil => rfl
  | cons step way ih =>
    rw [List.cons_append, follow, follow]
    split
    · split
      · exact ih _
      split
      · rfl
      split
      · exact ih _
      · rfl
    · rfl
    · rfl

/-- A step down leads to an entry of a directory. -/
theorem follow_name {root : FileNode} {name : String} (plain : name ≠ "..")
    (h : follow root start [name] = .ok location) : location = start ++ [name] := by
  rw [follow] at h
  split at h
  · rw [if_neg plain] at h
    split at h
    · cases h
    split at h
    · cases h
      rfl
    · cases h
  · cases h
  · cases h

/-- A name that is there leads one step down. -/
theorem follow_name_of_at? {root child : FileNode} {name : String} (plain : name ≠ "..")
    (short : name.utf8ByteSize ≤ maxNameSize) (h : root.at? (start ++ [name]) = some child) :
    follow root start [name] = .ok (start ++ [name]) := by
  obtain ⟨node, hn, below⟩ := Option.bind_eq_some_iff.mp (FileNode.at?_append ▸ h)
  cases node with
  | file text => cases below
  | directory entries =>
    have known : Keyed.contains entries name = true := by
      rw [FileNode.contains_of_directory hn, h]
      rfl
    rw [follow, hn]
    dsimp only
    rw [if_neg plain, if_neg (Nat.not_lt.mpr short), if_pos known]
    rfl

/-- A path that ends in a name leads to an entry of the directory that the rest leads to. -/
theorem follows_name {root : FileNode} {steps way : List String} {name : String}
    (split : steps = way ++ [name]) (plain : name ≠ "..")
    (h : follow root start steps = .ok location) :
    ∃ above, follow root start way = .ok above ∧ location = above ++ [name] := by
  rw [split, follow_append] at h
  obtain ⟨above, followed, h⟩ := Except.bind_eq_ok h
  exact ⟨above, followed, follow_name plain h⟩

/-- Whatever is in one tree is in another one, as a directory or as the file it was. -/
def GrowsTo (t t' : FileTree) : Prop :=
  ∀ place node, t.root.at? place = some node →
    ∃ node', t'.root.at? place = some node' ∧ node.kind = node'.kind

/-- Paths lead where they led. -/
theorem follow_grown (grown : t.GrowsTo t') {steps : List String}
    (h : follow t.root start steps = .ok location) : follow t'.root start steps = .ok location := by
  induction steps generalizing start with
  | nil => exact h
  | cons step steps ih =>
    rw [follow] at h ⊢
    cases here : t.root.at? start with
    | none => rw [here] at h; cases h
    | some node =>
      obtain ⟨node', here', same⟩ := grown _ _ here
      cases node with
      | file text => rw [here] at h; cases h
      | directory entries =>
        cases node' with
        | file text => cases same
        | directory entries' =>
          rw [here] at h
          rw [here']
          dsimp only at h ⊢
          split at h
          · rename_i up
            rw [if_pos up]
            exact ih h
          rename_i down
          rw [if_neg down]
          split at h
          · cases h
          rename_i short
          rw [if_neg short]
          split at h
          · rename_i known
            rw [FileNode.contains_of_directory here] at known
            obtain ⟨child, before⟩ := Option.isSome_iff_exists.mp known
            obtain ⟨child', after, -⟩ := grown _ _ before
            have there : Keyed.contains entries' step = true := by
              rw [FileNode.contains_of_directory here', after]
              rfl
            rw [if_pos there]
            exact ih h
          · cases h

/-- What finding a path comes to. -/
structure Finds (t : FileTree) (p : FilePath) (location : List String) (node : FileNode) :
    Prop where
  named : p.isEmpty = false
  follows : follow t.root (t.origin p) (FilePath.steps p) = .ok location
  here : t.root.at? location = some node
  plain : node.kind = .file → asksForDirectory p = false

/-- Finding a path is following it from the root or the working directory. -/
theorem find_iff : t.find p = .ok (location, node) ↔ t.Finds p location node := by
  constructor
  · intro h
    rw [find] at h
    split at h
    · cases h
    rename_i named
    have named : p.isEmpty = false := by simpa using named
    obtain ⟨place, followed, h⟩ := Except.bind_eq_ok h
    cases here : t.root.at? place with
    | none => rw [here] at h; cases h
    | some found =>
      rw [here] at h
      cases found with
      | directory entries =>
        cases h
        exact ⟨named, followed, here, nofun⟩
      | file text =>
        dsimp only at h
        split at h
        · cases h
        · cases h
          rename_i plain
          exact ⟨named, followed, here, fun _ => by simpa using plain⟩
  · rintro ⟨named, followed, here, plain⟩
    rw [find, if_neg (by simp [named]), followed]
    simp only [bind, Except.bind, here]
    cases node with
    | file text => simp [plain rfl]
    | directory entries => rfl

/-- A file can be read where a path leads to one. -/
theorem readFile_iff : t.readFile p = .ok text ↔ ∃ location, t.Finds p location (.file text) := by
  constructor
  · intro h
    obtain ⟨⟨location, node⟩, found, h⟩ := Except.bind_eq_ok h
    cases node with
    | directory entries => cases h
    | file old =>
      cases h
      exact ⟨location, find_iff.mp found⟩
  · rintro ⟨location, found⟩
    rw [readFile, find_iff.mpr found]
    rfl

/-! ### Changes -/

def withPut (t : FileTree) (new : FileNode) (location : List String) : FileTree :=
  { t with root := t.root.put new location }

variable {new : FileNode}

/-- Putting something where a file may be takes nothing away. -/
theorem growsTo_withPut (takes : t.root.Takes location)
    (kind : ∀ old, t.root.at? location = some old → new.kind = .file) :
    t.GrowsTo (t.withPut new location) := by
  intro place old ho
  by_cases same : place = location
  · subst same
    exact ⟨new, FileNode.at?_put, by rw [takes.noDirectory old ho, kind old ho]⟩
  · obtain ⟨node, hn, stays⟩ := FileNode.stays_put new takes same ho
    refine ⟨node, hn, ?_⟩
    cases stays <;> rfl

/-- Files elsewhere are found as they were. -/
theorem finds_withPut (takes : t.root.Takes location)
    (kind : ∀ old, t.root.at? location = some old → new.kind = .file) {place : List String}
    (elsewhere : place ≠ location) (h : t.Finds q place (.file text)) :
    (t.withPut new location).Finds q place (.file text) := by
  obtain ⟨node, hn, stays⟩ := FileNode.stays_put new takes elsewhere h.here
  cases stays
  exact ⟨h.named, follow_grown (growsTo_withPut takes kind) h.follows, hn, h.plain⟩

/-- A place where nothing is yet, and that a path would lead to. -/
structure Vacates (t : FileTree) (p : FilePath) (location : List String) : Prop where
  takes : t.root.Takes location
  free : t.root.at? location = none
  leads {t' : FileTree} {child : FileNode} (grown : t.GrowsTo t')
    (same : t'.workingDirectory = t.workingDirectory)
    (made : t'.root.at? location = some child) :
    follow t'.root (t'.origin p) (FilePath.steps p) = .ok location

/-- A place is there for a new name in a directory. -/
theorem of_placeFor (h : t.placeFor p = .ok location) :
    ∃ way name above entries, FilePath.steps p = way ++ [name] ∧ location = above ++ [name] ∧
      follow t.root (t.origin p) way = .ok above ∧
      t.root.at? above = some (.directory entries) ∧
      ¬ (name = ".." ∨ Keyed.contains entries name) ∧ name.utf8ByteSize ≤ maxNameSize := by
  rw [placeFor] at h
  cases last : (FilePath.steps p).getLast? with
  | none => rw [last] at h; cases h
  | some name =>
    obtain ⟨way, split⟩ := List.getLast?_eq_some_iff.mp last
    rw [last, split, List.dropLast_concat] at h
    obtain ⟨above, followed, h⟩ := Except.bind_eq_ok h
    split at h
    · rename_i entries here
      split at h
      · cases h
      rename_i new
      split at h
      · cases h
      rename_i short
      cases h
      exact ⟨way, name, above, entries, split, rfl, followed, here, new, Nat.not_lt.mp short⟩
    · cases h
    · cases h

/-- A place for something new is vacant. -/
theorem vacates_of_placeFor (h : t.placeFor p = .ok location) : t.Vacates p location := by
  obtain ⟨way, name, above, entries, split, rfl, followed, here, new, short⟩ := of_placeFor h
  have free : t.root.at? (above ++ [name]) = none := by
    rw [FileNode.contains_of_directory here, not_or] at new
    exact Option.not_isSome_iff_eq_none.mp new.2
  refine ⟨⟨FileNode.opens_append here ⟨rfl, fun _ _ => trivial⟩, ?_⟩, free, ?_⟩
  · intro old ho
    rw [free] at ho
    cases ho
  · intro t' child grown same made
    have again := follow_grown grown followed
    rw [origin] at again
    rw [origin, same, split, follow_append, again]
    exact follow_name_of_at? (fun up => new (.inl up)) short made

/-- A path that leads to a place that is written leads to a place that can be. -/
theorem Finds.takes {text : String} (h : t.Finds p location (.file text)) :
    t.root.Takes location := by
  refine ⟨?_, fun node hn => ?_⟩
  · have opens : t.root.Opens (location ++ []) := FileNode.opens_append h.here trivial
    rwa [List.append_nil] at opens
  · rw [h.here] at hn
    cases hn
    rfl

/-- What a successful write comes to: the text stands where the path leads. -/
theorem of_writeFile (h : t.writeFile p text = .ok t') :
    ∃ location, t.root.Takes location ∧ t' = t.withPut (.file text) location ∧
      t'.Finds p location (.file text) := by
  rw [writeFile] at h
  split at h
  · cases h
  · rename_i location old found
    cases h
    have before := find_iff.mp found
    exact ⟨location, before.takes, rfl, before.named,
      follow_grown (growsTo_withPut before.takes fun _ _ => rfl) before.follows, FileNode.at?_put,
      fun _ => before.plain rfl⟩
  · obtain ⟨location, placed, h⟩ := Except.bind_eq_ok h
    split at h
    · cases h
    rename_i plain
    cases h
    have vacates := vacates_of_placeFor placed
    have grown : t.GrowsTo (t.withPut (.file text) location) :=
      growsTo_withPut vacates.takes fun _ _ => rfl
    have made : (t.withPut (.file text) location).root.at? location = some (.file text) :=
      FileNode.at?_put
    refine ⟨location, vacates.takes, rfl, ?_, vacates.leads grown rfl made, made,
      fun _ => by simpa using plain⟩
    cases empty : p.isEmpty with
    | false => rfl
    | true =>
      rw [String.isEmpty_iff] at empty
      subst empty
      cases placed
  · cases h

theorem of_makeDirectory (h : t.makeDirectory p = .ok t') :
    ∃ location, t.Vacates p location ∧ t' = t.withPut (.directory []) location := by
  obtain ⟨location, placed, h⟩ := Except.bind_eq_ok h
  cases h
  exact ⟨location, vacates_of_placeFor placed, rfl⟩

/-! ### The laws -/

/-- Making a directory takes no file away. -/
theorem keeps_makeDirectory (p q : FilePath) :
    Leads (KeepsFile q) (MonadFiles.makeDirectory p : StateM FileTree _) := by
  intro t text read
  change readAt (t.after (t.makeDirectory p)).2 q = .ok text
  cases made : t.makeDirectory p with
  | error fault => exact read
  | ok t' =>
    obtain ⟨location, vacates, rfl⟩ := of_makeDirectory made
    obtain ⟨place, found⟩ := readFile_iff.mp read
    refine readFile_iff.mpr ⟨place, finds_withPut vacates.takes ?_ ?_ found⟩
    · intro old ho
      rw [vacates.free] at ho
      cases ho
    · rintro rfl
      exact absurd found.here (by rw [vacates.free]; nofun)

theorem read_writeFile (h : t.writeFile p text = .ok t') : readAt t' p = .ok text := by
  obtain ⟨location, -, -, found⟩ := of_writeFile h
  exact readFile_iff.mpr ⟨location, found⟩

/-- A tree obeys the laws of files. -/
theorem laws : FileLaws FileTree where
  kind? _ _ := rfl
  read _ _ := rfl
  names _ _ := rfl
  location? _ _ := rfl
  print _ _ _ := ⟨rfl, rfl⟩
  makeDirectory := keeps_makeDirectory
  exists_of_read {t p text} read := by
    obtain ⟨location, found⟩ := readFile_iff.mp read
    change ((t.find p).toOption.map fun found => found.2.kind).isSome
    rw [find_iff.mpr found]
    rfl
  read_write {t t' p text} wrote := by
    change t.after (t.writeFile p text) = _ at wrote
    cases result : t.writeFile p text with
    | error fault => rw [result] at wrote; cases wrote
    | ok changed =>
      rw [result] at wrote
      cases wrote
      exact read_writeFile result

/-! ### Names in one directory -/

structure PartWays (p q : FilePath) : Prop where
  absolute : FilePath.isAbsolute p = FilePath.isAbsolute q
  names : ∃ way a b, FilePath.steps p = way ++ [a] ∧ FilePath.steps q = way ++ [b] ∧ a ≠ b ∧
    a ≠ ".." ∧ b ≠ ".."

/-- Paths that part ways lead to different files. -/
theorem apart_of_partWays (h : PartWays p q) : Apart FileTree p q := by
  intro text t old read
  change readAt (t.after (t.writeFile p text)).2 q = .ok old
  cases wrote : t.writeFile p text with
  | error fault => exact read
  | ok t' =>
    obtain ⟨location, takes, rfl, found⟩ := of_writeFile wrote
    obtain ⟨place, was⟩ := readFile_iff.mp read
    refine readFile_iff.mpr ⟨place, finds_withPut takes (fun _ _ => rfl) ?_ was⟩
    obtain ⟨way, a, b, stepsP, stepsQ, ne, plainA, plainB⟩ := h.names
    obtain ⟨above, ways, rfl⟩ := follows_name stepsQ plainB was.follows
    obtain ⟨above', ways', rfl⟩ := follows_name stepsP plainA found.follows
    have grown : t.GrowsTo (t.withPut (.file text) (above' ++ [a])) :=
      growsTo_withPut takes fun _ _ => rfl
    have again := follow_grown grown ways
    have start : (t.withPut (.file text) (above' ++ [a])).origin p = t.origin q := by
      rw [origin, origin, h.absolute]
      rfl
    rw [start, again] at ways'
    cases ways'
    intro same
    exact ne (List.cons.inj (List.append_cancel_left same)).1.symm

end FileTree

namespace FilePath

structure IsName (name : String) : Prop where
  slashless : '/' ∉ name.toList
  notEmpty : name ≠ ""
  notHere : name ≠ "."
  notAbove : name ≠ ".."

variable {name : String}

theorem split_cons {c : Char} {cs part : List Char} {parts : List (List Char)} (other : c ≠ '/')
    (h : split cs = part :: parts) : split (c :: cs) = (c :: part) :: parts := by
  rw [split]
  · rw [h]
  · exact other

theorem exists_split (cs : List Char) : ∃ part parts, split cs = part :: parts := by
  induction cs with
  | nil => exact ⟨[], [], rfl⟩
  | cons c cs ih =>
    obtain ⟨part, parts, h⟩ := ih
    by_cases slash : c = '/'
    · subst slash
      exact ⟨[], split cs, by rw [split]⟩
    · exact ⟨c :: part, parts, split_cons slash h⟩

theorem split_append_slash (front cs : List Char) :
    split (front ++ '/' :: cs) = split front ++ split cs := by
  induction front with
  | nil => simp [split]
  | cons c front ih =>
    by_cases slash : c = '/'
    · subst slash
      rw [List.cons_append, split, split, ih, List.cons_append]
    · obtain ⟨part, parts, h⟩ := exists_split front
      rw [h] at ih
      rw [List.cons_append, split_cons slash ih, split_cons slash h]
      rfl

theorem split_name {part : List Char} (h : '/' ∉ part) : split part = [part] := by
  induction part with
  | nil => rfl
  | cons c part ih =>
    rw [List.mem_cons, not_or] at h
    exact split_cons (Ne.symm h.1) (ih h.2)

theorem steps_eq (p : FilePath) : steps p =
    ((split p.toList).map String.ofList).filter fun part => !part.isEmpty && part != "." := rfl

theorem steps_name (plain : IsName name) : steps name = [name] := by
  rw [steps_eq, split_name plain.slashless]
  simp [plain.notEmpty, plain.notHere]

/-- A slash parts the steps of a path. -/
theorem steps_append_slash (front : List Char) (p : FilePath) :
    steps (String.ofList (front ++ '/' :: p.toList)) = steps (String.ofList front) ++ steps p := by
  rw [steps_eq, steps_eq, steps_eq]
  simp only [String.toList_ofList, split_append_slash, List.map_append, List.filter_append]

theorem isAbsolute_name (plain : IsName name) : isAbsolute name = false := by
  rw [isAbsolute]
  cases h : name.toList with
  | nil => rfl
  | cons c cs =>
    have slashless := plain.slashless
    rw [h, List.mem_cons, not_or] at slashless
    simpa using Ne.symm slashless.1

variable {p : FilePath}

/-- What joins a directory and a path that is not absolute: nothing, or a slash that may be there
already. -/
theorem join_relative (dir : FilePath) (relative : isAbsolute p = false) :
    dir = "" ∧ join dir p = p ∨ ∃ front, join dir p = String.ofList (front ++ '/' :: p.toList) ∧
      (dir = String.ofList front ∨ dir = String.ofList (front ++ ['/'])) ∧ dir ≠ "" := by
  rw [join]
  by_cases empty : dir = ""
  · subst empty
    exact .inl ⟨rfl, by simp⟩
  right
  rw [if_neg (by simp [relative, empty])]
  split
  · rename_i last
    obtain ⟨front, h⟩ := List.getLast?_eq_some_iff.mp last
    refine ⟨front, ?_, .inr ?_, empty⟩
    · rw [← String.toList_inj]
      simp [h]
    · rw [← String.toList_inj]
      simp [h]
  · refine ⟨dir.toList, ?_, .inl (by simp), empty⟩
    rw [← String.toList_inj]
    simp

theorem steps_join (dir : FilePath) (relative : isAbsolute p = false) :
    steps (join dir p) = steps dir ++ steps p := by
  rcases join_relative dir relative with ⟨rfl, joined⟩ | ⟨front, joined, rfl | rfl, -⟩
  · rw [joined]
    rfl
  · rw [joined, steps_append_slash]
  · have last : steps (String.ofList (front ++ ['/'])) = steps (String.ofList front) :=
      (steps_append_slash front "").trans (List.append_nil _)
    rw [joined, steps_append_slash, last]

/-- A joined path starts where the directory does. -/
theorem isAbsolute_join (dir : FilePath) (relative : isAbsolute p = false) :
    isAbsolute (join dir p) = isAbsolute dir := by
  rcases join_relative dir relative with ⟨rfl, joined⟩ | ⟨front, joined, rfl | rfl, notEmpty⟩
  · rw [joined, relative]
    rfl
  · rw [joined, isAbsolute, isAbsolute, String.toList_ofList, String.toList_ofList]
    cases front with
    | nil => exact absurd rfl notEmpty
    | cons c front => rfl
  · rw [joined, isAbsolute, isAbsolute, String.toList_ofList, String.toList_ofList]
    cases front <;> rfl

/-- A name goes on from a directory by one step. -/
theorem steps_join_name (dir : FilePath) (plain : IsName name) :
    steps (join dir name) = steps dir ++ [name] := by
  rw [steps_join dir (isAbsolute_name plain), steps_name plain]

end FilePath

/-- Different names in one directory are apart. -/
theorem FileTree.apart_join {dir name other : String} (plain : FilePath.IsName name)
    (plain' : FilePath.IsName other) (ne : name ≠ other) :
    Apart FileTree (FilePath.join dir name) (FilePath.join dir other) := by
  refine apart_of_partWays ⟨?_, FilePath.steps dir, name, other, FilePath.steps_join_name dir plain,
    FilePath.steps_join_name dir plain', ne, plain.notAbove, plain'.notAbove⟩
  rw [FilePath.isAbsolute_join dir (FilePath.isAbsolute_name plain),
    FilePath.isAbsolute_join dir (FilePath.isAbsolute_name plain')]

end ApiContract
