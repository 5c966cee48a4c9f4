import ApiContract.Proofs.WrittenFiles

/-!
# Where generated files are written

The name of a generated file begins with its namespace, which may be any text. It stays below the
directory it is written to unless the namespace begins with a slash, or leads upwards in front of
one. As long as all names stay below, writing changes no file outside the directory.
-/

namespace ApiContract

namespace FilePath

variable {dir p : FilePath}

/-- A path that only leads downwards from the directory that it goes on from. -/
structure StaysBelow (p : FilePath) : Prop where
  relative : isAbsolute p = false
  noStepUp : ".." ∉ steps p

/-- A text without slashes goes on with the last part of a path. -/
theorem exists_split_append {tail : List Char} (slashless : '/' ∉ tail) (cs : List Char) :
    ∃ parts last, split cs = parts ++ [last] ∧ split (cs ++ tail) = parts ++ [last ++ tail] := by
  induction cs with
  | nil => exact ⟨[], [], rfl, split_name slashless⟩
  | cons c cs ih =>
    obtain ⟨parts, last, before, after⟩ := ih
    by_cases slash : c = '/'
    · subst slash
      exact ⟨[] :: parts, last, by rw [split, before]; rfl, by rw [List.cons_append, split, after]; rfl⟩
    · cases parts with
      | nil => exact ⟨[], c :: last, split_cons slash before, split_cons slash after⟩
      | cons part parts =>
        exact ⟨(c :: part) :: parts, last, split_cons slash before, split_cons slash after⟩

/-- The steps upwards of a path are its parts `..`. -/
theorem mem_steps_up : ".." ∈ steps p ↔ ['.', '.'] ∈ split p.toList := by
  rw [steps_eq, List.mem_filter, List.mem_map]
  constructor
  · rintro ⟨⟨part, hp, same⟩, -⟩
    obtain rfl : part = ['.', '.'] := String.ofList_injective same
    exact hp
  · exact fun h => ⟨⟨_, h, rfl⟩, rfl⟩

end FilePath

/-! ### Names of generated files -/

/-- A namespace that does not begin with a slash, and in which no part in front of a slash leads
upwards. -/
structure NamespaceStays (nspace : String) : Prop where
  relative : FilePath.isAbsolute nspace = false
  noStepUp : ['.', '.'] ∉ (FilePath.split nspace.toList).dropLast

namespace ContractSet

variable {set : ContractSet} {s : ProjectSettings} {files : List GeneratedFile}
  {documents : List ContractDocument} {nspace : String}

/-- What follows a namespace is part of the last step of a name, which leads nowhere else. -/
theorem ending_plain (t : Target) : '/' ∉ (ending t).toList ∧ (ending t).toList.head? = some '.' ∧
    3 ≤ (ending t).toList.length := by
  cases t with
  | typescript => decide
  | zod => decide
  | openApi version =>
    exact (by decide : '/' ∉ (ending (.openApi "")).toList ∧
      (ending (.openApi "")).toList.head? = some '.' ∧ 3 ≤ (ending (.openApi "")).toList.length)

/-- The name of a generated file stays below if and only if its namespace does. -/
theorem staysBelow_outputName_iff (t : Target) :
    FilePath.StaysBelow (outputName nspace t) ↔ NamespaceStays nspace := by
  obtain ⟨slashless, first, long⟩ := ending_plain t
  have absolute : FilePath.isAbsolute (outputName nspace t) = FilePath.isAbsolute nspace := by
    rw [outputName_eq, FilePath.isAbsolute, FilePath.isAbsolute, String.toList_append]
    cases nspace.toList with
    | nil => rw [List.nil_append, first]; rfl
    | cons c cs => rfl
  have up : ".." ∈ FilePath.steps (outputName nspace t) ↔
      ['.', '.'] ∈ (FilePath.split nspace.toList).dropLast := by
    obtain ⟨parts, last, before, after⟩ := FilePath.exists_split_append slashless nspace.toList
    have other : ['.', '.'] ≠ last ++ (ending t).toList := by
      intro same
      have lengths := congrArg List.length same
      rw [List.length_append, List.length_cons, List.length_singleton] at lengths
      omega
    rw [FilePath.mem_steps_up, outputName_eq, String.toList_append, after, before,
      List.dropLast_concat, List.mem_append, List.mem_singleton, or_iff_left other]
  exact ⟨fun h => ⟨absolute ▸ h.relative, fun h' => h.noStepUp (up.mpr h')⟩,
    fun h => ⟨absolute.trans h.relative, fun h' => h.noStepUp (up.mp h')⟩⟩

/-! ### All files of some documents -/

/-- The namespaces are those of the documents. -/
theorem mem_keys_addNamespaces (known : Keyed (Option KeyCase)) :
    nspace ∈ (documents.foldl (fun known d =>
        Keyed.insert d.nspace ((Keyed.get? known d.nspace).getD none <|> d.keyCase) known)
      known).keys ↔ nspace ∈ known.keys ∨ ∃ d ∈ documents, d.nspace = nspace := by
  induction documents generalizing known with
  | nil => simp
  | cons d rest ih =>
    rw [List.foldl_cons, ih, Keyed.mem_keys_insert]
    simp only [List.mem_cons, exists_eq_or_imp, eq_comm (a := nspace)]
    rw [or_assoc, or_left_comm]

/-- The namespaces of a set are those of its documents. -/
theorem mem_keys_namespaces {policy : ErrorPolicy} (built : ofDocuments policy documents = .ok set) :
    nspace ∈ set.namespaces.keys ↔ ∃ d ∈ documents, d.nspace = nspace := by
  rw [ofDocuments] at built
  obtain ⟨_, -, built⟩ := Except.bind_eq_ok built
  obtain ⟨_, -, built⟩ := Except.bind_eq_ok built
  obtain ⟨_, -, built⟩ := Except.bind_eq_ok built
  cases built
  exact (mem_keys_addNamespaces []).trans (or_iff_right List.not_mem_nil)

/-- Each target has a file for each namespace. -/
theorem exists_file (generated : set.files s = .ok files) {name : String} (asked : name ∈ s.targets)
    (known : nspace ∈ set.namespaces.keys) :
    ∃ t, s.target? name = some t ∧ ∃ f ∈ files, f.path = outputName nspace t := by
  rw [ContractSet.files] at generated
  obtain ⟨perTarget, made, generated⟩ := Except.bind_eq_ok generated
  cases generated
  obtain ⟨ofTarget, ht, made⟩ := Except.mem_of_mapM made asked
  split at made
  · cases made
  · rename_i t found
    obtain ⟨f, hf, made⟩ := Except.mem_of_mapM made known
    exact ⟨t, found, f, List.mem_flatten.mpr ⟨ofTarget, ht, hf⟩, path_of_file made⟩

end ContractSet

/-! ### What writing leaves alone -/

namespace FileNode

/-- A file in a node in which something was put was there before, or is part of what was put. -/
theorem file_of_at?_put {node new : FileNode} {place location : List String} {text : String}
    (h : (node.put new location).at? place = some (.file text)) :
    node.at? place = some (.file text) ∨
      ∃ rest, place = location ++ rest ∧ new.at? rest = some (.file text) := by
  induction location generalizing node place with
  | nil => exact .inr ⟨place, rfl, h⟩
  | cons name location ih =>
    cases place with
    | nil => cases h
    | cons first place =>
      rw [put, at?_cons, FileNode.entries, Keyed.get?_insert] at h
      rw [at?_cons]
      by_cases same : first = name
      · subst same
        rw [if_pos rfl, Option.bind_some] at h
        rcases ih h with old | ⟨rest, rfl, part⟩
        · cases found : Keyed.get? node.entries first with
          | some child => exact .inl (by simpa [found] using old)
          | none =>
            -- A directory that was missing held nothing.
            rw [found] at old
            cases place <;> cases old
        · exact .inr ⟨rest, rfl, part⟩
      · rw [if_neg same] at h
        exact .inl h

end FileNode

namespace FileTree

variable {t t' u : FileTree} {dir p : FilePath} {location place : List String} {text : String}

/-- Steps that are names lead downwards. -/
theorem prefix_of_follow {root : FileNode} {start steps : List String} (names : ".." ∉ steps)
    (h : follow root start steps = .ok location) : start <+: location := by
  induction steps generalizing start with
  | nil =>
    cases h
    exact List.prefix_refl _
  | cons step steps ih =>
    rw [List.mem_cons, not_or] at names
    rw [follow] at h
    split at h
    · rw [if_neg (Ne.symm names.1)] at h
      split at h
      · cases h
      split at h
      · exact (List.prefix_append start [step]).trans (ih names.2 h)
      · cases h
    · cases h
    · cases h

theorem GrowsTo.refl (t : FileTree) : t.GrowsTo t := fun _ node h => ⟨node, h, rfl⟩

theorem GrowsTo.trans (h : t.GrowsTo t') (h' : t'.GrowsTo u) : t.GrowsTo u := by
  intro place node hn
  obtain ⟨mid, hm, same⟩ := h place node hn
  obtain ⟨last, hl, same'⟩ := h' place mid hm
  exact ⟨last, hl, same.trans same'⟩

def Holds (t : FileTree) (dir : FilePath) (place : List String) : Prop :=
  ∃ location, follow t.root (t.origin dir) (FilePath.steps dir) = .ok location ∧ location <+: place

/-- A change that only adds, and that makes, changes and removes no file outside a directory. -/
structure KeepsOutside (dir : FilePath) (t t' : FileTree) : Prop where
  here : t'.workingDirectory = t.workingDirectory
  grown : t.GrowsTo t'
  outside {place : List String} (apart : ¬ t'.Holds dir place) (text : String) :
    t'.root.at? place = some (.file text) ↔ t.root.at? place = some (.file text)

theorem Holds.grown (h : t.Holds dir place) (here : t'.workingDirectory = t.workingDirectory)
    (grown : t.GrowsTo t') : t'.Holds dir place := by
  obtain ⟨location, leads, below⟩ := h
  refine ⟨location, ?_, below⟩
  rw [origin, here]
  exact follow_grown grown leads

instance (dir : FilePath) : IsPreorder FileTree (KeepsOutside dir) where
  refl t := ⟨rfl, .refl t, fun _ _ => Iff.rfl⟩
  trans _ _ _ h h' := ⟨h'.here.trans h.here, h.grown.trans h'.grown, fun apart text =>
    (h'.outside apart text).trans
      (h.outside (fun held => apart (held.grown h'.here h'.grown)) text)⟩

/-- Files elsewhere than where something is put are those that were there. -/
theorem file_at?_withPut_iff {new : FileNode} (takes : t.root.Takes location)
    (elsewhere : place ≠ location) (whole : ∀ rest, new.at? rest = some (.file text) → rest = []) :
    (t.withPut new location).root.at? place = some (.file text) ↔
      t.root.at? place = some (.file text) := by
  constructor
  · intro h
    rcases FileNode.file_of_at?_put h with old | ⟨rest, rfl, part⟩
    · exact old
    · rw [whole rest part, List.append_nil] at elsewhere
      exact absurd rfl elsewhere
  · intro h
    obtain ⟨node, hn, stays⟩ := FileNode.stays_put new takes elsewhere h
    cases stays
    exact hn

/-- Making a directory makes, changes and removes no file. -/
theorem makeDirectory_keepsOutside (dir p : FilePath) :
    Leads (KeepsOutside dir) (MonadFiles.makeDirectory p : StateM FileTree _) := by
  intro t
  change KeepsOutside dir t (t.after (t.makeDirectory p)).2
  cases made : t.makeDirectory p with
  | error fault => exact refl_of (KeepsOutside dir) t
  | ok t' =>
    obtain ⟨location, vacates, rfl⟩ := of_makeDirectory made
    refine ⟨rfl, growsTo_withPut vacates.takes ?_, fun {place} _ text => ?_⟩
    · intro old ho
      rw [vacates.free] at ho
      cases ho
    · by_cases same : place = location
      · subst same
        change (t.root.put _ place).at? place = _ ↔ _
        rw [FileNode.at?_put, vacates.free]
        constructor <;> nofun
      · refine file_at?_withPut_iff vacates.takes same fun rest part => ?_
        cases rest <;> cases part

/-- A path that stays below a directory leads to a place in it. -/
theorem Finds.holds {node : FileNode} (stays : p.StaysBelow)
    (found : t.Finds (FilePath.join dir p) location node) : t.Holds dir location := by
  have leads := found.follows
  rw [FilePath.steps_join dir stays.relative, follow_append, origin,
    FilePath.isAbsolute_join dir stays.relative] at leads
  obtain ⟨above, first, rest⟩ := Except.bind_eq_ok leads
  exact ⟨above, first, prefix_of_follow stays.noStepUp rest⟩

/-- So does writing at a path that stays below the directory. -/
theorem writeFile_keepsOutside (dir : FilePath) (stays : p.StaysBelow) (text : String) :
    Leads (KeepsOutside dir) (MonadFiles.write (FilePath.join dir p) text : StateM FileTree _) := by
  intro t
  change KeepsOutside dir t (t.after (t.writeFile (FilePath.join dir p) text)).2
  cases wrote : t.writeFile (FilePath.join dir p) text with
  | error fault => exact refl_of (KeepsOutside dir) t
  | ok t' =>
    obtain ⟨location, takes, rfl, found⟩ := of_writeFile wrote
    refine ⟨rfl, growsTo_withPut takes fun _ _ => rfl, fun apart other => ?_⟩
    refine file_at?_withPut_iff takes ?_ fun rest part => ?_
    · rintro rfl
      exact apart (found.holds stays)
    · cases rest with
      | nil => rfl
      | cons name rest => cases part

/-- Writing files that stay below a directory leaves all others as they are, also if it fails. -/
theorem writeAll_keepsOutside {files : List GeneratedFile} (dir : FilePath)
    (stay : ∀ f ∈ files, f.path.StaysBelow) :
    Leads (KeepsOutside dir) (GeneratedFile.writeAll files dir : StateM FileTree _) :=
  Leads.each fun f hf => laws.write_leads (makeDirectory_keepsOutside dir)
    (writeFile_keepsOutside dir (stay f hf))

end FileTree

/-- The files that are generated from some documents all stay below the directory that they are
written to if and only if there is no target, or all namespaces stay. If they do, each is written
below the directory, and writing changes no file outside it. -/
theorem generated_files_stay_below_iff (policy : ErrorPolicy) (documents : List ContractDocument)
    (s : ProjectSettings) (set : ContractSet) (files : List GeneratedFile)
    (built : ContractSet.ofDocuments policy documents = .ok set)
    (generated : set.files s = .ok files) :
    ((∀ f ∈ files, f.path.StaysBelow) ↔
      s.targets = [] ∨ ∀ d ∈ documents, NamespaceStays d.nspace) ∧
    ((∀ f ∈ files, f.path.StaysBelow) → ∀ dir,
      (∀ f ∈ files, FilePath.steps (f.pathIn dir) = FilePath.steps dir ++ FilePath.steps f.path ∧
        FilePath.isAbsolute (f.pathIn dir) = FilePath.isAbsolute dir) ∧
      ∀ t, FileTree.KeepsOutside dir t
        ((GeneratedFile.writeAll files dir : StateM FileTree _).run t).2) := by
  refine ⟨⟨fun stay => ?_, ?_⟩, fun stay dir => ⟨fun f hf => ?_, ?_⟩⟩
  · by_cases none : s.targets = []
    · exact .inl none
    refine .inr fun d hd => ?_
    obtain ⟨name, asked⟩ := List.exists_mem_of_ne_nil _ none
    have known := (ContractSet.mem_keys_namespaces built).mpr ⟨d, hd, rfl⟩
    obtain ⟨t, -, f, hf, path⟩ := ContractSet.exists_file generated asked known
    exact (ContractSet.staysBelow_outputName_iff t).mp (path ▸ stay f hf)
  · rintro (none | plain) f hf
    · rw [ContractSet.files, none] at generated
      cases generated
      cases hf
    · obtain ⟨name, t, found, nspace, known, made⟩ := ContractSet.mem_files generated hf
      obtain ⟨d, hd, rfl⟩ := (ContractSet.mem_keys_namespaces built).mp known
      rw [ContractSet.path_of_file made]
      exact (ContractSet.staysBelow_outputName_iff t).mpr (plain d hd)
  · have relative := (stay f hf).relative
    exact ⟨FilePath.steps_join dir relative, FilePath.isAbsolute_join dir relative⟩
  · exact FileTree.writeAll_keepsOutside dir stay

def amounts (nspace : String) : ContractDocument :=
  { nspace, types := [("Amount", .scalar .decimal)] }

/-- The set of one document with its files. -/
theorem exists_files_amounts (nspace : String)
    (succeeds : ((ContractSet.ofDocuments .raise [amounts nspace] >>= (·.files {})).toOption.any
      fun files => !files.isEmpty) = true) :
    ∃ set files, ContractSet.ofDocuments .raise [amounts nspace] = .ok set ∧
      set.files {} = .ok files ∧ files ≠ [] := by
  obtain ⟨files, made, some⟩ := Except.exists_ok_of_any succeeds
  obtain ⟨set, built, generated⟩ := Except.bind_eq_ok made
  exact ⟨set, files, built, generated, by simpa using some⟩

/-- Files of a namespace with a slash stay below. -/
theorem shop_amounts_stay_below :
    ∃ set files, ContractSet.ofDocuments .raise [amounts "shops/kiosk"] = .ok set ∧
      set.files {} = .ok files ∧ files ≠ [] ∧ (∀ f ∈ files, f.path.StaysBelow) ∧
      FileTree.KeepsOutside "out" desk
        ((GeneratedFile.writeAll files "out" : StateM FileTree _).run desk).2 := by
  obtain ⟨set, files, built, generated, some⟩ :=
    exists_files_amounts "shops/kiosk" (by decide +kernel)
  obtain ⟨stay, kept⟩ := generated_files_stay_below_iff _ _ _ set files built generated
  have below := stay.mpr (.inr (by
    rintro d hd
    obtain rfl := List.mem_singleton.mp hd
    exact ⟨by decide +kernel, by decide +kernel⟩))
  exact ⟨set, files, built, generated, some, below, (kept below "out").2 desk⟩

/-- A namespace that leads upwards has its files beside the directory they are written to. -/
theorem escaping_amounts_leave_directory :
    ∃ set files, ContractSet.ofDocuments .raise [amounts "../escape"] = .ok set ∧
      set.files {} = .ok files ∧
      ∃ f ∈ files, f.path = "../escape.typescript.ts" ∧ ¬ f.path.StaysBelow := by
  obtain ⟨set, files, built, generated, -⟩ :=
    exists_files_amounts "../escape" (by decide +kernel)
  have known := (ContractSet.mem_keys_namespaces built).mpr ⟨_, List.mem_cons_self, rfl⟩
  have asked : "typescript" ∈ ({} : ProjectSettings).targets := by decide
  obtain ⟨t, found, f, hf, path⟩ := ContractSet.exists_file generated asked known
  cases found
  refine ⟨set, files, built, generated, f, hf, path, fun stays => stays.noStepUp ?_⟩
  rw [path]
  decide +kernel

end ApiContract
