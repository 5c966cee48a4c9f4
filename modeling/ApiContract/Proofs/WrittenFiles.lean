import ApiContract.Proofs.Outcomes
import ApiContract.Proofs.TreeFiles

/-!
# Generated files that were written

The name of a generated file tells its namespace and its target, so generated files of one path are
one file, however often a target is asked for. When all were written, each is there with its
content: comparing finds no difference, and writing again changes nothing.
-/

namespace ApiContract

namespace ContractSet

variable {set : ContractSet} {s : ProjectSettings} {files : List GeneratedFile}
  {f g : GeneratedFile} {nspace nspace' : String} {t t' : Target}

/-! ### Names of generated files -/

def ending (t : Target) : String := "." ++ t.id ++ "." ++ t.extension

theorem outputName_eq (nspace : String) (t : Target) :
    outputName nspace t = nspace ++ ending t := by
  simp only [outputName, ending, String.append_assoc]

/-- No two targets end their files alike, so a name tells its parts. -/
theorem outputName_inj (h : outputName nspace t = outputName nspace' t') :
    nspace = nspace' ∧ t.id = t'.id := by
  rw [outputName_eq, outputName_eq] at h
  have reversed := congrArg (fun name => name.toList.reverse) h
  cases t <;> cases t' <;> simp [ending, Target.id, Target.extension] at reversed
  all_goals exact ⟨String.toList_inj.mp reversed, rfl⟩

theorem target?_inj {name name' : String} (h : s.target? name = some t)
    (h' : s.target? name' = some t') (same : t.id = t'.id) : t = t' := by
  rw [ProjectSettings.target?, Target.ofName?] at h h'
  split at h <;> split at h' <;> grind [Target.id]

theorem path_of_file (h : set.file s t nspace = .ok f) : f.path = outputName nspace t := by
  rw [file] at h
  obtain ⟨content, -, h⟩ := Except.bind_eq_ok h
  cases h
  rfl

/-- A generated file comes from one of the targets and a namespace. -/
theorem mem_files (h : set.files s = .ok files) (hf : f ∈ files) :
    ∃ name t, s.target? name = some t ∧
      ∃ nspace ∈ set.namespaces.keys, set.file s t nspace = .ok f := by
  rw [ContractSet.files] at h
  obtain ⟨perTarget, made, h⟩ := Except.bind_eq_ok h
  cases h
  obtain ⟨ofTarget, ht, hf⟩ := List.mem_flatten.mp hf
  obtain ⟨name, -, made⟩ := Except.exists_of_mem_mapM made ht
  split at made
  · cases made
  · rename_i t found
    exact ⟨name, t, found, Except.exists_of_mem_mapM made hf⟩

/-- Generated files of one path are one file. -/
theorem eq_of_path (h : set.files s = .ok files) (hf : f ∈ files) (hg : g ∈ files)
    (same : f.path = g.path) : f = g := by
  obtain ⟨name, t, ht, nspace, -, made⟩ := mem_files h hf
  obtain ⟨name', t', ht', nspace', -, made'⟩ := mem_files h hg
  rw [path_of_file made, path_of_file made'] at same
  obtain ⟨rfl, ids⟩ := outputName_inj same
  obtain rfl := target?_inj ht ht' ids
  rw [made] at made'
  exact Except.ok.inj made'

/-- A namespace without slashes makes a name of a file. -/
theorem isName_outputName (slashless : '/' ∉ nspace.toList) (t : Target) :
    FilePath.IsName (outputName nspace t) := by
  have notShort {short : String} (h : short.length < 3) : outputName nspace t ≠ short := by
    intro same
    have long : 3 ≤ (ending t).length := by
      cases t with
      | typescript => decide
      | zod => decide
      | openApi version => exact (by decide : 3 ≤ (ending (.openApi "")).length)
    have lengths := congrArg String.length same
    rw [outputName_eq, String.length_append] at lengths
    omega
  refine ⟨?_, notShort (by decide), notShort (by decide), notShort (by decide)⟩
  cases t <;> simp [outputName_eq, ending, Target.id, Target.extension, slashless]

/-- In a tree, files of namespaces that have no slash are apart. -/
theorem apart_files (h : set.files s = .ok files)
    (slashless : ∀ nspace ∈ set.namespaces.keys, '/' ∉ nspace.toList) (dir : FilePath) :
    ∀ f ∈ files, ∀ g ∈ files, f.path ≠ g.path → Apart FileTree (f.pathIn dir) (g.pathIn dir) := by
  have named (f : GeneratedFile) (hf : f ∈ files) : FilePath.IsName f.path := by
    obtain ⟨name, t, -, nspace, known, made⟩ := mem_files h hf
    rw [path_of_file made]
    exact isName_outputName (slashless nspace known) t
  exact fun f hf g hg ne => FileTree.apart_join (named f hf) (named g hg) ne

end ContractSet

/-! ### Writing and comparing -/

/-- When generated files were written, comparing finds no difference, and writing them again leaves
each of them unchanged and changes nothing. A dry run never changes a file. -/
theorem written_files_current {σ : Type} [MonadFiles (StateM σ)] (laws : FileLaws σ)
    {set : ContractSet} {s : ProjectSettings} {files : List GeneratedFile}
    (generated : set.files s = .ok files) {dir : FilePath}
    (apart : ∀ f ∈ files, ∀ g ∈ files, f.path ≠ g.path →
      Apart σ (f.pathIn dir) (g.pathIn dir)) {t t' : σ} {outcomes : List WriteOutcome}
    (written : (GeneratedFile.writeAll files dir : StateM σ _).run t = (.ok outcomes, t')) :
    (GeneratedFile.drift files dir : StateM σ _).run t' = (.ok [], t') ∧
    (GeneratedFile.writeAll files dir : StateM σ _).run t' =
      (.ok (files.map fun f => .unchanged (f.pathIn dir)), t') ∧
    ∀ (settings : ProjectSettings) (u : σ), SameFiles u
      ((Command.runGenerate settings true : Command.Work (StateM σ) Unit).run.run u).2 := by
  have different {f g : GeneratedFile} (hf : f ∈ files) (hg : g ∈ files) (ne : f ≠ g) :
      Apart σ (f.pathIn dir) (g.pathIn dir) :=
    apart f hf g hg fun same => ne (ContractSet.eq_of_path generated hf hg same)
  have current : ∀ f ∈ files, readAt t' (f.pathIn dir) = .ok f.content :=
    laws.read_writtenAll (fun f hf g hg ne => different hf hg ne) written
  exact ⟨laws.run_drift_current current, laws.run_writeAll_current current,
    fun settings u => laws.preview settings u⟩

def kiosk : ContractSet :=
  { registry := { tables := [(.api "kiosk", [("Item", .defined
      { name := "Item"
        definition := .object [{ name := "number", definition := .scalar .integer }] })])] }
    namespaces := [("kiosk", none)] }

def bothNames : ProjectSettings := { targets := ["typescript", "ts", "openapi"] }

def desk : FileTree := .ofFiles ["work"] []

theorem kiosk_files_current :
    ∃ files outcomes t', kiosk.files bothNames = .ok files ∧
      (GeneratedFile.writeAll files "out" : StateM FileTree _).run desk = (.ok outcomes, t') ∧
      (GeneratedFile.drift files "out" : StateM FileTree _).run t' = (.ok [], t') ∧
      (GeneratedFile.writeAll files "out" : StateM FileTree _).run t' =
        (.ok (files.map fun f => .unchanged (f.pathIn "out")), t') := by
  have succeeds : ((kiosk.files bothNames).bind fun files =>
      ((GeneratedFile.writeAll files "out" : StateM FileTree _).run desk).1).isOk = true := by
    decide +kernel
  cases generated : kiosk.files bothNames with
  | error e => rw [generated] at succeeds; cases succeeds
  | ok files =>
    rw [generated] at succeeds
    have apart := ContractSet.apart_files generated (by decide) "out"
    rcases written : (GeneratedFile.writeAll files "out" : StateM FileTree _).run desk with
      ⟨e | outcomes, t'⟩
    · change ((GeneratedFile.writeAll files "out" : StateM FileTree _).run desk).1.isOk at succeeds
      rw [written] at succeeds
      cases succeeds
    · obtain ⟨same, again, -⟩ := written_files_current FileTree.laws generated apart written
      exact ⟨files, outcomes, t', rfl, written, same, again⟩

end ApiContract
