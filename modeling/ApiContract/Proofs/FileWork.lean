import ApiContract.Command.Run
import Mathlib.Order.Defs.Unbundled

/-!
# Work on files

Files are reached through `MonadFiles`, so what is relied on of them is stated as laws. Under these
laws work is followed through its steps: looking changes nothing, making directories takes no file
away, and a file that was written is read back until its path is written again.
-/

namespace ApiContract

variable {σ : Type} {α β ε : Type}

namespace GeneratedFile

variable {m : Type → Type} [Monad m] [MonadFiles m]

def replace (f : GeneratedFile) (dir : FilePath) : m (Except ProjectError WriteOutcome) :=
    ExceptT.run do
  ExceptT.mk (ensureDirectory (f.pathIn dir))
  match ← ExceptT.lift (MonadFiles.write (f.pathIn dir) f.content) with
  | .ok () => return .written (f.pathIn dir) f.content.utf8ByteSize
  | .error fault => throw (.unwritable (f.pathIn dir) fault)

end GeneratedFile

/-! ### Running work -/

section Run

variable {work : ExceptT ε (StateM σ) α} {next : α → ExceptT ε (StateM σ) β} {t t' : σ}

theorem run_bind_of_ok {a : α} (h : work.run.run t = (.ok a, t')) :
    (work >>= next).run.run t = (next a).run.run t' := by
  rw [ExceptT.run_bind, StateT.run_bind, h]
  rfl

theorem of_run_bind {b : β} {later : σ} (h : (work >>= next).run.run t = (.ok b, later)) :
    ∃ a t', work.run.run t = (.ok a, t') ∧ (next a).run.run t' = (.ok b, later) := by
  rw [ExceptT.run_bind, StateT.run_bind] at h
  rcases ran : work.run.run t with ⟨a | e, t'⟩
  · rw [ran] at h
    cases h
  · rw [ran] at h
    exact ⟨_, t', rfl, h⟩

theorem of_run_lift {work : StateM σ α} {a : α}
    (h : (ExceptT.lift work : ExceptT ε (StateM σ) α).run.run t = (.ok a, t')) :
    work.run t = (a, t') := by
  rw [ExceptT.run_lift] at h
  obtain ⟨value, rfl⟩ := Prod.ext_iff.mp h
  exact Prod.ext (Except.ok.inj value) rfl

/-- Work on each member of a list that changes nothing. -/
theorem run_mapM {work : α → ExceptT ε (StateM σ) β} {value : α → β} {xs : List α}
    (h : ∀ x ∈ xs, (work x).run.run t = (.ok (value x), t)) :
    (xs.mapM work).run.run t = (.ok (xs.map value), t) := by
  induction xs with
  | nil => rfl
  | cons x xs ih =>
    rw [List.mapM_cons, run_bind_of_ok (h x List.mem_cons_self),
      run_bind_of_ok (ih fun y hy => h y (List.mem_cons_of_mem _ hy))]
    rfl

end Run

/-! ### What work does to the files -/

/-- Work leads from every state to a related one. -/
def Leads (R : σ → σ → Prop) (work : StateM σ α) : Prop := ∀ t, R t (work.run t).2

namespace Leads

variable {R : σ → σ → Prop}

theorem mono {R' : σ → σ → Prop} {work : StateM σ α} (h : Leads R work)
    (le : ∀ t t', R t t' → R' t t') : Leads R' work := fun t => le _ _ (h t)

theorem map (f : α → β) {work : StateM σ α} (h : Leads R work) : Leads R (f <$> work) :=
  fun t => h t

/-- Work that may fail does no more when it is part of other work. -/
theorem lift {work : StateM σ α} (h : Leads R work) :
    Leads R (ExceptT.lift work : ExceptT ε (StateM σ) α).run := h.map Except.ok

variable [IsPreorder σ R]

/-- Work that changes nothing. -/
theorem looking {work : StateM σ α} (h : Leads Eq work) : Leads R work :=
  h.mono fun t _ same => same ▸ refl_of R t

theorem pure (a : α) : Leads R (Pure.pure a : StateM σ α) := fun t => refl_of R t

theorem bind {work : StateM σ α} {next : α → StateM σ β} (h : Leads R work)
    (hn : ∀ a, Leads R (next a)) : Leads R (work >>= next) :=
  fun t => trans_of R (h t) (hn (work.run t).1 (work.run t).2)

theorem mapM {f : α → StateM σ β} (h : ∀ a, Leads R (f a)) (xs : List α) :
    Leads R (xs.mapM f) := by
  induction xs with
  | nil => rw [List.mapM_nil]; exact pure _
  | cons x xs ih =>
    rw [List.mapM_cons]
    exact (h x).bind fun b => ih.bind fun bs => pure _

theorem ok (a : α) : Leads R (Pure.pure a : ExceptT ε (StateM σ) α).run := pure (Except.ok a)

theorem error (e : ε) : Leads R (throw e : ExceptT ε (StateM σ) α).run := pure (Except.error e)

theorem andThen {work : ExceptT ε (StateM σ) α} {next : α → ExceptT ε (StateM σ) β}
    (h : Leads R work.run) (hn : ∀ a, Leads R (next a).run) : Leads R (work >>= next).run := by
  rw [ExceptT.run_bind]
  refine h.bind fun outcome => ?_
  cases outcome with
  | ok a => exact hn a
  | error e => exact pure _

/-- Work that goes on unless a condition refuses it. -/
theorem refusing {c : Prop} [Decidable c] {e : ε} {next : PUnit → ExceptT ε (StateM σ) α}
    (h : Leads R (next ⟨⟩).run) :
    Leads R (if c then (do next (← throw e)) else next ⟨⟩).run := by
  split
  · exact pure _
  · exact h

theorem each {f : α → ExceptT ε (StateM σ) β} {xs : List α} (h : ∀ a ∈ xs, Leads R (f a).run) :
    Leads R (xs.mapM f).run := by
  induction xs with
  | nil => rw [List.mapM_nil]; exact ok _
  | cons x xs ih =>
    rw [List.mapM_cons]
    exact (h x List.mem_cons_self).andThen fun b =>
      (ih fun a ha => h a (List.mem_cons_of_mem _ ha)).andThen fun bs => ok _

theorem forEach {f : α → ExceptT ε (StateM σ) PUnit} (h : ∀ a, Leads R (f a).run) (xs : List α) :
    Leads R (xs.forM f).run := by
  induction xs with
  | nil => exact ok _
  | cons x xs ih => exact (h x).andThen fun _ => ih

end Leads

/-! ### Laws of files -/

variable [MonadFiles (StateM σ)]

def readAt (t : σ) (p : FilePath) : Except FileFault String :=
  ((MonadFiles.read p : StateM σ (Except FileFault String)).run t).1

def kindAt (t : σ) (p : FilePath) : Option FileKind :=
  ((MonadFiles.kind? p : StateM σ (Option FileKind)).run t).1

def SameFiles (t t' : σ) : Prop :=
  ∀ p, readAt t' p = readAt t p ∧ kindAt t' p = kindAt t p

instance : IsPreorder σ SameFiles where
  refl _ _ := ⟨rfl, rfl⟩
  trans _ _ _ h h' p := ⟨(h' p).1.trans (h p).1, (h' p).2.trans (h p).2⟩

/-- A file that is at a path in one state is there in the other, as it was. -/
def KeepsFile (p : FilePath) (t t' : σ) : Prop :=
  ∀ text, readAt t p = .ok text → readAt t' p = .ok text

instance (p : FilePath) : IsPreorder σ (KeepsFile p) where
  refl _ _ read := read
  trans _ _ _ h h' text read := h' text (h text read)

/-- Writing at one path leaves a file at another one as it is. -/
def Apart (σ : Type) [MonadFiles (StateM σ)] (p q : FilePath) : Prop :=
  ∀ text, Leads (@KeepsFile σ _ q) (MonadFiles.write p text)

/-- What programs rely on when they use files: looking is only looking, what was written is read,
and what is made or shown takes no file away. -/
structure FileLaws (σ : Type) [MonadFiles (StateM σ)] : Prop where
  kind? (p : FilePath) : Leads (@Eq σ) (MonadFiles.kind? p)
  read (p : FilePath) : Leads (@Eq σ) (MonadFiles.read p)
  names (p : FilePath) : Leads (@Eq σ) (MonadFiles.names p)
  location? (p : FilePath) : Leads (@Eq σ) (MonadFiles.location? p)
  print (text : String) : Leads (@SameFiles σ _) (MonadFiles.print text)
  makeDirectory (p q : FilePath) : Leads (@KeepsFile σ _ q) (MonadFiles.makeDirectory p)
  exists_of_read {t : σ} {p : FilePath} {text : String} (h : readAt t p = .ok text) :
    (kindAt t p).isSome
  read_write {t t' : σ} {p : FilePath} {text : String}
    (h : (MonadFiles.write p text : StateM σ (Except FileFault Unit)).run t = (.ok (), t')) :
    readAt t' p = .ok text

namespace FileLaws

/-! ### Looking for documents -/

variable (laws : FileLaws σ)

include laws

theorem pathExists (p : FilePath) : Leads (@SameFiles σ _) (MonadFiles.pathExists p) :=
  (Leads.looking (laws.kind? p)).bind fun _ => .pure _

theorem rulesAt (p : FilePath) : Leads (@SameFiles σ _) (IgnoreLevel.rulesAt p) := by
  refine (Leads.looking (laws.read p)).bind fun outcome => ?_
  cases outcome with
  | ok text => exact .pure _
  | error fault => exact .pure _

theorem level (p : FilePath) (location : List String) :
    Leads (@SameFiles σ _) (IgnoreLevel.read p location) :=
  (laws.rulesAt _).bind fun _ => (laws.rulesAt _).bind fun _ => (laws.rulesAt _).bind fun _ =>
    (laws.pathExists _).bind fun _ => .pure _

/-- A walk through directories only looks. -/
theorem walk (depth : Nat) (dir : FilePath) (root inner : List String)
    (outer : List IgnoreLevel) :
    Leads (@SameFiles σ _) (Discovery.walk depth dir root inner outer) := by
  induction depth generalizing dir inner outer with
  | zero => exact .pure _
  | succ depth ih =>
    refine (laws.level _ _).bind fun level => (Leads.looking (laws.names dir)).bind fun names => ?_
    refine (Leads.mapM (fun name => ?_) _).bind fun _ => .pure _
    refine (Leads.looking (laws.kind? _)).bind fun kind => ?_
    cases kind with
    | none => exact .pure _
    | some kind =>
      dsimp only
      split
      · exact .pure _
      · split
        · exact ih _ _ _
        · exact .pure _

theorem filesBelow (dir : FilePath) : Leads (@SameFiles σ _) (Discovery.filesBelow dir) := by
  refine Leads.bind ((Leads.looking (laws.kind? dir)).bind fun _ => .pure _) fun isFile => ?_
  split
  · exact .pure _
  · refine (Leads.looking (laws.location? dir)).bind fun location => ?_
    refine Leads.bind ?_ fun outer => laws.walk _ _ _ _ _
    exact Leads.mapM (fun n => laws.level _ _) _

theorem document (p : FilePath) : Leads (@SameFiles σ _) (Discovery.document p) := by
  refine (Leads.looking (laws.read p)).bind fun outcome => ?_
  cases outcome with
  | error fault => exact .pure _
  | ok text =>
    dsimp only
    split
    · exact .pure _
    · exact .pure _

theorem documents (dir : FilePath) (pattern : Option String) :
    Leads (@SameFiles σ _) (Discovery.documents dir pattern) := by
  refine Leads.andThen (.pure _) fun glob => ?_
  refine (Leads.lift (laws.pathExists dir)).andThen fun found => Leads.refusing ?_
  refine (Leads.lift (laws.filesBelow dir)).andThen fun found => ?_
  refine (Leads.each fun f _ => laws.document f.path).andThen fun documents => ?_
  exact Leads.refusing (.ok _)

/-! ### A dry run -/

theorem say (line : String) : Leads (@SameFiles σ _) (Command.say line).run :=
  Leads.lift (laws.print _)

theorem load (s : ProjectSettings) : Leads (@SameFiles σ _) (Command.load s).run := by
  refine (laws.say _).andThen fun _ => (laws.documents _ _).andThen fun documents => ?_
  refine (laws.say _).andThen fun _ => Leads.andThen (.pure _) fun set => ?_
  exact (laws.say _).andThen fun _ => .ok _

theorem sayOutcome (outcome : WriteOutcome) :
    Leads (@SameFiles σ _) (Command.sayOutcome outcome).run := by
  cases outcome with
  | written path bytes => exact laws.say _
  | unchanged path => exact laws.say _
  | preview path content =>
    exact (laws.say _).andThen fun _ => (laws.say _).andThen fun _ =>
      (laws.say _).andThen fun _ => laws.say _

/-- Showing what would be written leaves all files as they are. -/
theorem preview (s : ProjectSettings) :
    Leads (@SameFiles σ _) (Command.runGenerate s true).run := by
  refine (laws.load s).andThen fun set => (laws.say _).andThen fun _ => ?_
  refine Leads.andThen (.pure _) fun files => ?_
  exact Leads.andThen (.ok _) fun outcomes => Leads.forEach laws.sayOutcome _

/-! ### Writing -/

section Making

variable {R : σ → σ → Prop} [IsPreorder σ R]
  (makes : ∀ p, Leads R (MonadFiles.makeDirectory p : StateM σ _))

theorem settle (p : FilePath) (outcome : Except FileFault Unit) :
    Leads R (MonadFiles.makeDirectories.settle p outcome : StateM σ _) := by
  cases outcome with
  | ok _ => exact .pure _
  | error fault =>
    refine Leads.bind ((Leads.looking (laws.kind? p)).bind fun _ => .pure _) fun found => ?_
    split
    · exact .pure _
    · exact .pure _

include makes

/-- Making directories does no more than making each of them. -/
theorem makeDirectories (depth : Nat) (p : FilePath) :
    Leads R (MonadFiles.makeDirectories depth p : StateM σ _) := by
  induction depth generalizing p with
  | zero => exact .pure _
  | succ depth ih =>
    rw [MonadFiles.makeDirectories]
    split
    · exact .pure _
    refine (makes p).bind fun outcome => ?_
    cases outcome with
    | ok _ => exact .pure _
    | error fault =>
      split
      · exact .pure _
      · split
        · exact .pure _
        · rename_i above _
          refine (ih above).bind fun outcome => ?_
          cases outcome with
          | ok _ => exact (makes p).bind fun _ => laws.settle _ _
          | error fault => exact .pure _
      · exact laws.settle _ _

/-- A directory is made only where none is. -/
theorem ensureDirectory (p : FilePath) :
    Leads R (GeneratedFile.ensureDirectory p : StateM σ _) := by
  rw [GeneratedFile.ensureDirectory]
  split
  · exact .pure _
  · split
    · exact .pure _
    refine Leads.bind ((Leads.looking (laws.kind? _)).bind fun _ => .pure _) fun found => ?_
    split
    · exact .pure _
    refine (laws.makeDirectories makes _ _).bind fun outcome => ?_
    cases outcome with
    | ok _ => exact .pure _
    | error fault => exact .pure _

end Making

theorem run_lookAt (p : FilePath) (t : σ) :
    ((ExceptT.lift (MonadFiles.read p) : ExceptT ProjectError (StateM σ) _).run.run t) =
      (.ok (readAt t p), t) := by
  rw [ExceptT.run_lift]
  exact Prod.ext rfl (laws.read p t).symm

/-- A file that has its content is left alone. -/
theorem run_write_current {f : GeneratedFile} {dir : FilePath} {t : σ}
    (current : readAt t (f.pathIn dir) = .ok f.content) :
    (f.write dir : StateM σ _).run t = (.ok (.unchanged (f.pathIn dir)), t) := by
  rw [GeneratedFile.write, run_bind_of_ok (laws.run_lookAt _ t), current]
  dsimp only
  rw [if_pos rfl]
  rfl

/-- A file with another text is written anew. -/
theorem run_write_stale {f : GeneratedFile} {dir : FilePath} {t : σ}
    (stale : readAt t (f.pathIn dir) ≠ .ok f.content) :
    (f.write dir : StateM σ _).run t = (f.replace dir : StateM σ _).run t := by
  rw [GeneratedFile.write, run_bind_of_ok (laws.run_lookAt _ t)]
  cases outcome : readAt t (f.pathIn dir) with
  | ok text =>
    have other : text ≠ f.content := by rintro rfl; exact stale outcome
    dsimp only
    rw [if_neg other]
    rfl
  | error fault => rfl

/-- Writing a file does no more than making directories and putting its text at its path. -/
theorem replace_leads {R : σ → σ → Prop} [IsPreorder σ R]
    (makes : ∀ p, Leads R (MonadFiles.makeDirectory p : StateM σ _)) {f : GeneratedFile}
    {dir : FilePath} (writes : ∀ text, Leads R (MonadFiles.write (f.pathIn dir) text : StateM σ _)) :
    Leads R (f.replace dir : StateM σ _) := by
  refine Leads.andThen (laws.ensureDirectory makes _) fun _ => ?_
  refine Leads.andThen (.lift (writes _)) fun outcome => ?_
  cases outcome with
  | ok _ => exact .pure _
  | error fault => exact .pure _

/-- Writing a file is making its directory and writing there, at most. -/
theorem write_leads {R : σ → σ → Prop} [IsPreorder σ R]
    (makes : ∀ p, Leads R (MonadFiles.makeDirectory p : StateM σ _)) {f : GeneratedFile}
    {dir : FilePath} (writes : ∀ text, Leads R (MonadFiles.write (f.pathIn dir) text : StateM σ _)) :
    Leads R (f.write dir : StateM σ _) := by
  intro t
  by_cases current : readAt t (f.pathIn dir) = .ok f.content
  · rw [laws.run_write_current current]
    exact refl_of R t
  · rw [laws.run_write_stale current]
    exact laws.replace_leads makes writes t

/-- After a file was written its text is there. -/
theorem read_replaced {f : GeneratedFile} {dir : FilePath} {t t' : σ} {outcome : WriteOutcome}
    (written : (f.replace dir : StateM σ _).run t = (.ok outcome, t')) :
    readAt t' (f.pathIn dir) = .ok f.content := by
  obtain ⟨_, made, -, written⟩ := of_run_bind written
  obtain ⟨result, later, wrote, ended⟩ := of_run_bind written
  cases result with
  | error fault => cases ended
  | ok _ =>
    cases ended
    exact laws.read_write (of_run_lift wrote)

/-- A file that was written, or left alone, is there. -/
theorem read_written {f : GeneratedFile} {dir : FilePath} {t t' : σ} {outcome : WriteOutcome}
    (written : (f.write dir : StateM σ _).run t = (.ok outcome, t')) :
    readAt t' (f.pathIn dir) = .ok f.content := by
  by_cases current : readAt t (f.pathIn dir) = .ok f.content
  · rw [laws.run_write_current current] at written
    cases written
    exact current
  · rw [laws.run_write_stale current] at written
    exact laws.read_replaced written

/-- Writing a file leaves the ones that are apart from it. -/
theorem write_keeps {f : GeneratedFile} {dir q : FilePath} (apart : Apart σ (f.pathIn dir) q) :
    Leads (@KeepsFile σ _ q) (f.write dir) :=
  laws.write_leads (fun p => laws.makeDirectory p q) apart

/-- Of files that are apart from each other, each is there when all were written. -/
theorem read_writtenAll {files : List GeneratedFile} {dir : FilePath}
    (apart : ∀ f ∈ files, ∀ g ∈ files, f ≠ g → Apart σ (f.pathIn dir) (g.pathIn dir)) {t t' : σ}
    {outcomes : List WriteOutcome}
    (written : (GeneratedFile.writeAll files dir : StateM σ _).run t = (.ok outcomes, t')) :
    ∀ f ∈ files, readAt t' (f.pathIn dir) = .ok f.content := by
  induction files generalizing t outcomes with
  | nil => nofun
  | cons g rest ih =>
    rw [GeneratedFile.writeAll, List.mapM_cons] at written
    obtain ⟨first, mid, wrote, written⟩ := of_run_bind written
    obtain ⟨others, later, wroteRest, ended⟩ := of_run_bind written
    cases ended
    have inRest := ih (fun f hf h hh => apart f (List.mem_cons_of_mem _ hf) h
      (List.mem_cons_of_mem _ hh)) wroteRest
    intro f hf
    rcases List.mem_cons.mp hf with rfl | hf
    · by_cases again : f ∈ rest
      · exact inRest f again
      · have kept : Leads (@KeepsFile σ _ (f.pathIn dir))
            (rest.mapM fun h => ExceptT.mk (h.write dir)).run :=
          Leads.each fun h hh => laws.write_keeps
            (apart h (List.mem_cons_of_mem _ hh) f hf fun same => again (same ▸ hh))
        have still := kept mid _ (laws.read_written wrote)
        rw [wroteRest] at still
        exact still
    · exact inRest f hf

/-! ### What is there -/

section Current

variable {files : List GeneratedFile} {dir : FilePath} {t : σ}

theorem run_writeAll_current
    (current : ∀ f ∈ files, readAt t (f.pathIn dir) = .ok f.content) :
    (GeneratedFile.writeAll files dir : StateM σ _).run t =
      (.ok (files.map fun f => .unchanged (f.pathIn dir)), t) :=
  run_mapM fun f hf => laws.run_write_current (current f hf)

/-- Looking at a file that is as it should be finds nothing and changes nothing. -/
theorem run_drift?_current {f : GeneratedFile} (current : readAt t (f.pathIn dir) = .ok f.content) :
    (f.drift? dir : StateM σ _).run t = (.ok none, t) := by
  have found : (MonadFiles.pathExists (f.pathIn dir) : StateM σ Bool).run t = (true, t) :=
    Prod.ext (laws.exists_of_read current) (laws.kind? _ t).symm
  have read : (MonadFiles.read (f.pathIn dir) : StateM σ _).run t = (.ok f.content, t) :=
    Prod.ext current (laws.read _ t).symm
  simp only [GeneratedFile.drift?, StateT.run_bind, found]
  change StateT.run (MonadFiles.read (f.pathIn dir) >>= _) t = _
  rw [StateT.run_bind, read]
  simp only [bind, if_pos]
  rfl

/-- Files that are as they should be do not drift. -/
theorem run_drift_current (current : ∀ f ∈ files, readAt t (f.pathIn dir) = .ok f.content) :
    (GeneratedFile.drift files dir : StateM σ _).run t = (.ok [], t) := by
  have each : (files.mapM fun f => ExceptT.mk (f.drift? dir : StateM σ _)).run.run t =
      (.ok (files.map fun _ => none), t) :=
    run_mapM fun f hf => laws.run_drift?_current (current f hf)
  have differing : (files.map fun _ => (none : Option Drift)).filterMap id = [] := by
    rw [List.filterMap_eq_nil_iff]
    simp
  rw [GeneratedFile.drift, run_bind_of_ok each]
  exact congrArg (fun drift => (Except.ok drift, t)) differing

end Current

end FileLaws

end ApiContract
