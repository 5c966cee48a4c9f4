import ApiContract.Proofs.RegistrationRuns

/-!
# Scripts of loading

Loading asks nothing of the registry but whether what it registers is refused. So it follows a
script, which does not depend on the registry: types that are registered, some of them under a name
that is reserved first, and defects. An entry only grows in the course of a script, and every step
that is taken again where entries have grown has the outcome it had, and changes nothing.
-/

namespace ApiContract

/-! ### Entries that grow -/

/-- What may have become of an entry when more was registered. -/
inductive Entry.Grown : Option Entry → Option Entry → Prop where
  | free (e : Option Entry) : Grown none e
  | reserved (e : Entry) : Grown (some .placeholder) (some e)
  | kept (e : Entry) : Grown (some e) (some e)

namespace Entry.Grown

variable {e e' e'' : Option Entry} {f : Entry}

theorem refl (e : Option Entry) : Grown e e := by
  cases e with
  | none => exact .free none
  | some e => exact .kept e

theorem trans (h : Grown e e') (h' : Grown e' e'') : Grown e e'' := by
  cases h with
  | free => exact .free e''
  | reserved =>
    cases h' with
    | reserved => exact .reserved _
    | kept => exact .reserved _
  | kept => exact h'

theorem of_step (h : Entry.Step e e') : Grown e e' := by
  cases h with
  | same => exact .refl e
  | reserved => exact .free _
  | settled free =>
    rcases free with rfl | rfl
    · exact .free _
    · exact .reserved _

theorem eq_of_settled (h : Grown (some f) e) (settled : f.settled = true) : e = some f := by
  cases h with
  | reserved => cases settled
  | kept => rfl

theorem exists_entry (h : Grown (some f) e) : ∃ e', e = some e' := by
  cases h with
  | reserved e' => exact ⟨e', rfl⟩
  | kept => exact ⟨f, rfl⟩

end Entry.Grown

/-- Each entry of a registry is one that an entry of another may have become. -/
def Registry.GrowsTo (r later : Registry) : Prop :=
  ∀ s n, Entry.Grown (r.entry? s n) (later.entry? s n)

namespace Registry.GrowsTo

variable {r mid later : Registry}

theorem refl (r : Registry) : r.GrowsTo r := fun _ _ => .refl _

theorem trans (h : r.GrowsTo mid) (h' : mid.GrowsTo later) : r.GrowsTo later :=
  fun s n => (h s n).trans (h' s n)

theorem of_change {scope : Scope} {name : String} (h : r.Change scope name later) :
    r.GrowsTo later :=
  fun s n => .of_step (h.entry_step s n rfl rfl)

theorem entry_of_settled (h : r.GrowsTo later) {s : Scope} {n : String} {e : Entry}
    (he : r.entry? s n = some e) (settled : e.settled = true) : later.entry? s n = some e := by
  have grown := h s n
  rw [he] at grown
  exact grown.eq_of_settled settled

end Registry.GrowsTo

open Registry

/-! ### Registering again -/

namespace Registration

variable {r later : Registry} {s : Scope} {t : NamedType}

/-- A type that is registered again, when entries have grown, is accepted or refused as it was, and
nothing changes. -/
theorem register_again (policy : ErrorPolicy)
    (grown : GrowsTo ((register s t).perform policy r).2 later) :
    (register s t).perform policy later = (((register s t).perform policy r).1, later) := by
  have refused {e : ConfigurationError} (h : r.register s t = .error e)
      (h' : later.register s t = .error e) :
      (register s t).perform policy later = (((register s t).perform policy r).1, later) := by
    have before : (register s t).change r = .error e := h
    have after : (register s t).change later = .error e := h'
    rw [perform_of_error before, perform_of_error after]
  have accepted {r' : Registry} (h : r.register s t = .ok r')
      (h' : later.register s t = .ok later) :
      (register s t).perform policy later = (((register s t).perform policy r).1, later) := by
    have before : (register s t).change r = .ok r' := h
    have after : (register s t).change later = .ok later := h'
    rw [perform_of_ok before, perform_of_ok after]
  have still {e : Entry} (he : r.entry? s t.name = some e) (settled : e.settled = true) :
      later.entry? s t.name = some e :=
    ((GrowsTo.of_change (change_perform (register s t) policy r)).trans grown).entry_of_settled
      he settled
  have made := registers r s t
  generalize h : r.register s t = outcome at made
  cases made with
  | flawed hc => exact refused h (register_of_flawed hc)
  | settled sound free =>
    have placed : (register s t).change r = .ok (r.put s t.name (.defined t)) := h
    rw [perform_of_ok placed] at grown
    have here : entry? (r.put s t.name (.defined t)) s t.name = some (.defined t) := by
      rw [entry_put, if_pos ⟨rfl, rfl⟩]
    have known := grown.entry_of_settled here rfl
    exact accepted h (register_of_known sound known (Definition.sameValue_refl _))
  | known sound he same => exact accepted h (register_of_known sound (still he rfl) same)
  | barred sound he bars =>
    exact refused h (register_of_barred sound (still he bars.settled) bars)

/-- Under a name that has an entry, a type may be defined or registered. -/
theorem perform_define {e : Entry} (he : r.entry? s t.name = some e) (policy : ErrorPolicy) :
    (define s t).perform policy r = (register s t).perform policy r := by
  have same : (define s t).change r = (register s t).change r := define_of_entry he
  rw [perform, perform, runOn_attempt, runOn_attempt, same]

end Registration

/-! ### Registering without an error -/

namespace Registration

variable {r r' : Registry} {s : Scope} {t : NamedType}

theorem check_of_register (h : r.register s t = .ok r') : t.check = .ok () := by
  have made := registers r s t
  rw [h] at made
  cases made <;> assumption

theorem check_of_perform (h : (register s t).perform .raise r = (.ok (), r')) :
    t.check = .ok () := by
  cases made : (register s t).change r with
  | ok after => exact check_of_register made
  | error e =>
    rw [perform_of_error made] at h
    cases h

end Registration

/-- A registry has taken a type in: its own name stands for it, or still for a type with the same
definition, and no other entry has changed. -/
structure Registry.Takes (r : Registry) (s : Scope) (t : NamedType) (r' : Registry) : Prop where
  here : ∃ t', r'.entry? s t.name = some (.defined t') ∧
    t'.definition.sameValue t.definition = true ∧
    (t' = t ∨ r.entry? s t.name = some (.defined t'))
  elsewhere : ∀ s' n, ¬ (s' = s ∧ n = t.name) → r'.entry? s' n = r.entry? s' n

namespace Registry.Takes

variable {r r' : Registry} {s : Scope} {t : NamedType}

theorem put (r : Registry) (s : Scope) (t : NamedType) :
    r.Takes s t (r.put s t.name (.defined t)) where
  here := ⟨t, by rw [entry_put, if_pos ⟨rfl, rfl⟩], Definition.sameValue_refl _, .inl rfl⟩
  elsewhere s' n h := by rw [entry_put, if_neg h]

theorem of_register (h : r.register s t = .ok r') : r.Takes s t r' := by
  have made := Registration.registers r s t
  rw [h] at made
  cases made with
  | settled => exact .put r s t
  | known _ he same => exact ⟨⟨_, he, same, .inr he⟩, fun _ _ _ => rfl⟩

/-- A registration that succeeds has taken the type in. -/
theorem of_perform (h : (Registration.register s t).perform .raise r = (.ok (), r')) :
    r.Takes s t r' := by
  cases made : (Registration.register s t).change r with
  | ok after =>
    rw [Registration.perform_of_ok made] at h
    cases h
    exact of_register made
  | error e =>
    rw [Registration.perform_of_error made] at h
    cases h

/-- A name that is reserved on the way makes no difference. -/
theorem of_reserve (h : (r.reserve s t.name).1.Takes s t r') : r.Takes s t r' := by
  have stood {t' : NamedType}
      (he : Registry.entry? (r.reserve s t.name).1 s t.name = some (.defined t')) :
      r.entry? s t.name = some (.defined t') := by
    rw [entry_reserve, if_pos ⟨rfl, rfl⟩] at he
    cases hr : r.entry? s t.name with
    | none =>
      rw [hr] at he
      cases he
    | some e => rwa [hr] at he
  obtain ⟨t', here, same, source⟩ := h.here
  refine ⟨⟨t', here, same, source.imp_right stood⟩, fun s' n away => ?_⟩
  rw [h.elsewhere s' n away, entry_reserve, if_neg away]

/-- An entry was there before, or is that of the type. -/
theorem entry_cases (h : r.Takes s t r') {s' : Scope} {n : String} {e : Entry}
    (he : r'.entry? s' n = some e) :
    r.entry? s' n = some e ∨ s' = s ∧ n = t.name ∧ e = .defined t := by
  by_cases at_name : s' = s ∧ n = t.name
  · obtain ⟨rfl, rfl⟩ := at_name
    obtain ⟨t', here, -, source⟩ := h.here
    obtain rfl : e = .defined t' := Option.some.inj (he.symm.trans here)
    rcases source with rfl | stood
    · exact .inr ⟨rfl, rfl, rfl⟩
    · exact .inl stood
  · exact .inl ((h.elsewhere s' n at_name).symm.trans he)

end Registry.Takes

/-! ### Steps and scripts -/

/-- A step of a script. -/
inductive LoadStep where
  /-- A type is registered. -/
  | register (scope : Scope) (type : NamedType)
  /-- The name of a type, which may mention itself, is reserved, and then the type is defined. -/
  | reserveAndDefine (scope : Scope) (type : NamedType)
  | defect (e : ConfigurationError)

namespace LoadStep

def perform (policy : ErrorPolicy) :
    LoadStep → Registry → Except ConfigurationError Unit × Registry
  | register s t, r => (Registration.register s t).perform policy r
  | reserveAndDefine s t, r => (Registration.define s t).perform policy (r.reserve s t.name).1
  | defect e, r => (if policy = .raise then .error e else .ok (), r)

def ofExcept {α : Type} : Except ConfigurationError α → List LoadStep
  | .ok _ => []
  | .error e => [defect e]

/-- Takes steps one after another, until one is an error. -/
def run (policy : ErrorPolicy) :
    List LoadStep → Registry → Except ConfigurationError Unit × Registry
  | [], r => (.ok (), r)
  | step :: rest, r =>
    match step.perform policy r with
    | (.ok _, r') => run policy rest r'
    | (.error e, r') => (.error e, r')

variable {policy : ErrorPolicy} {step : LoadStep} {steps more : List LoadStep} {r later : Registry}
  {s : Scope} {t : NamedType}

/-- Scripts are run one after the other, and the first error ends both. -/
theorem run_append (policy : ErrorPolicy) (steps more : List LoadStep) (r : Registry) :
    run policy (steps ++ more) r =
      match run policy steps r with
      | (.ok _, r') => run policy more r'
      | (.error e, r') => (.error e, r') := by
  induction steps generalizing r with
  | nil => rfl
  | cons step rest ih =>
    rw [List.cons_append, run, run]
    split
    · exact ih _
    · rfl

theorem exists_entry_of_reserve (r : Registry) (s : Scope) (n : String) :
    ∃ e, Registry.entry? (r.reserve s n).1 s n = some e :=
  ⟨_, by rw [entry_reserve, if_pos ⟨rfl, rfl⟩]⟩

theorem reserve_eq_self {e : Entry} {n : String} (he : r.entry? s n = some e) :
    (r.reserve s n).1 = r := by
  rw [Registry.reserve, he]

theorem growsTo_reserve (r : Registry) (s : Scope) (n : String) : r.GrowsTo (r.reserve s n).1 := by
  have made : (Registration.reserve s n).change r = .ok (r.reserve s n).1 := rfl
  exact .of_change (Registration.change_of_ok made)

theorem growsTo_perform (policy : ErrorPolicy) (step : LoadStep) (r : Registry) :
    r.GrowsTo (step.perform policy r).2 := by
  cases step with
  | register s t => exact .of_change (Registration.change_perform _ policy r)
  | reserveAndDefine s t =>
    exact (growsTo_reserve r s t.name).trans
      (.of_change (Registration.change_perform _ policy (r.reserve s t.name).1))
  | defect e => exact .refl r

/-- No script takes an entry away. -/
theorem growsTo_run (policy : ErrorPolicy) (steps : List LoadStep) (r : Registry) :
    r.GrowsTo (run policy steps r).2 := by
  induction steps generalizing r with
  | nil => exact .refl r
  | cons step rest ih =>
    have first := growsTo_perform policy step r
    rw [run]
    split
    · rename_i r' he
      rw [he] at first
      exact first.trans (ih r')
    · rename_i he
      rwa [he] at first

/-- A step that is taken again has the outcome it had and changes nothing. -/
theorem perform_again (grown : GrowsTo (step.perform policy r).2 later) :
    step.perform policy later = ((step.perform policy r).1, later) := by
  cases step with
  | register s t => exact Registration.register_again policy grown
  | reserveAndDefine s t =>
    -- once its name is reserved, the type may as well be registered
    obtain ⟨e, he⟩ := exists_entry_of_reserve r s t.name
    simp only [perform, Registration.perform_define he] at grown ⊢
    have entries := (GrowsTo.of_change
      (Registration.change_perform (.register s t) policy (r.reserve s t.name).1)).trans grown
    obtain ⟨e', he'⟩ := (he ▸ entries s t.name).exists_entry
    rw [reserve_eq_self he', Registration.perform_define he']
    exact Registration.register_again policy grown
  | defect e => rfl

/-- A script that is run again comes to the same end and changes nothing. -/
theorem run_again (grown : GrowsTo (run policy steps r).2 later) :
    run policy steps later = ((run policy steps r).1, later) := by
  induction steps generalizing r with
  | nil => rfl
  | cons step rest ih =>
    rw [run] at grown ⊢
    cases h : step.perform policy r with
    | mk outcome r' =>
      cases outcome with
      | ok _ =>
        simp only [h] at grown
        -- what the rest of the script does lets entries only grow
        have first : GrowsTo (step.perform policy r).2 later := by
          rw [h]
          exact (growsTo_run policy rest r').trans grown
        rw [perform_again first, run]
        simp only [h]
        exact ih grown
      | error e =>
        simp only [h] at grown
        have first : GrowsTo (step.perform policy r).2 later := by rwa [h]
        rw [perform_again first, run]
        simp only [h]

/-! ### Scripts without an error -/

def type? : LoadStep → Option (Scope × NamedType)
  | register s t | reserveAndDefine s t => some (s, t)
  | defect _ => none

def types (steps : List LoadStep) : List (Scope × NamedType) := steps.filterMap type?

@[simp] theorem types_nil : types [] = [] := rfl

@[simp] theorem types_register (s : Scope) (t : NamedType) (steps : List LoadStep) :
    types (register s t :: steps) = (s, t) :: types steps := rfl

@[simp] theorem types_reserveAndDefine (s : Scope) (t : NamedType) (steps : List LoadStep) :
    types (reserveAndDefine s t :: steps) = (s, t) :: types steps := rfl

@[simp] theorem types_append (steps more : List LoadStep) :
    types (steps ++ more) = types steps ++ types more := List.filterMap_append

@[simp] theorem types_ofExcept {α : Type} (x : Except ConfigurationError α) :
    types (ofExcept x) = [] := by
  cases x <;> rfl

@[simp] theorem types_flatMap {α : Type} (f : α → List LoadStep) (xs : List α) :
    types (xs.flatMap f) = xs.flatMap fun x => types (f x) := by
  induction xs with
  | nil => rfl
  | cons x rest ih => rw [List.flatMap_cons, types_append, ih, List.flatMap_cons]

@[simp] theorem types_map_register (s : Scope) (ts : List NamedType) :
    types (ts.map (register s)) = ts.map fun t => (s, t) := by
  induction ts with
  | nil => rfl
  | cons t rest ih => rw [List.map_cons, types_register, ih, List.map_cons]

variable {r' : Registry}

theorem takes_of_perform (h : step.perform .raise r = (.ok (), r')) :
    ∃ s t, step.type? = some (s, t) ∧ r.Takes s t r' := by
  cases step with
  | register s t => exact ⟨s, t, rfl, .of_perform h⟩
  | reserveAndDefine s t =>
    obtain ⟨e, he⟩ := exists_entry_of_reserve r s t.name
    rw [perform, Registration.perform_define he] at h
    exact ⟨s, t, rfl, .of_reserve (.of_perform h)⟩
  | defect e => cases h

theorem of_run_cons (h : run .raise (step :: steps) r = (.ok (), r')) :
    ∃ mid, step.perform .raise r = (.ok (), mid) ∧ run .raise steps mid = (.ok (), r') := by
  rw [run] at h
  split at h
  · exact ⟨_, ‹_›, h⟩
  · cases h

/-- Every entry that a script without errors leaves stood there before, or one of its types has made
it. -/
theorem entry_of_run (h : run .raise steps r = (.ok (), r')) {n : String} {e : Entry}
    (he : r'.entry? s n = some e) :
    r.entry? s n = some e ∨
      ∃ t, (s, t) ∈ types steps ∧ t.name = n ∧ e = .defined t := by
  induction steps generalizing r with
  | nil =>
    cases h
    exact .inl he
  | cons step rest ih =>
    obtain ⟨mid, first, last⟩ := of_run_cons h
    obtain ⟨s', t, ht, taken⟩ := takes_of_perform first
    have cons : types (step :: rest) = (s', t) :: types rest := List.filterMap_cons_some ht
    rw [cons]
    rcases ih last with he | ⟨t', hm, found⟩
    · rcases taken.entry_cases he with before | ⟨rfl, rfl, rfl⟩
      · exact .inl before
      · exact .inr ⟨t, List.mem_cons_self, rfl, rfl⟩
    · exact .inr ⟨t', List.mem_cons_of_mem _ hm, found⟩

/-- After a script without errors the name of each of its types stands for a type with that
definition. -/
theorem defined_of_run (h : run .raise steps r = (.ok (), r')) (hm : (s, t) ∈ types steps) :
    ∃ t', r'.entry? s t.name = some (.defined t') ∧
      t'.definition.sameValue t.definition = true := by
  induction steps generalizing r with
  | nil => cases hm
  | cons first rest ih =>
    obtain ⟨mid, done, last⟩ := of_run_cons h
    obtain ⟨s', t₁, ht, taken⟩ := takes_of_perform done
    have cons : types (first :: rest) = (s', t₁) :: types rest := List.filterMap_cons_some ht
    rw [cons] at hm
    rcases List.mem_cons.mp hm with same | hm
    · cases same
      obtain ⟨t', here, same, -⟩ := taken.here
      have grown := growsTo_run .raise rest mid
      rw [last] at grown
      exact ⟨t', grown.entry_of_settled here rfl, same⟩
    · exact ih last hm

theorem sound_of_perform (h : step.perform .raise r = (.ok (), r')) :
    ∃ s t, step.type? = some (s, t) ∧ t.check = .ok () := by
  cases step with
  | register s t => exact ⟨s, t, rfl, Registration.check_of_perform h⟩
  | reserveAndDefine s t =>
    obtain ⟨e, he⟩ := exists_entry_of_reserve r s t.name
    rw [perform, Registration.perform_define he] at h
    exact ⟨s, t, rfl, Registration.check_of_perform h⟩
  | defect e => cases h

/-- A script without errors has no defects, and registers no type with a flaw. -/
theorem sound_of_run (h : run .raise steps r = (.ok (), r')) :
    ∀ step ∈ steps, ∃ s t, step.type? = some (s, t) ∧ t.check = .ok () := by
  induction steps generalizing r with
  | nil => simp
  | cons first rest ih =>
    obtain ⟨mid, done, last⟩ := of_run_cons h
    exact List.forall_mem_cons.mpr ⟨sound_of_perform done, ih last⟩

theorem check_of_run (h : run .raise steps r = (.ok (), r')) {s : Scope} {t : NamedType}
    (hm : (s, t) ∈ types steps) : t.check = .ok () := by
  obtain ⟨step, hs, ht⟩ := List.mem_filterMap.mp hm
  obtain ⟨s', t', ht', sound⟩ := sound_of_run h step hs
  cases ht.symm.trans ht'
  exact sound

theorem eq_ok_of_run {α : Type} {x : Except ConfigurationError α}
    (h : run .raise steps r = (.ok (), r')) (hm : ofExcept x ⊆ steps) : ∃ a, x = .ok a := by
  cases x with
  | ok a => exact ⟨a, rfl⟩
  | error e =>
    obtain ⟨s, t, ht, -⟩ := sound_of_run h (.defect e) (hm List.mem_cons_self)
    cases ht

end LoadStep

/-! ### Work that follows a script -/

namespace Loading

variable {α β : Type} {policy : ErrorPolicy} {r : Registry}

def ofExcept (x : Except ConfigurationError α) (otherwise : α) : Loading α :=
  match x with
  | .ok a => pure a
  | .error e => report e otherwise

/-- Work takes the steps of a script, whatever the registry is, and then yields a value. -/
def Follows (work : Loading α) (steps : List LoadStep) (a : α) : Prop :=
  ∀ policy r, work.runOn policy r =
    ((LoadStep.run policy steps r).1.map fun _ => a, (LoadStep.run policy steps r).2)

/-- Work goes on with the registry that the work before has left. -/
theorem runOn_bind (x : Loading α) (f : α → Loading β) (policy : ErrorPolicy) (r : Registry) :
    (x >>= f).runOn policy r =
      match x.runOn policy r with
      | (.ok a, r') => (f a).runOn policy r'
      | (.error e, r') => (.error e, r') := by
  have read : (x >>= f).runOn policy r =
      ExceptT.bindCont (fun a => f a policy) (x.runOn policy r).1 (x.runOn policy r).2 := rfl
  rw [read]
  obtain ⟨outcome, r'⟩ := x.runOn policy r
  cases outcome <;> rfl

/-- Work whose outcome is no error. -/
theorem runOn_of_isOk {work : Loading Unit} (h : (work.runOn policy r).1.isOk = true) :
    work.runOn policy r = (.ok (), (work.runOn policy r).2) := by
  generalize work.runOn policy r = after at h ⊢
  obtain ⟨outcome, r'⟩ := after
  cases outcome with
  | ok _ => rfl
  | error e => cases h

namespace Follows

variable {work : Loading α} {steps more : List LoadStep} {a : α}

theorem pure (a : α) : Follows (Pure.pure a) [] a := fun _ _ => rfl

theorem bind {f : α → Loading β} {b : β} (h : Follows work steps a)
    (h' : Follows (f a) more b) : Follows (work >>= f) (steps ++ more) b := by
  intro policy r
  rw [runOn_bind, h policy r, LoadStep.run_append]
  cases LoadStep.run policy steps r with
  | mk outcome r' =>
    cases outcome with
    | ok _ => exact h' policy r'
    | error e => rfl

/-- Work without a value does what its script does. -/
theorem runOn_eq {work : Loading Unit} (h : Follows work steps ()) (policy : ErrorPolicy)
    (r : Registry) : work.runOn policy r = LoadStep.run policy steps r := by
  rw [h policy r]
  obtain ⟨outcome, r'⟩ := LoadStep.run policy steps r
  cases outcome <;> rfl

theorem map (f : α → β) (h : Follows work steps a) : Follows (f <$> work) steps (f a) := by
  have same : f <$> work = work >>= fun a => Pure.pure (f a) := rfl
  rw [same, ← List.append_nil steps]
  exact h.bind (.pure (f a))

/-- Work for each member of a list follows the scripts for the members. -/
theorem mapM {γ : Type} {f : γ → Loading β} {script : γ → List LoadStep} {value : γ → β}
    {xs : List γ} (h : ∀ x ∈ xs, Follows (f x) (script x) (value x)) :
    Follows (xs.mapM f) (xs.flatMap script) (xs.map value) := by
  induction xs with
  | nil => exact .pure []
  | cons x rest ih =>
    rw [List.mapM_cons, List.flatMap_cons, List.map_cons]
    refine (h x List.mem_cons_self).bind ?_
    exact (ih fun y hy => h y (List.mem_cons_of_mem x hy)).map (value x :: ·)

theorem forM {γ : Type} {f : γ → Loading Unit} {script : γ → List LoadStep} {xs : List γ}
    (h : ∀ x ∈ xs, Follows (f x) (script x) ()) :
    Follows (xs.forM f) (xs.flatMap script) () := by
  induction xs with
  | nil => exact .pure ()
  | cons x rest ih =>
    rw [List.flatMap_cons]
    exact (h x List.mem_cons_self).bind (ih fun y hy => h y (List.mem_cons_of_mem x hy))

theorem report (e : ConfigurationError) (a : α) : Follows (Loading.report e a) [.defect e] a := by
  intro policy r
  cases policy <;> rfl

theorem ofExcept (x : Except ConfigurationError α) (otherwise : α) :
    Follows (Loading.ofExcept x otherwise) (LoadStep.ofExcept x) (x.toOption.getD otherwise) := by
  cases x with
  | ok a => exact .pure a
  | error e => exact .report e otherwise

/-- Work that does what one step does follows that step. -/
theorem of_perform {work : Loading Unit} {step : LoadStep}
    (h : ∀ policy r, work.runOn policy r = step.perform policy r) : Follows work [step] () := by
  intro policy r
  rw [h policy r, LoadStep.run]
  cases step.perform policy r with
  | mk outcome r' => cases outcome <;> rfl

theorem register (scope : Scope) (name : String) (definition : Definition) :
    Follows (Loading.register scope name definition) [.register scope { name, definition }] () :=
  .of_perform fun _ _ => rfl

theorem reserveAndDefine (scope : Scope) (t : NamedType) :
    Follows (do
      modify fun r => (r.reserve scope t.name).1
      Loading.attempt fun r => r.define scope t) [.reserveAndDefine scope t] () := by
  refine .of_perform fun policy r => ?_
  rw [runOn_bind]
  rfl

/-- Work that follows a script, done again on what it left, comes to the same end and leaves that as
it is. -/
theorem again (h : Follows work steps a) (policy : ErrorPolicy) (r : Registry) :
    work.runOn policy (work.runOn policy r).2 = work.runOn policy r := by
  rw [h policy r, h policy, LoadStep.run_again (.refl _)]

end Follows

end Loading

end ApiContract
