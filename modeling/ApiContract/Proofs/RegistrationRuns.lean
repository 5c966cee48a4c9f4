import ApiContract.Proofs.RegistryTables
import ApiContract.Resource.Derivation

/-!
# Runs of registrations

A registry is filled call by call: a name is reserved, defined, registered at once or made another
name. What one call does is said once, by `Registry.Change`: it leaves the registry alone or puts
one entry, over none or over a placeholder. From this follows, by induction on the calls,
what holds after every run that starts from the empty registry. When a type is registered and why it
is refused, `Registry.Registers` says.
-/

namespace ApiContract

namespace Registry

variable {r : Registry}

/-! ### Types -/

def Checked (r : Registry) : Prop :=
  ∀ scope table, (scope, table) ∈ r.tables → ∀ name type, (name, Entry.defined type) ∈ table →
    type.name = name ∧ type.check = .ok ()

/-- An entry that is sound keeps the registry sound. -/
theorem Checked.put (h : r.Checked) {scope : Scope} {name : String} {e : Entry}
    (he : ∀ type, e = .defined type → type.name = name ∧ type.check = .ok ()) :
    (r.put scope name e).Checked := by
  intro s table ht n type hm
  rcases mem_putTable ht with hp | ht
  · cases hp
    rcases Keyed.mem_insert hm with hp | hm
    · cases hp
      exact he type rfl
    · -- an entry beside the new one stood in the scope's table before
      cases hl : r.tables.lookup scope with
      | none => simp [Registry.table, hl] at hm
      | some old =>
        rw [Registry.table, hl] at hm
        exact h _ _ (mem_of_lookup hl) n type hm
  · exact h s table ht n type hm

end Registry

/-! ### Entries -/

namespace Entry

def settled : Entry → Bool
  | placeholder => false
  | defined _ | aliasOf _ _ => true

/-- What may become of an entry in one call. -/
inductive Step : Option Entry → Option Entry → Prop
  | same (e : Option Entry) : Step e e
  | reserved : Step none (some placeholder)
  | settled {e : Option Entry} {f : Entry} (free : e = none ∨ e = some placeholder)
    (done : f.settled = true) : Step e (some f)

theorem Step.of_settled {e : Entry} {after : Option Entry} (h : Step (some e) after)
    (done : e.settled = true) : after = some e := by
  cases h with
  | same => rfl
  | settled free =>
    rcases free with free | free <;> cases free
    cases done

end Entry

def Registry.Unsettled (r : Registry) (scope : Scope) (name : String) : Prop :=
  r.entry? scope name = none ∨ r.entry? scope name = some .placeholder

/-- An entry that stands in the way of a type: its name is another one, or stands for a type with
another definition. -/
inductive Entry.Bars (t : NamedType) : Entry → Prop
  | defined {other : NamedType} (differs : other.definition.sameValue t.definition = false) :
    Bars t (.defined other)
  | aliasOf (s : Scope) (n : String) : Bars t (.aliasOf s n)

theorem Entry.Bars.settled {t : NamedType} {e : Entry} (h : e.Bars t) : e.settled = true := by
  cases h <;> rfl

/-- What registering a type comes to. -/
inductive Registry.Registers (r : Registry) (s : Scope) (t : NamedType) :
    Except ConfigurationError Registry → Prop
  | flawed {e : ConfigurationError} (h : t.check = .error e) : Registers r s t (.error e)
  | settled (sound : t.check = .ok ()) (free : r.Unsettled s t.name) :
    Registers r s t (.ok (r.put s t.name (.defined t)))
  | known {other : NamedType} (sound : t.check = .ok ())
    (he : r.entry? s t.name = some (.defined other))
    (same : other.definition.sameValue t.definition = true) : Registers r s t (.ok r)
  | barred {e : Entry} (sound : t.check = .ok ()) (he : r.entry? s t.name = some e)
    (bars : e.Bars t) : Registers r s t (.error (.conflictingDefinition t.name s))

/-- What a call about a name may make of a registry. -/
inductive Registry.Change (r : Registry) (scope : Scope) (name : String) : Registry → Prop
  | none : Change r scope name r
  | reserved (free : r.entry? scope name = .none) :
    Change r scope name (r.put scope name .placeholder)
  | settled {e : Entry} (done : e.settled = true) (free : r.Unsettled scope name)
    (checked : ∀ type, e = .defined type → type.name = name ∧ type.check = .ok ()) :
    Change r scope name (r.put scope name e)

namespace Registry.Change

variable {r r' : Registry} {scope : Scope} {name : String}

/-- A call changes the entry of its own name at most. -/
theorem entry_step (h : r.Change scope name r') (s : Scope) (n : String) {e e' : Option Entry}
    (he : r.entry? s n = e) (he' : r'.entry? s n = e') : Entry.Step e e' := by
  subst he he'
  cases h with
  | none => exact .same _
  | reserved free =>
    rw [entry_put]
    split
    · rename_i here
      rw [here.1, here.2, free]
      exact .reserved
    · exact .same _
  | settled done free =>
    rw [entry_put]
    split
    · rename_i here
      rw [here.1, here.2]
      exact .settled free done
    · exact .same _

theorem ordered (h : r.Change scope name r') (ordered : r.Ordered) : r'.Ordered := by
  cases h with
  | none => exact ordered
  | reserved => exact ordered.put _ _ _
  | settled => exact ordered.put _ _ _

theorem checked (h : r.Change scope name r') (checked : r.Checked) : r'.Checked := by
  cases h with
  | none => exact checked
  | reserved => exact checked.put fun type he => by cases he
  | settled _ _ good => exact checked.put good

end Registry.Change

/-! ### Calls -/

/-- A call that adds to a registry. -/
inductive Registration where
  | reserve (scope : Scope) (name : String)
  | define (scope : Scope) (type : NamedType)
  | register (scope : Scope) (type : NamedType)
  | makeAlias (scope : Scope) (name : String) (targetScope : Scope) (target : String)

namespace Registration

def scope : Registration → Scope
  | reserve s _ | define s _ | register s _ | makeAlias s _ _ _ => s

def name : Registration → String
  | reserve _ n | makeAlias _ n _ _ => n
  | define _ t | register _ t => t.name

def change : Registration → Registry → Except ConfigurationError Registry
  | reserve s n, r => .ok (r.reserve s n).1
  | define s t, r => r.define s t
  | register s t, r => r.register s t
  | makeAlias s n targetScope target, r => r.makeAlias s n targetScope target

def perform (call : Registration) (policy : ErrorPolicy) (r : Registry) :
    Except ConfigurationError Unit × Registry :=
  (Loading.attempt call.change).runOn policy r

/-- Makes calls one after another, whatever becomes of each. -/
def run (policy : ErrorPolicy) (calls : List Registration) (r : Registry) : Registry :=
  calls.foldl (fun r call => (call.perform policy r).2) r

variable {call : Registration} {policy : ErrorPolicy} {r r' : Registry}

/-- An attempt that fails leaves the registry alone; the policy decides whether it is an error. -/
theorem runOn_attempt (change : Registry → Except ConfigurationError Registry)
    (policy : ErrorPolicy) (r : Registry) :
    (Loading.attempt change).runOn policy r =
      match change r with
      | .ok r' => (.ok (), r')
      | .error e => (if policy = .raise then .error e else .ok (), r) := by
  have read : (Loading.attempt change).runOn policy r =
      Loading.runOn (match change r with
        | .ok r' => set r'
        | .error e => Loading.report e ()) policy r := rfl
  rw [read]
  cases change r with
  | ok r' => rfl
  | error e => cases policy <;> rfl

theorem perform_of_ok (h : call.change r = .ok r') (policy : ErrorPolicy) :
    call.perform policy r = (.ok (), r') := by
  rw [perform, runOn_attempt, h]

theorem perform_of_error {e : ConfigurationError} (h : call.change r = .error e)
    (policy : ErrorPolicy) :
    call.perform policy r = (if policy = .raise then .error e else .ok (), r) := by
  rw [perform, runOn_attempt, h]

/-- Which registry a call leaves is no matter of the policy. -/
theorem perform_snd (call : Registration) (policy other : ErrorPolicy) (r : Registry) :
    (call.perform policy r).2 = (call.perform other r).2 := by
  cases h : call.change r with
  | ok r' => rw [perform_of_ok h, perform_of_ok h]
  | error e => rw [perform_of_error h, perform_of_error h]

/-! ### What becomes of a type and of another name -/

section

variable {s targetScope : Scope} {n target : String} {t : NamedType}

theorem register_of_flawed {e : ConfigurationError} (h : t.check = .error e) :
    r.register s t = .error e := by
  rw [Registry.register, h]
  rfl

theorem register_of_unsettled (h : t.check = .ok ()) (free : r.Unsettled s t.name) :
    r.register s t = .ok (r.put s t.name (.defined t)) := by
  rcases free with he | he <;> simp only [Registry.register, h, he, bind, Except.bind]

theorem register_of_known {other : NamedType} (h : t.check = .ok ())
    (he : r.entry? s t.name = some (.defined other))
    (same : other.definition.sameValue t.definition = true) : r.register s t = .ok r := by
  simp only [Registry.register, h, he, bind, Except.bind, same, if_true]

theorem register_of_barred {e : Entry} (h : t.check = .ok ()) (he : r.entry? s t.name = some e)
    (bars : e.Bars t) : r.register s t = .error (.conflictingDefinition t.name s) := by
  cases bars with
  | defined differs =>
    simp only [Registry.register, h, he, bind, Except.bind, differs]
    rfl
  | aliasOf s' n => simp only [Registry.register, h, he, bind, Except.bind]

/-- By what stands under the name already. -/
theorem registers (r : Registry) (s : Scope) (t : NamedType) :
    r.Registers s t (r.register s t) := by
  cases hc : t.check with
  | error e =>
    rw [register_of_flawed hc]
    exact .flawed hc
  | ok _ =>
    have settles (free : r.Unsettled s t.name) : r.Registers s t (r.register s t) := by
      rw [register_of_unsettled hc free]
      exact .settled hc free
    have barred {e : Entry} (he : r.entry? s t.name = some e) (bars : e.Bars t) :
        r.Registers s t (r.register s t) := by
      rw [register_of_barred hc he bars]
      exact .barred hc he bars
    cases he : r.entry? s t.name with
    | none => exact settles (.inl he)
    | some e =>
      cases e with
      | placeholder => exact settles (.inr he)
      | defined other =>
        cases same : other.definition.sameValue t.definition with
        | true =>
          rw [register_of_known hc he same]
          exact .known hc he same
        | false => exact barred he (.defined same)
      | aliasOf s' n => exact barred he (.aliasOf s' n)

theorem makeAlias_of_unsettled (free : r.Unsettled s n) :
    r.makeAlias s n targetScope target = .ok (r.put s n (.aliasOf targetScope target)) := by
  rcases free with he | he <;> simp only [Registry.makeAlias, he]

theorem define_of_entry {e : Entry} (he : r.entry? s t.name = some e) :
    r.define s t = r.register s t := by
  rw [Registry.define, he]

end

/-! ### What one call does -/

theorem check_error {t : NamedType} {e : ConfigurationError} (h : t.check = .error e) :
    ∃ cause, e = .invalidDefinition t.name cause := by
  simp only [NamedType.check] at h
  split at h
  · cases h
    exact ⟨_, rfl⟩
  · split at h
    · cases h
    · cases h
      exact ⟨_, rfl⟩

theorem change_of_register {scope : Scope} {t : NamedType} (h : r.register scope t = .ok r') :
    r.Change scope t.name r' := by
  have made := registers r scope t
  rw [h] at made
  cases made with
  | settled sound free =>
    refine .settled rfl free ?_
    rintro type ⟨⟩
    exact ⟨rfl, sound⟩
  | known => exact .none

/-- Another name is given only to what has no entry, or has the same. -/
theorem change_of_makeAlias {s targetScope : Scope} {n target : String}
    (h : r.makeAlias s n targetScope target = .ok r') : r.Change s n r' := by
  have checked : ∀ type, Entry.aliasOf targetScope target = .defined type →
      type.name = n ∧ type.check = .ok () := by
    intro type he
    cases he
  unfold Registry.makeAlias at h
  split at h
  · rename_i he
    cases h
    exact .settled rfl (.inl he) checked
  · rename_i he
    cases h
    exact .settled rfl (.inr he) checked
  · split at h
    · cases h
      exact .none
    · cases h
  · cases h

/-- Every call that succeeds changes the entry of its name at most. -/
theorem change_of_ok (h : call.change r = .ok r') : r.Change call.scope call.name r' := by
  cases call with
  | reserve s n =>
    simp only [change, Registry.reserve] at h
    cases he : r.entry? s n with
    | none =>
      rw [he] at h
      cases h
      exact .reserved he
    | some _ =>
      rw [he] at h
      cases h
      exact .none
  | define s t =>
    simp only [change, Registry.define] at h
    split at h
    · cases h
    · exact change_of_register h
  | register s t => exact change_of_register h
  | makeAlias s n targetScope target => exact change_of_makeAlias h

/-- There is no conflict without an entry. -/
theorem entry_of_register_conflict {scope s : Scope} {t : NamedType} {n : String}
    (h : r.register scope t = .error (.conflictingDefinition n s)) :
    ∃ e, r.entry? s n = some e := by
  have made := registers r scope t
  rw [h] at made
  cases made with
  | flawed hc =>
    obtain ⟨cause, hcause⟩ := check_error hc
    cases hcause
  | barred _ he => exact ⟨_, he⟩

/-- A call is refused for a conflict only where its name has an entry. -/
theorem entry_of_conflict {n : String} {s : Scope}
    (h : call.change r = .error (.conflictingDefinition n s)) :
    ∃ e, r.entry? s n = some e := by
  cases call with
  | reserve s n => cases h
  | define s t =>
    simp only [change, Registry.define] at h
    split at h
    · cases h
    · exact entry_of_register_conflict h
  | register s t => exact entry_of_register_conflict h
  | makeAlias s n targetScope target =>
    simp only [change, Registry.makeAlias] at h
    split at h
    · cases h
    · cases h
    · split at h
      · cases h
      · cases h
        exact ⟨_, ‹_›⟩
    · cases h
      exact ⟨_, ‹_›⟩

/-- Whatever the policy and the outcome, a call makes of a registry what it may. -/
theorem change_perform (call : Registration) (policy : ErrorPolicy) (r : Registry) :
    r.Change call.scope call.name (call.perform policy r).2 := by
  cases h : call.change r with
  | error e =>
    rw [perform_of_error h]
    exact .none
  | ok r' =>
    rw [perform_of_ok h]
    exact change_of_ok h

/-! ### Runs -/

/-- What every call keeps holds after a run. -/
theorem run_induction {P : Registry → Prop}
    (step : ∀ r, P r → ∀ call : Registration, P (call.perform policy r).2)
    (calls : List Registration) (h : P r) : P (run policy calls r) := by
  induction calls generalizing r with
  | nil => exact h
  | cons call rest ih => exact ih (step r h call)

theorem run_append (policy : ErrorPolicy) (calls more : List Registration) (r : Registry) :
    run policy (calls ++ more) r = run policy more (run policy calls r) :=
  List.foldl_append

theorem run_ordered (policy : ErrorPolicy) (calls : List Registration) :
    (run policy calls .empty).Ordered :=
  run_induction (P := Registry.Ordered)
    (fun r h call => (change_perform call policy r).ordered h) calls List.Pairwise.nil

theorem run_checked (policy : ErrorPolicy) (calls : List Registration) :
    (run policy calls .empty).Checked :=
  run_induction (P := Registry.Checked)
    (fun r h call => (change_perform call policy r).checked h) calls fun _ _ hm => by cases hm

theorem run_entry_of_settled {s : Scope} {n : String} {e : Entry}
    (h : r.entry? s n = some e) (settled : e.settled = true) (policy : ErrorPolicy)
    (calls : List Registration) : Registry.entry? (run policy calls r) s n = some e := by
  refine run_induction (P := fun r => r.entry? s n = some e) ?_ calls h
  intro r h call
  exact ((change_perform call policy r).entry_step s n h rfl).of_settled settled

theorem run_policy (policy other : ErrorPolicy) (calls : List Registration) (r : Registry) :
    run policy calls r = run other calls r := by
  induction calls generalizing r with
  | nil => rfl
  | cons call rest ih =>
    rw [run, List.foldl_cons, perform_snd call policy other r]
    exact ih _

end Registration

/-- In every run from the empty registry, after the calls before any one: each type stands under its
own name and has no flaws; the call takes an entry only from none to a placeholder, or from either
to a type or another name, which then stays in what follows; a call that is refused, or would be if
defects were raised, changes nothing, nor has it made a table for its scope; and the registry is the
same under every policy. -/
theorem registration_run (policy : ErrorPolicy) (before : List Registration) (call : Registration)
    (after : List Registration) :
    let r := Registration.run policy before .empty
    let r' := (call.perform policy r).2
    let final := Registration.run policy (before ++ call :: after) .empty
    r.Checked ∧
    (∀ s n e e', r.entry? s n = e → r'.entry? s n = e' → Entry.Step e e') ∧
    (∀ s n e, r.entry? s n = some e → e.settled = true → final.entry? s n = some e) ∧
    (∀ e, (call.perform .raise r).1 = .error e →
      (call.perform policy r).1 = (if policy = .raise then .error e else .ok ()) ∧
      r'.lookup = r.lookup ∧ r'.contains = r.contains ∧ r'.scopes = r.scopes ∧ r'.size = r.size ∧
      ∀ n s, e = .conflictingDefinition n s → r.opened s = r) ∧
    r = Registration.run .raise before .empty := by
  intro r r' final
  refine ⟨Registration.run_checked policy before,
    fun s n _ _ => (Registration.change_perform call policy r).entry_step s n, ?_, ?_,
    Registration.run_policy policy .raise before .empty⟩
  · intro s n e he settled
    have split : final = Registration.run policy (call :: after) r :=
      Registration.run_append policy before (call :: after) .empty
    rw [split]
    exact Registration.run_entry_of_settled he settled policy (call :: after)
  · intro e he
    have refused : call.change r = .error e := by
      cases h : call.change r with
      | ok r'' =>
        rw [Registration.perform_of_ok h] at he
        cases he
      | error e' =>
        rw [Registration.perform_of_error h] at he
        simpa using he
    have unchanged : r' = r := congrArg Prod.snd (Registration.perform_of_error refused policy)
    refine ⟨congrArg Prod.fst (Registration.perform_of_error refused policy), by rw [unchanged],
      by rw [unchanged], by rw [unchanged], by rw [unchanged], ?_⟩
    rintro n s rfl
    obtain ⟨entry, h⟩ := Registration.entry_of_conflict refused
    exact (Registration.run_ordered policy before).opened_eq_self h

def waybill : NamedType :=
  { name := "Waybill"
    definition := .object [{ name := "weight", definition := .scalar .decimal }] }

def waybillCalls : List Registration :=
  [.reserve (.api "freight") "Waybill", .define (.api "freight") waybill]

/-- The name of a defined record cannot be made another one, which a silent policy passes over. -/
theorem waybill_registration_run :
    let r := Registration.run .silent waybillCalls .empty
    let call := Registration.makeAlias (.api "freight") "Waybill" .global "Letter"
    r.Checked ∧
    (call.perform .raise r).1 = .error (.conflictingDefinition "Waybill" (.api "freight")) ∧
    (call.perform .silent r).1 = .ok () ∧
    (call.perform .silent r).2.size = 1 := by
  intro r call
  obtain ⟨checked, -, -, refused, -⟩ := registration_run .silent waybillCalls call []
  have conflict : (call.perform .raise r).1 =
      .error (.conflictingDefinition "Waybill" (.api "freight")) := rfl
  obtain ⟨outcome, -, -, -, size, -⟩ := refused _ conflict
  exact ⟨checked, conflict, outcome, size⟩

end ApiContract
