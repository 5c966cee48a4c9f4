import ApiContract.Proofs.RegistrationRuns
import ApiContract.Proofs.SharedAnswers
import ApiContract.Proofs.SharedScopes

/-!
# Isolated namespaces

Registrations in the scopes of one API change the tables of these scopes and no others. If no name
elsewhere stands for one of that API, the scopes elsewhere share their tables with the registry
before, and nothing can be told from there of what was registered.
-/

namespace ApiContract

namespace Registry

variable {r r' : Registry} {s scope : Scope} {name : String}

theorem table_put_of_ne (hs : s ≠ scope) (e : Entry) :
    (r.put scope name e).table s = r.table s := by
  simp only [table, put, lookup_putTable, if_neg hs]

theorem Change.table_eq (h : r.Change scope name r') (hs : s ≠ scope) : r'.table s = r.table s := by
  cases h with
  | none => rfl
  | reserved => exact table_put_of_ne hs _
  | settled => exact table_put_of_ne hs _

/-- Whatever is asked from a scope, two registries give the same answer. -/
structure LooksAlike (r r' : Registry) (s : Scope) : Prop where
  lookup : ∀ name, r'.lookup s name = r.lookup s name
  resolve : ∀ name, r'.resolve s name = r.resolve s name
  visible : r'.visible s = r.visible s
  unresolved : r'.unresolved s = r.unresolved s
  recursiveNames : r'.recursiveNames s = r.recursiveNames s
  ordered : r'.ordered s = r.ordered s
  file : ∀ (target : Target) settings, target.file ⟨r', s⟩ settings = target.file ⟨r, s⟩ settings
  walks : ∀ d, View.WalksAlike ⟨r, s⟩ ⟨r', s⟩ d
  exchanges : ∀ config transformers,
    Exchange.ActsAlike ⟨⟨r, s⟩, config, transformers⟩ ⟨⟨r', s⟩, config, transformers⟩

/-- Registries that share a scope look alike from there. -/
theorem AlikeOn.looksAlike {shared : Scope → Prop} (h : r.AlikeOn r' shared) (hs : shared s) :
    r.LooksAlike r' s where
  lookup := h.lookup_eq hs
  resolve := h.resolve_eq hs
  visible := h.visible_eq hs
  unresolved := h.unresolved_eq hs
  recursiveNames := h.recursiveNames_eq hs
  ordered := h.ordered_eq hs
  file := Target.file_eq (h.resolve_eq hs) rfl (h.ordered_eq hs)
  walks _ := View.AnswersAlike.walksAlike fun name _ => h.resolve_eq hs name
  exchanges config transformers :=
    Exchange.actsAlike_seenBy ⟨⟨r, s⟩, config, transformers⟩ (h.resolve_eq hs)

end Registry

/-- Scopes around one belong to its API or to none. -/
theorem Scope.apiName?_of_mem_chain {s s' : Scope} (h : s' ∈ s.chain) :
    s'.apiName? = none ∨ s'.apiName? = s.apiName? := by
  cases s with
  | global =>
    rw [List.mem_singleton.mp h]
    exact .inl rfl
  | api a =>
    rcases List.mem_cons.mp h with rfl | h
    · exact .inr rfl
    · rw [List.mem_singleton.mp h]
      exact .inl rfl
  | contract a c =>
    rcases List.mem_cons.mp h with rfl | h
    · exact .inr rfl
    · rcases List.mem_cons.mp h with rfl | h
      · exact .inr rfl
      · rw [List.mem_singleton.mp h]
        exact .inl rfl

/-- Calls for the scopes of one API leave the tables of all other scopes. -/
theorem Registration.table_run {policy : ErrorPolicy} {calls : List Registration} {api : String}
    (own : ∀ call ∈ calls, call.scope.apiName? = some api) (r : Registry) {s : Scope}
    (outside : s.apiName? ≠ some api) : (run policy calls r).table s = r.table s := by
  induction calls generalizing r with
  | nil => rfl
  | cons call rest ih =>
    have elsewhere : s ≠ call.scope := fun he => outside (he ▸ own call List.mem_cons_self)
    calc (run policy (call :: rest) r).table s
        = (call.perform policy r).2.table s :=
          ih (fun c hc => own c (List.mem_cons_of_mem call hc)) _
      _ = r.table s := (change_perform call policy r).table_eq elsewhere

/-- Namespaces are isolated: where no name outside the scopes of an API stands for one in them,
nothing that is registered in these scopes can be told from outside. -/
theorem looksAlike_run (policy : ErrorPolicy) (calls : List Registration) (r : Registry)
    (api : String) (own : ∀ call ∈ calls, call.scope.apiName? = some api)
    (apart : ∀ s name s' target, s.apiName? ≠ some api →
      r.entry? s name = some (.aliasOf s' target) → s'.apiName? ≠ some api)
    (s : Scope) (outside : s.apiName? ≠ some api) :
    r.LooksAlike (Registration.run policy calls r) s := by
  have alike : r.AlikeOn (Registration.run policy calls r) fun s => s.apiName? ≠ some api := by
    refine ⟨?_, ?_, ?_⟩
    · intro s hs s' hs'
      rcases Scope.apiName?_of_mem_chain hs' with h | h
      · rw [h]
        nofun
      · rwa [h]
    · intro s name s' target hs he
      exact apart s name s' target hs he
    · intro s hs
      exact Registration.table_run own r hs
  exact alike.looksAlike outside

def Entry.targetScope? : Entry → Option Scope
  | .aliasOf s _ => some s
  | .placeholder | .defined _ => none

def personnelCalls : List Registration :=
  [.makeAlias (.api "hr") "Payee" (.api "crm") "Customer",
    .register (.api "hr") { name := "Money", definition := .scalar .decimal },
    .reserve (.contract "hr" "payroll") "Invoice"]

/-- What the personnel API registers is there and makes no difference to billing. -/
theorem billing_isolated :
    Registry.resolve (Registration.run .raise personnelCalls billing) (.api "hr") "Money" =
        .ok { name := "Money", definition := .scalar .decimal } ∧
      billing.LooksAlike (Registration.run .raise personnelCalls billing) (.api "billing") := by
  refine ⟨rfl, ?_⟩
  have apart : ∀ q ∈ billing.entries,
      ((billing.entry? q.1 q.2).bind Entry.targetScope?).bind Scope.apiName? ≠ some "hr" := by
    decide +kernel
  refine looksAlike_run .raise personnelCalls billing "hr" (by decide) ?_ (.api "billing") (by decide)
  intro s name s' target _ he
  have here := apart _ (Registry.mem_entries he)
  rwa [he] at here

end ApiContract
