import ApiContract.Output.Target
import ApiContract.Proofs.DependencyOrder
import ApiContract.Proofs.DerivedTypes

/-!
# What stands under a name after loading

A script that ends without an error has settled each name for which it had a sound type, whatever
was refused on the way. A name that it only reserved is left as a placeholder. Loading reserves the
names of filters alone, so what it leaves unfinished are filters, and no other name.
-/

namespace ApiContract

/-! ### What becomes of one entry -/

/-- What work leaves under a name that it offers types for and perhaps reserves: an entry that was
settled stays, another one is settled by a type that is offered, and if there is none the name may
still be reserved. -/
inductive Entry.Leaves (offered : NamedType → Prop) (reserved : Prop) :
    Option Entry → Option Entry → Prop
  | kept {e : Entry} (settled : e.settled = true) : Leaves offered reserved (some e) (some e)
  | settled {before : Option Entry} {t : NamedType}
    (free : before = none ∨ before = some .placeholder) (offer : offered t) :
    Leaves offered reserved before (some (.defined t))
  | held {before : Option Entry} (free : before = none ∨ before = some .placeholder)
    (none : ∀ t, ¬ offered t) (held : before = some .placeholder ∨ reserved) :
    Leaves offered reserved before (some .placeholder)
  | untouched (none : ∀ t, ¬ offered t) (unreserved : ¬ reserved) :
    Leaves offered reserved Option.none Option.none

namespace Entry.Leaves

variable {offered also : NamedType → Prop} {reserved more : Prop} {e e' e'' : Option Entry}

/-- Work that has nothing to do with a name leaves its entry alone. -/
theorem alone (none : ∀ t, ¬ offered t) (unreserved : ¬ reserved) (e : Option Entry) :
    Leaves offered reserved e e := by
  cases e with
  | none => exact .untouched none unreserved
  | some e =>
    cases e with
    | placeholder => exact .held (.inr rfl) none (.inl rfl)
    | defined t => exact .kept rfl
    | aliasOf s n => exact .kept rfl

/-- What two pieces of work leave, one after the other. -/
theorem trans (h : Leaves offered reserved e e') (h' : Leaves also more e' e'') :
    Leaves (fun t => offered t ∨ also t) (reserved ∨ more) e e'' := by
  cases h with
  | kept done =>
    cases h' with
    | kept => exact .kept done
    | settled free | held free => rcases free with free | free <;> cases free; cases done
  | settled free offer =>
    cases h' with
    | kept => exact .settled free (.inl offer)
    | settled free | held free => rcases free with free | free <;> cases free
  | held free none held =>
    cases h' with
    | kept done => cases done
    | settled _ offer => exact .settled free (.inr offer)
    | held _ none' =>
      exact .held free (fun t h => h.elim (none t) (none' t)) (held.imp_right .inl)
  | untouched none unreserved =>
    cases h' with
    | settled free offer => exact .settled free (.inr offer)
    | held free none' held =>
      exact .held free (fun t h => h.elim (none t) (none' t)) (held.imp_right .inr)
    | untouched none' unreserved' =>
      exact .untouched (fun t h => h.elim (none t) (none' t)) (·.elim unreserved unreserved')

theorem congr (h : Leaves offered reserved e e') (offers : ∀ t, offered t ↔ also t)
    (reserves : reserved ↔ more) : Leaves also more e e' := by
  obtain rfl : offered = also := funext fun t => propext (offers t)
  obtain rfl : reserved = more := propext reserves
  exact h

/-- Where no placeholder was, one is left if the name was reserved and no type was offered. -/
theorem placeholder_iff (h : Leaves offered reserved e e') (fresh : e ≠ some .placeholder) :
    e' = some .placeholder ↔ e = none ∧ reserved ∧ ∀ t, ¬ offered t := by
  cases h with
  | kept done =>
    refine ⟨?_, nofun⟩
    rintro ⟨⟩
    cases done
  | settled free offer => exact ⟨nofun, fun h => absurd offer (h.2.2 _)⟩
  | held free none held =>
    exact iff_of_true rfl ⟨free.resolve_right fresh, held.resolve_left fresh, none⟩
  | untouched none unreserved => exact ⟨nofun, fun h => absurd h.2.1 unreserved⟩

/-- Under a name that is free, or only reserved, a type that is offered stays. -/
theorem defined_of_offered (h : Leaves offered reserved e e')
    (free : e = none ∨ e = some .placeholder) {t : NamedType} (offer : offered t) :
    ∃ t', e' = some (.defined t') ∧ offered t' := by
  cases h with
  | kept done =>
    rcases free with free | free <;> cases free
    cases done
  | settled _ offer => exact ⟨_, rfl, offer⟩
  | held _ none => exact absurd offer (none t)
  | untouched none => exact absurd offer (none t)

end Entry.Leaves

open Registry

/-! ### Runs of scripts -/

namespace LoadStep

def Offers (steps : List LoadStep) (s : Scope) (n : String) (t : NamedType) : Prop :=
  (s, t) ∈ types steps ∧ t.name = n ∧ t.check = .ok ()

def Reserves (steps : List LoadStep) (s : Scope) (n : String) : Prop :=
  ∃ t, reserveAndDefine s t ∈ steps ∧ t.name = n

variable {policy : ErrorPolicy} {step : LoadStep} {steps : List LoadStep} {r r' : Registry}

/-- What a registration leaves under each name, its own and all others. -/
theorem leaves_register (policy : ErrorPolicy) (r : Registry) (scope : Scope) (type : NamedType)
    (s : Scope) (n : String) :
    Entry.Leaves (Offers [register scope type] s n) False (r.entry? s n)
      (Registry.entry? ((Registration.register scope type).perform policy r).2 s n) := by
  have offer {t : NamedType} (h : Offers [register scope type] s n t) :
      (s = scope ∧ n = type.name) ∧ type.check = .ok () := by
    obtain ⟨hm, rfl, sound⟩ := h
    cases List.mem_singleton.mp hm
    exact ⟨⟨rfl, rfl⟩, sound⟩
  have elsewhere (away : ¬ (s = scope ∧ n = type.name)) (e : Option Entry) :
      Entry.Leaves (Offers [register scope type] s n) False e e :=
    .alone (fun _ h => away (offer h).1) id e
  have stays {e : Entry} (he : r.entry? scope type.name = some e) (done : e.settled = true) :
      Entry.Leaves (Offers [register scope type] s n) False (r.entry? s n) (r.entry? s n) := by
    by_cases here : s = scope ∧ n = type.name
    · obtain ⟨rfl, rfl⟩ := here
      rw [he]
      exact .kept done
    · exact elsewhere here _
  have made := Registration.registers r scope type
  generalize outcome : r.register scope type = after at made
  have call : (Registration.register scope type).change r = after := outcome
  cases made with
  | flawed unsound =>
    rw [Registration.perform_of_error call]
    refine .alone (fun t h => ?_) id _
    rw [(offer h).2] at unsound
    cases unsound
  | settled sound free =>
    rw [Registration.perform_of_ok call, entry_put]
    split
    · rename_i here
      obtain ⟨rfl, rfl⟩ := here
      exact .settled free ⟨List.mem_singleton_self _, rfl, sound⟩
    · exact elsewhere ‹_› _
  | known _ he _ =>
    rw [Registration.perform_of_ok call]
    exact stays he rfl
  | barred _ he bars =>
    rw [Registration.perform_of_error call]
    exact stays he bars.settled

/-- A reservation leaves a placeholder where nothing was. -/
theorem leaves_reserve (r : Registry) (scope : Scope) (name : String) (s : Scope) (n : String) :
    Entry.Leaves (fun _ => False) (s = scope ∧ n = name) (r.entry? s n)
      (Registry.entry? (r.reserve scope name).1 s n) := by
  rw [entry_reserve]
  split
  · rename_i here
    obtain ⟨rfl, rfl⟩ := here
    cases he : r.entry? s n with
    | none => exact .held (.inl rfl) (fun _ => id) (.inr ⟨rfl, rfl⟩)
    | some e =>
      cases e with
      | placeholder => exact .held (.inr rfl) (fun _ => id) (.inl rfl)
      | defined t => exact .kept rfl
      | aliasOf s n => exact .kept rfl
  · exact .alone (fun _ => id) ‹_› _

/-- What one step leaves under a name. -/
theorem leaves_perform (policy : ErrorPolicy) (step : LoadStep) (r : Registry) (s : Scope)
    (n : String) :
    Entry.Leaves (Offers [step] s n) (Reserves [step] s n) (r.entry? s n)
      (Registry.entry? (step.perform policy r).2 s n) := by
  cases step with
  | register scope type =>
    refine (leaves_register policy r scope type s n).congr (fun _ => .rfl) ?_
    simp [Reserves]
  | reserveAndDefine scope type =>
    -- once its name is reserved, the type may as well be registered
    obtain ⟨e, he⟩ := exists_entry_of_reserve r scope type.name
    rw [perform, Registration.perform_define he]
    refine ((leaves_reserve r scope type.name s n).trans
      (leaves_register policy _ scope type s n)).congr (fun t => ?_) ?_
    · rw [false_or]
      rfl
    · simp only [Reserves, List.mem_singleton, reserveAndDefine.injEq, or_false]
      constructor
      · rintro ⟨rfl, rfl⟩
        exact ⟨type, ⟨rfl, rfl⟩, rfl⟩
      · rintro ⟨_, ⟨rfl, rfl⟩, rfl⟩
        exact ⟨rfl, rfl⟩
  | defect e => exact .alone (by simp [Offers, types, type?]) (by simp [Reserves]) _

/-- What a script without errors leaves under a name. -/
theorem leaves_run (h : run policy steps r = (.ok (), r')) (s : Scope) (n : String) :
    Entry.Leaves (Offers steps s n) (Reserves steps s n) (r.entry? s n) (r'.entry? s n) := by
  induction steps generalizing r with
  | nil =>
    cases h
    exact .alone (by simp [Offers]) (by simp [Reserves]) _
  | cons step rest ih =>
    have first := leaves_perform policy step r s n
    rw [run] at h
    split at h
    · rename_i mid done
      rw [done] at first
      refine (first.trans (ih h)).congr (fun t => ?_) ?_
      · have split : types (step :: rest) = types [step] ++ types rest := types_append [step] rest
        simp only [Offers, split, List.mem_append]
        tauto
      · simp only [Reserves, List.mem_cons, List.not_mem_nil, or_false, or_and_right, exists_or]
    · cases h

/-- A step under a policy that passes over everything leaves what it leaves under any. -/
theorem perform_silent (policy : ErrorPolicy) (step : LoadStep) (r : Registry) :
    step.perform .silent r = (.ok (), (step.perform policy r).2) := by
  have call (c : Registration) (r : Registry) :
      c.perform .silent r = (.ok (), (c.perform policy r).2) := by
    cases made : c.change r with
    | ok after => rw [Registration.perform_of_ok made, Registration.perform_of_ok made]
    | error e =>
      rw [Registration.perform_of_error made, Registration.perform_of_error made]
      rfl
  cases step with
  | register s t => exact call _ r
  | reserveAndDefine s t => exact call _ _
  | defect e => rfl

/-- What a script leaves, some of its first steps leave, where all is passed over. -/
theorem exists_taken (policy : ErrorPolicy) (steps : List LoadStep) (r : Registry) :
    ∃ taken rest, steps = taken ++ rest ∧
      run .silent taken r = (.ok (), (run policy steps r).2) := by
  induction steps generalizing r with
  | nil => exact ⟨[], [], rfl, rfl⟩
  | cons step rest ih =>
    have first := perform_silent policy step r
    cases done : step.perform policy r with
    | mk outcome mid =>
      rw [done] at first
      cases outcome with
      | ok _ =>
        obtain ⟨taken, left, rfl, run_taken⟩ := ih mid
        refine ⟨step :: taken, left, rfl, ?_⟩
        simp only [run, first, done, run_taken]
      | error e =>
        refine ⟨[step], rest, rfl, ?_⟩
        simp only [run, first, done]

/-- A script, whatever becomes of it, leaves no entry where there was none under a name that it has
no type for. -/
theorem entry_run_eq_none {policy : ErrorPolicy} {s : Scope} {n : String}
    (free : r.entry? s n = none) (foreign : ∀ t, (s, t) ∈ types steps → t.name ≠ n) :
    Registry.entry? (run policy steps r).2 s n = none := by
  obtain ⟨taken, rest, rfl, done⟩ := exists_taken policy steps r
  have foreign (t : NamedType) (ht : (s, t) ∈ types taken) : t.name ≠ n :=
    foreign t (by rw [types_append]; exact List.mem_append_left _ ht)
  have left := leaves_run done s n
  rw [free] at left
  generalize Registry.entry? (run policy (taken ++ rest) r).2 s n = after at left ⊢
  cases left with
  | settled _ offer => exact absurd offer.2.1 (foreign _ offer.1)
  | held _ _ held =>
    obtain ⟨t, ht, named⟩ := held.resolve_left nofun
    exact absurd named (foreign t (List.mem_filterMap.mpr ⟨_, ht, rfl⟩))
  | untouched => rfl

end LoadStep

/-! ### Catalogs -/

open LoadStep

/-- Of the types derived from a resource the filter alone has its name reserved first. -/
theorem Resource.mem_typeSteps_iff (catalog : Catalog) (scope : Scope) (x : Resource) (s : Scope)
    (t : NamedType) : reserveAndDefine s t ∈ x.typeSteps catalog scope ↔
      x.filterable ≠ [] ∧ s = scope ∧ t = x.filterType := by
  have read (a : Association) : reserveAndDefine s t ∉ a.readSteps catalog scope x := by
    rw [Association.readSteps]
    split <;> simp
  have write (context : WriteContext) :
      reserveAndDefine s t ∉ x.writeSteps catalog context := by
    have each (y : Except ConfigurationError (List Field)) :
        reserveAndDefine s t ∉ LoadStep.ofExcept y := by
      cases y <;> simp [LoadStep.ofExcept]
    simp [writeSteps, each]
  have record : reserveAndDefine s t ∉ x.recordSteps catalog scope := by
    simp [recordSteps, read]
  have payload : reserveAndDefine s t ∉ x.payloadSteps catalog scope := by
    simp [payloadSteps, write]
  have operation : reserveAndDefine s t ∉ x.nestedOperationSteps catalog scope := by
    simp [nestedOperationSteps, write]
  have sort : reserveAndDefine s t ∉ x.sortSteps scope := by
    rw [sortSteps]
    split <;> simp
  have response : reserveAndDefine s t ∉ x.responseSteps scope := by
    simp [responseSteps]
  have filter : reserveAndDefine s t ∈ x.filterSteps scope ↔
      x.filterable ≠ [] ∧ s = scope ∧ t = x.filterType := by
    rw [filterSteps]
    split
    · simp_all
    · simp_all
  have nested : reserveAndDefine s t ∉
      (if x.acceptsNestedWrites then x.nestedOperationSteps catalog scope else []) := by
    split
    · exact operation
    · exact List.not_mem_nil
  simp only [typeSteps, List.mem_append, record, payload, nested, filter, sort, response,
    false_or, or_false]

theorem Catalog.reserves_iff (catalog : Catalog) (scope s : Scope) (n : String) :
    Reserves (catalog.steps scope) s n ↔
      s = scope ∧ ∃ x ∈ Keyed.values catalog, x.filterable ≠ [] ∧ x.filterName = n := by
  simp only [Reserves, Catalog.steps, List.mem_flatMap, Resource.mem_typeSteps_iff]
  constructor
  · rintro ⟨t, ⟨x, hx, nonempty, rfl, rfl⟩, rfl⟩
    exact ⟨rfl, x, hx, nonempty, rfl⟩
  · rintro ⟨rfl, x, hx, nonempty, rfl⟩
    exact ⟨x.filterType, ⟨x, hx, nonempty, rfl, rfl⟩, rfl⟩

/-- A name that stands for a type where it is found first resolves to that type. -/
theorem Registry.resolve_of_lookup {r : Registry} {scope found : Scope} {name : String}
    {t : NamedType} (h : r.lookup scope name = some (found, .defined t)) :
    r.resolve scope name = .ok t := by
  rw [resolve, maxHops, resolveWithin, h]

/-- No name of a registry is a placeholder. -/
def Registry.Settled (r : Registry) : Prop := ∀ s n, r.entry? s n ≠ some .placeholder

/-- Types cannot be put in order only because of a placeholder. -/
theorem placeholder_of_ordered {r : Registry} {scope : Scope} {e : ConfigurationError}
    (h : r.ordered scope = .error e) :
    ∃ x s, r.entry? s x = some .placeholder ∧ e = .undefinedPlaceholder x s := by
  have outcome := yields_ordered r scope
  rw [h] at outcome
  obtain ⟨x, s, found, -, hl, he⟩ := outcome
  exact ⟨x, found, entry_of_lookup hl, he⟩

theorem Registry.Settled.ordered {r : Registry} (h : r.Settled) (scope : Scope) :
    ∃ types, r.ordered scope = .ok types := by
  cases he : r.ordered scope with
  | ok types => exact ⟨types, rfl⟩
  | error e =>
    obtain ⟨x, s, placeholder, -⟩ := placeholder_of_ordered he
    exact absurd placeholder (h s x)

/-- Where types can be put in order, files are written, save that schemas may be unreadable. -/
theorem Target.file_cases {view : View} {types : List Registry.OrderedType}
    (ordered : view.registry.ordered view.scope = .ok types) (target : Target)
    (settings : OutputSettings) :
    (∃ text, target.file view settings = .ok text) ∨
      ∃ version, target = .openApi version ∧
        document? { settings, view } version types = none := by
  cases target with
  | typescript => exact .inl ⟨_, by rw [file, ordered]; rfl⟩
  | zod => exact .inl ⟨_, by rw [file, ordered]; rfl⟩
  | openApi version =>
    cases made : document? { settings, view } version types with
    | none => exact .inr ⟨version, rfl, made⟩
    | some document =>
      refine .inl ⟨settings.lineEnding.apply (layOut settings document), ?_⟩
      rw [file, ordered]
      change Except.bind (assemble (openApi version) { settings, view } types) _ = _
      rw [assemble, made]
      rfl

variable {catalog : Catalog} {scope : Scope} {policy : ErrorPolicy} {r r' : Registry}

/-- The name of every filter has an entry before loading, or a type without flaws is derived under
it. -/
def Catalog.SettlesFilters (catalog : Catalog) (scope : Scope) (r : Registry) : Prop :=
  ∀ x ∈ Keyed.values catalog, x.filterable ≠ [] →
    (∃ e, r.entry? scope x.filterName = some e) ∨
      ∃ t, catalog.Derives scope scope t ∧ t.name = x.filterName ∧ t.check = .ok ()

/-- Loading that ends without an error, on whatever policy, leaves no placeholder if no filter is
refused under a name that is otherwise free. -/
theorem Catalog.settled_iff (done : (catalog.registerAll scope).runOn policy r = (.ok (), r'))
    (fresh : r.Settled) : r'.Settled ↔ catalog.SettlesFilters scope r := by
  rw [(catalog.follows_registerAll scope).runOn_eq] at done
  have left (s : Scope) (n : String) := (leaves_run done s n).placeholder_iff (fresh s n)
  have offers (s : Scope) (n : String) (t : NamedType) : Offers (catalog.steps scope) s n t ↔
      catalog.Derives scope s t ∧ t.name = n ∧ t.check = .ok () := by
    rw [Offers, catalog.mem_types_iff]
  constructor
  · intro settled x hx nonempty
    by_contra neither
    rw [not_or] at neither
    refine settled scope x.filterName ((left scope x.filterName).mpr ⟨?_, ?_, fun t h => ?_⟩)
    · exact Option.eq_none_iff_forall_ne_some.mpr fun e he => neither.1 ⟨e, he⟩
    · exact (catalog.reserves_iff scope scope _).mpr ⟨rfl, x, hx, nonempty, rfl⟩
    · exact neither.2 ⟨t, (offers _ _ t).mp h⟩
  · intro settles s n placeholder
    obtain ⟨free, reserved, none⟩ := (left s n).mp placeholder
    obtain ⟨rfl, x, hx, nonempty, rfl⟩ := (catalog.reserves_iff scope s n).mp reserved
    rcases settles x hx nonempty with ⟨e, he⟩ | ⟨t, ht⟩
    · rw [free] at he
      cases he
    · exact none t ((offers _ _ t).mpr ht)

/-- Where errors are raised, loading that ends without one has settled every filter. -/
theorem Catalog.settlesFilters_of_raise
    (done : (catalog.registerAll scope).runOn .raise r = (.ok (), r')) :
    catalog.SettlesFilters scope r := by
  intro x hx nonempty
  rw [(catalog.follows_registerAll scope).runOn_eq] at done
  have derived : (scope, x.filterType) ∈ types (catalog.steps scope) :=
    (catalog.mem_types_iff scope scope _).mpr ⟨x, hx, .filter nonempty⟩
  obtain ⟨t, defined, -⟩ := defined_of_run done derived
  have here : r'.entry? scope x.filterName = some (.defined t) := defined
  have left := leaves_run done scope x.filterName
  rw [here] at left
  cases before : r.entry? scope x.filterName with
  | some e => exact .inl ⟨e, rfl⟩
  | none =>
    rw [before] at left
    cases left with
    | settled _ offer => exact .inr ⟨t, (catalog.mem_types_iff scope scope t).mp offer.1, offer.2⟩

/-- Loading that ends without an error, into a registry without placeholders and under any policy,
leaves no placeholder exactly if each filter's name had an entry before or a type without flaws is
derived under it; this is so wherever errors are raised. A registry without placeholders can be put
in order and generated from, in every scope, by every target, as long as the schemas of a document
are read back from their texts. -/
theorem registerAll_settled (catalog : Catalog) (scope : Scope) (policy : ErrorPolicy)
    (r r' : Registry) (fresh : r.Settled)
    (done : (catalog.registerAll scope).runOn policy r = (.ok (), r')) :
    (r'.Settled ↔ catalog.SettlesFilters scope r) ∧
    (policy = .raise → r'.Settled) ∧
    (r'.Settled → ∀ scope', ∃ types, r'.ordered scope' = .ok types ∧
      ∀ (target : Target) (settings : OutputSettings),
        (∃ text, target.file { registry := r', scope := scope' } settings = .ok text) ∨
        ∃ version, target = .openApi version ∧ Target.document?
          { settings, view := { registry := r', scope := scope' } } version types = none) := by
  have settled := Catalog.settled_iff done fresh
  refine ⟨settled, ?_, fun h scope' => ?_⟩
  · rintro rfl
    exact settled.mpr (Catalog.settlesFilters_of_raise done)
  · obtain ⟨types, ordered⟩ := h.ordered scope'
    exact ⟨types, ordered, Target.file_cases ordered⟩

def disputes : Resource where
  name := "Invoice"
  attributes := [{ name := "not", definition := .scalar .boolean, filterable := true }]

def disputeFilters : Catalog :=
  [("Invoice", disputes), ("InvoiceFilter", { name := "InvoiceFilter" })]

def disputeFilterTypes : Registry :=
  ((disputeFilters.registerAll (.api "billing")).runOn .silent .empty).2

/-- The records take the name that the refused filter has reserved. -/
theorem disputeFilters_settled :
    (disputeFilters.registerAll (.api "billing")).runOn .silent .empty =
        (.ok (), disputeFilterTypes) ∧
      disputeFilterTypes.Settled ∧
      ∃ types, disputeFilterTypes.ordered (.api "billing") = .ok types := by
  have loaded : (disputeFilters.registerAll (.api "billing")).runOn .silent .empty =
      (.ok (), disputeFilterTypes) := Loading.runOn_of_isOk (by decide +kernel)
  have fresh : Registry.empty.Settled := nofun
  obtain ⟨settled, -, generates⟩ :=
    registerAll_settled disputeFilters (.api "billing") .silent .empty disputeFilterTypes fresh
      loaded
  have settles : disputeFilters.SettlesFilters (.api "billing") .empty := by
    intro x hx nonempty
    refine .inr ⟨_, ⟨{ name := "InvoiceFilter" },
      List.mem_cons_of_mem _ List.mem_cons_self, .record⟩, ?_, rfl⟩
    rcases List.mem_cons.mp hx with rfl | hx
    · rfl
    · cases List.mem_singleton.mp hx
      exact absurd rfl nonempty
  obtain ⟨types, ordered, -⟩ := generates (settled.mpr settles) (.api "billing")
  exact ⟨loaded, settled.mpr settles, types, ordered⟩

def disputeTypes : Registry :=
  ((Catalog.registerAll [("Invoice", disputes)] (.api "billing")).runOn .silent .empty).2

/-- Without them the filter's name stays a placeholder, although no error was reported, and nothing
can be generated. -/
theorem disputes_unsettled :
    (Catalog.registerAll [("Invoice", disputes)] (.api "billing")).runOn .silent .empty =
        (.ok (), disputeTypes) ∧
      Registry.empty.Settled ∧ ¬ disputeTypes.Settled ∧
      (∃ e, disputeTypes.ordered (.api "billing") = .error e ∧
        e.kindName = "UndefinedPlaceholder") ∧
      ∃ e, Target.typescript.file ⟨disputeTypes, .api "billing"⟩ {} = .error e := by
  have loaded :
      (Catalog.registerAll [("Invoice", disputes)] (.api "billing")).runOn .silent .empty =
        (.ok (), disputeTypes) := Loading.runOn_of_isOk (by decide +kernel)
  have refused : (disputeTypes.ordered (.api "billing")).isOk = false := by decide +kernel
  cases he : disputeTypes.ordered (.api "billing") with
  | ok types =>
    rw [he] at refused
    cases refused
  | error e =>
    obtain ⟨x, s, placeholder, rfl⟩ := placeholder_of_ordered he
    have fresh : Registry.empty.Settled := nofun
    have file : Target.typescript.file ⟨disputeTypes, .api "billing"⟩ {} =
        .error (.configuration (.undefinedPlaceholder x s)) := by
      rw [Target.file, he]
      rfl
    exact ⟨loaded, fresh, fun settled => settled s x placeholder, ⟨_, rfl, rfl⟩, _, file⟩

end ApiContract
