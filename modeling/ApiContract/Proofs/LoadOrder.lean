import ApiContract.Output.Target
import ApiContract.Proofs.RegistrationRuns

/-!
# The order of loading

A declaration gives a name its type or makes it another name. What declarations leave under a name
that they agree on is settled by which calls are made about it: it is what an accepted one gives to
it, or a placeholder if it is only reserved. So neither their order nor how often they are made
tells in the registry, and reservations tell only of names whose declaration is refused.
-/

namespace ApiContract

open Registry

namespace Registry.Change

variable {r r' : Registry} {scope s : Scope} {name n : String}

theorem entry_of_ne (h : r.Change scope name r') (apart : ¬ (s = scope ∧ n = name)) :
    r'.entry? s n = r.entry? s n := by
  cases h with
  | none => rfl
  | reserved => rw [entry_put, if_neg apart]
  | settled => rw [entry_put, if_neg apart]

theorem canonical (h : r.Change scope name r') (canonical : r.Canonical) : r'.Canonical := by
  cases h with
  | none => exact canonical
  | reserved => exact canonical.put _ _ _
  | settled => exact canonical.put _ _ _

end Registry.Change

namespace Registration

/-- A call that gives a name its type or makes it another name. -/
inductive Declares : Registration → Prop where
  | register (scope : Scope) (type : NamedType) : Declares (.register scope type)
  | makeAlias (scope : Scope) (name : String) (targetScope : Scope) (target : String) :
    Declares (.makeAlias scope name targetScope target)

/-- The entry that a call gives to a name which has none for good; a flawed type gives none. -/
def given? : Registration → Option Entry
  | reserve _ _ => none
  | define _ t | register _ t =>
    match t.check with
    | .ok _ => some (.defined t)
    | .error _ => none
  | makeAlias _ _ targetScope target => some (.aliasOf targetScope target)

variable {call : Registration} {policy : ErrorPolicy} {r : Registry} {s : Scope} {n : String}
  {e : Entry}

theorem settled_of_given (h : call.given? = some e) : e.settled = true := by
  cases call with
  | reserve => cases h
  | define _ t | register _ t =>
    cases hc : t.check <;> simp only [given?, hc] at h <;> cases h
    rfl
  | makeAlias =>
    cases h
    rfl

/-! ### One call -/

/-- A name without an entry takes the one that a call gives it. -/
theorem perform_of_given (declares : call.Declares) (h : call.given? = some e)
    (free : r.Unsettled call.scope call.name) (policy : ErrorPolicy) :
    (call.perform policy r).2 = r.put call.scope call.name e := by
  cases declares with
  | register scope t =>
    cases hc : t.check with
    | error _ => simp [given?, hc] at h
    | ok _ =>
      simp only [given?, hc] at h
      cases h
      have made : (register scope t).change r = .ok (r.put scope t.name (.defined t)) :=
        register_of_unsettled hc free
      rw [perform_of_ok made]
      rfl
  | makeAlias scope name targetScope target =>
    cases h
    have made : (makeAlias scope name targetScope target).change r =
        .ok (r.put scope name (.aliasOf targetScope target)) := makeAlias_of_unsettled free
    rw [perform_of_ok made]
    rfl

/-- A call that is refused changes nothing. -/
theorem perform_of_refused (declares : call.Declares) (h : call.given? = none)
    (policy : ErrorPolicy) (r : Registry) : (call.perform policy r).2 = r := by
  cases declares with
  | register scope t =>
    cases hc : t.check with
    | ok _ => simp [given?, hc] at h
    | error e =>
      have refused : (register scope t).change r = .error e := register_of_flawed hc
      rw [perform_of_error refused]
  | makeAlias => cases h

theorem entry_perform_reserve (policy : ErrorPolicy) (r : Registry) (s : Scope) (n : String) :
    Registry.entry? ((reserve s n).perform policy r).2 s n =
      some ((r.entry? s n).getD .placeholder) := by
  have made : (reserve s n).change r = .ok (r.reserve s n).1 := rfl
  rw [perform_of_ok made, entry_reserve, if_pos ⟨rfl, rfl⟩]

/-- A call that gives no entry does at most reserve its name. -/
theorem entry_perform_of_refused
    (loads : call.Declares ∨ call = .reserve call.scope call.name)
    (refused : call.scope = s → call.name = n → call.given? = none) (policy : ErrorPolicy)
    (r : Registry) :
    (call = .reserve s n ∧
        Registry.entry? (call.perform policy r).2 s n = some ((r.entry? s n).getD .placeholder)) ∨
      (call ≠ .reserve s n ∧ Registry.entry? (call.perform policy r).2 s n = r.entry? s n) := by
  by_cases own : s = call.scope ∧ n = call.name
  · obtain ⟨rfl, rfl⟩ := own
    rcases loads with declares | reserves
    · right
      refine ⟨?_, by rw [perform_of_refused declares (refused rfl rfl)]⟩
      rintro reserves
      rw [reserves] at declares
      cases declares
    · left
      refine ⟨reserves, ?_⟩
      rw [reserves]
      exact entry_perform_reserve policy r _ _
  · right
    refine ⟨?_, (change_perform call policy r).entry_of_ne own⟩
    rintro rfl
    exact own ⟨rfl, rfl⟩

/-! ### Runs -/

variable {calls : List Registration}

theorem run_canonical (policy : ErrorPolicy) (calls : List Registration) (h : r.Canonical) :
    (run policy calls r).Canonical :=
  run_induction (P := Canonical)
    (fun r h call => (change_perform call policy r).canonical h) calls h

/-- Where no call gives a name an entry, a run does no more than reserve it. -/
theorem run_entry_of_refused
    (loads : ∀ call ∈ calls, call.Declares ∨ call = .reserve call.scope call.name)
    (refused : ∀ call ∈ calls, call.scope = s → call.name = n → call.given? = none)
    (policy : ErrorPolicy) (r : Registry) :
    (.reserve s n ∈ calls →
        Registry.entry? (run policy calls r) s n = some ((r.entry? s n).getD .placeholder)) ∧
      (.reserve s n ∉ calls → Registry.entry? (run policy calls r) s n = r.entry? s n) := by
  induction calls generalizing r with
  | nil => exact ⟨nofun, fun _ => rfl⟩
  | cons call rest ih =>
    have first := entry_perform_of_refused (loads call List.mem_cons_self)
      (refused call List.mem_cons_self) policy r
    obtain ⟨reserved, kept⟩ := ih (fun c hc => loads c (List.mem_cons_of_mem call hc))
      (fun c hc => refused c (List.mem_cons_of_mem call hc)) (call.perform policy r).2
    have step : run policy (call :: rest) r = run policy rest (call.perform policy r).2 := rfl
    rw [step]
    by_cases later : Registration.reserve s n ∈ rest
    · refine ⟨fun _ => ?_, fun h => absurd (List.mem_cons_of_mem call later) h⟩
      rcases first with ⟨-, he⟩ | ⟨-, he⟩
      · rw [reserved later, he, Option.getD_some]
      · rw [reserved later, he]
    · rw [kept later]
      rcases first with ⟨rfl, he⟩ | ⟨other, he⟩
      · exact ⟨fun _ => he, fun h => absurd List.mem_cons_self h⟩
      · refine ⟨fun h => ?_, fun _ => he⟩
        rcases List.mem_cons.mp h with h | h
        · exact absurd h.symm other
        · exact absurd h later

/-- A name that has no entry for good gets the one that calls give it, if all give it the same. -/
theorem run_entry_of_given
    (loads : ∀ call ∈ calls, call.Declares ∨ call = .reserve call.scope call.name)
    (agree : ∀ call ∈ calls, call.scope = s → call.name = n → ∀ f, call.given? = some f → f = e)
    (given : ∃ call ∈ calls, call.scope = s ∧ call.name = n ∧ call.given? = some e)
    (policy : ErrorPolicy) (free : r.Unsettled s n) :
    Registry.entry? (run policy calls r) s n = some e := by
  induction calls generalizing r with
  | nil =>
    obtain ⟨call, hc, -⟩ := given
    cases hc
  | cons call rest ih =>
    have step : run policy (call :: rest) r = run policy rest (call.perform policy r).2 := rfl
    have rest_loads := fun c hc => loads c (List.mem_cons_of_mem call hc)
    have rest_agree := fun c hc => agree c (List.mem_cons_of_mem call hc)
    rw [step]
    by_cases first : call.scope = s ∧ call.name = n ∧ ∃ f, call.given? = some f
    · -- this call gives the name its entry, which stays in what follows
      obtain ⟨rfl, rfl, f, hf⟩ := first
      obtain rfl := agree call List.mem_cons_self rfl rfl f hf
      have declares : call.Declares := by
        refine (loads call List.mem_cons_self).resolve_right fun reserves => ?_
        rw [reserves] at hf
        cases hf
      have placed : Registry.entry? (call.perform policy r).2 call.scope call.name = some f := by
        rw [perform_of_given declares hf free, entry_put, if_pos ⟨rfl, rfl⟩]
      exact run_entry_of_settled placed (settled_of_given hf) policy rest
    · have refused : call.scope = s → call.name = n → call.given? = none := by
        intro hs hn
        cases hg : call.given? with
        | none => rfl
        | some f => exact absurd ⟨hs, hn, f, hg⟩ first
      have still : (call.perform policy r).2.Unsettled s n := by
        rcases entry_perform_of_refused (loads call List.mem_cons_self) refused policy r with
          ⟨-, he⟩ | ⟨-, he⟩
        · right
          rcases free with free | free <;> rw [he, free] <;> rfl
        · exact free.imp he.trans he.trans
      refine ih rest_loads rest_agree ?_ still
      obtain ⟨c, hc, hs, hn, hg⟩ := given
      rcases List.mem_cons.mp hc with rfl | hc
      · exact absurd ⟨hs, hn, e, hg⟩ first
      · exact ⟨c, hc, hs, hn, hg⟩

/-- Calls that make every declaration of a collection, in some order and some of them again, and
otherwise reserve names of the collection. -/
structure Loads (declared calls : List Registration) : Prop where
  complete : ∀ call ∈ declared, call ∈ calls
  sound : ∀ call ∈ calls, call ∈ declared ∨ ∃ d ∈ declared, call = .reserve d.scope d.name

/-- Declarations of one name in one scope are the same. -/
def Consistent (declared : List Registration) : Prop :=
  ∀ c ∈ declared, ∀ d ∈ declared, c.scope = d.scope → c.name = d.name → c = d

namespace Loads

variable {declared : List Registration}

theorem opens (h : Loads declared calls) (declares : ∀ d ∈ declared, d.Declares) :
    ∀ call ∈ calls, call.Declares ∨ call = .reserve call.scope call.name := by
  intro call hc
  rcases h.sound call hc with hd | ⟨d, -, rfl⟩
  · exact .inl (declares call hd)
  · exact .inr rfl

/-- What is declared of a name is what loading leaves under it. -/
theorem entry_of_given (h : Loads declared calls) (declares : ∀ d ∈ declared, d.Declares)
    (consistent : Consistent declared) {d : Registration} (hd : d ∈ declared)
    (given : d.given? = some e) (policy : ErrorPolicy) (free : r.Unsettled d.scope d.name) :
    Registry.entry? (run policy calls r) d.scope d.name = some e := by
  refine run_entry_of_given (h.opens declares) ?_ ⟨d, h.complete d hd, rfl, rfl, given⟩ policy free
  intro call hc hs hn f hf
  rcases h.sound call hc with hm | ⟨d', -, rfl⟩
  · obtain rfl := consistent call hm d hd hs hn
    exact Option.some.inj (hf.symm.trans given)
  · cases hf

/-- A call about a name that is declared in vain gives it no entry. -/
theorem refused (h : Loads declared calls)
    (none : ∀ d ∈ declared, d.scope = s → d.name = n → d.given? = none) :
    ∀ call ∈ calls, call.scope = s → call.name = n → call.given? = Option.none := by
  intro call hc hs hn
  rcases h.sound call hc with hm | ⟨d, -, rfl⟩
  · exact none call hm hs hn
  · rfl

/-- Two ways of loading one collection leave the same entries, if a name that is declared in vain is
reserved in both or in neither. -/
theorem entry_eq {calls' : List Registration} (h : Loads declared calls)
    (h' : Loads declared calls') (declares : ∀ d ∈ declared, d.Declares)
    (consistent : Consistent declared)
    (vain : ∀ d ∈ declared, d.given? = none →
      (.reserve d.scope d.name ∈ calls ↔ .reserve d.scope d.name ∈ calls'))
    (policy policy' : ErrorPolicy) (r : Registry) (s : Scope) (n : String) :
    Registry.entry? (run policy calls r) s n = Registry.entry? (run policy' calls' r) s n := by
  by_cases free : r.Unsettled s n
  · by_cases given : ∃ d ∈ declared, d.scope = s ∧ d.name = n ∧ ∃ e, d.given? = some e
    · obtain ⟨d, hd, rfl, rfl, e, he⟩ := given
      rw [h.entry_of_given declares consistent hd he policy free,
        h'.entry_of_given declares consistent hd he policy' free]
    · have none : ∀ d ∈ declared, d.scope = s → d.name = n → d.given? = none := by
        intro d hd hs hn
        cases hg : d.given? with
        | none => rfl
        | some e => exact absurd ⟨d, hd, hs, hn, e, hg⟩ given
      have reserved : Registration.reserve s n ∈ calls ↔ Registration.reserve s n ∈ calls' := by
        by_cases known : ∃ d ∈ declared, d.scope = s ∧ d.name = n
        · obtain ⟨d, hd, rfl, rfl⟩ := known
          exact vain d hd (none d hd rfl rfl)
        · -- names outside the collection are reserved in neither
          have spared {cs : List Registration} (h : Loads declared cs) :
              Registration.reserve s n ∉ cs := by
            intro hm
            rcases h.sound _ hm with hd | ⟨d, hd, he⟩
            · cases declares _ hd
            · cases he
              exact known ⟨d, hd, rfl, rfl⟩
          exact iff_of_false (spared h) (spared h')
      obtain ⟨made, kept⟩ :=
        run_entry_of_refused (h.opens declares) (h.refused none) policy r
      obtain ⟨made', kept'⟩ :=
        run_entry_of_refused (h'.opens declares) (h'.refused none) policy' r
      by_cases hm : Registration.reserve s n ∈ calls
      · rw [made hm, made' (reserved.mp hm)]
      · rw [kept hm, kept' (mt reserved.mpr hm)]
  · cases he : r.entry? s n with
    | none => exact absurd (.inl he) free
    | some e =>
      have settled : e.settled = true := by
        cases e with
        | placeholder => exact absurd (.inr he) free
        | defined => rfl
        | aliasOf => rfl
      rw [run_entry_of_settled he settled policy calls,
        run_entry_of_settled he settled policy' calls']

end Loads

end Registration

/-- Load order does not matter: whatever was registered before, two ways of making the declarations
of a consistent collection lead to one registry, and so to the same files, if a name whose type is
flawed is reserved in both or in neither. -/
theorem run_eq_of_loads (policy policy' : ErrorPolicy)
    (before declared calls calls' : List Registration)
    (declares : ∀ d ∈ declared, d.Declares) (consistent : Registration.Consistent declared)
    (loads : Registration.Loads declared calls) (loads' : Registration.Loads declared calls')
    (vain : ∀ d ∈ declared, d.given? = none →
      (.reserve d.scope d.name ∈ calls ↔ .reserve d.scope d.name ∈ calls')) :
    let r := Registration.run policy (before ++ calls) .empty
    let r' := Registration.run policy' (before ++ calls') .empty
    r = r' ∧ ∀ (target : Target) (scope : Scope) (settings : OutputSettings),
      target.file ⟨r, scope⟩ settings = target.file ⟨r', scope⟩ settings := by
  intro r r'
  have same : r = r' := by
    refine Canonical.ext (Registration.run_canonical _ _ canonical_empty)
      (Registration.run_canonical _ _ canonical_empty) fun s n => ?_
    simp only [r, r', Registration.run_append, Registration.run_policy policy' policy before]
    exact loads.entry_eq loads' declares consistent vain policy policy' _ s n
  exact ⟨same, fun _ _ _ => by rw [same]⟩

def rentType : NamedType :=
  { name := "Rent", definition := .object [{ name := "amount", definition := .reference "Money" }] }

def moneyType : NamedType := { name := "Money", definition := .scalar .decimal }

def shapeless : NamedType := { name := "Shape", definition := .union [] }

def rentDeclarations : List Registration :=
  [.register .global moneyType, .register (.api "app") rentType,
    .makeAlias (.api "app") "Price" .global "Money", .register (.api "app") shapeless]

def rentCalls : List Registration :=
  .reserve (.api "app") "Shape" :: rentDeclarations

def rentCallsAgain : List Registration :=
  [.register (.api "app") shapeless, .makeAlias (.api "app") "Price" .global "Money",
    .reserve (.api "app") "Rent", .register (.api "app") rentType,
    .reserve (.api "app") "Shape", .reserve (.api "app") "Price",
    .register .global moneyType, .makeAlias (.api "app") "Price" .global "Money"]

theorem rent_loads_alike :
    let r := Registration.run .raise rentCalls .empty
    r.resolve (.api "app") "Price" = .ok moneyType ∧
      r = Registration.run .silent rentCallsAgain .empty := by
  have declares : ∀ d ∈ rentDeclarations, d.Declares := by
    intro d hd
    simp only [rentDeclarations, List.mem_cons, List.not_mem_nil, or_false] at hd
    rcases hd with rfl | rfl | rfl | rfl <;> constructor
  have consistent : Registration.Consistent rentDeclarations := by
    intro c hc d hd hs hn
    simp only [rentDeclarations, List.mem_cons, List.not_mem_nil, or_false] at hc hd
    rcases hc with rfl | rfl | rfl | rfl <;> rcases hd with rfl | rfl | rfl | rfl <;>
      first | rfl | exact absurd hs (by decide) | exact absurd hn (by decide)
  have loads : Registration.Loads rentDeclarations rentCalls := by
    refine ⟨fun call hc => List.mem_cons_of_mem _ hc, fun call hc => ?_⟩
    rcases List.mem_cons.mp hc with rfl | hc
    · exact .inr ⟨.register (.api "app") shapeless, by simp [rentDeclarations], rfl⟩
    · exact .inl hc
  have loads' : Registration.Loads rentDeclarations rentCallsAgain := by
    refine ⟨fun call hc => ?_, fun call hc => ?_⟩
    · simp only [rentDeclarations, List.mem_cons, List.not_mem_nil, or_false] at hc
      rcases hc with rfl | rfl | rfl | rfl <;> simp [rentCallsAgain]
    · simp only [rentCallsAgain, List.mem_cons, List.not_mem_nil, or_false] at hc
      rcases hc with rfl | rfl | rfl | rfl | rfl | rfl | rfl | rfl
      · exact .inl (by simp [rentDeclarations])
      · exact .inl (by simp [rentDeclarations])
      · exact .inr ⟨.register (.api "app") rentType, by simp [rentDeclarations], rfl⟩
      · exact .inl (by simp [rentDeclarations])
      · exact .inr ⟨.register (.api "app") shapeless, by simp [rentDeclarations], rfl⟩
      · refine .inr ⟨.makeAlias (.api "app") "Price" .global "Money", ?_, rfl⟩
        simp [rentDeclarations]
      · exact .inl (by simp [rentDeclarations])
      · exact .inl (by simp [rentDeclarations])
  have vain : ∀ d ∈ rentDeclarations, d.given? = none →
      (.reserve d.scope d.name ∈ rentCalls ↔ .reserve d.scope d.name ∈ rentCallsAgain) := by
    intro d hd none
    simp only [rentDeclarations, List.mem_cons, List.not_mem_nil, or_false] at hd
    rcases hd with rfl | rfl | rfl | rfl
    · cases none
    · cases none
    · cases none
    · simp [rentCalls, rentCallsAgain, Registration.scope, Registration.name, shapeless]
  exact ⟨rfl, (run_eq_of_loads .raise .silent [] rentDeclarations rentCalls rentCallsAgain
    declares consistent loads loads' vain).1⟩

/-- A flawed type leaves its name free, and a placeholder under it where it was reserved. So a
reservation of its name tells in the registry, and then no file can be written. -/
theorem reservation_of_shapeless_tells :
    let declared := [Registration.register .global shapeless]
    let r := Registration.run .raise declared .empty
    let r' := Registration.run .raise (.reserve .global "Shape" :: declared) .empty
    (∀ d ∈ declared, d.Declares) ∧ Registration.Consistent declared ∧
      Registration.Loads declared declared ∧
      Registration.Loads declared (.reserve .global "Shape" :: declared) ∧
      (∃ text, Target.typescript.file ⟨r, .global⟩ {} = .ok text) ∧
      Target.typescript.file ⟨r', .global⟩ {} =
        .error (.configuration (.undefinedPlaceholder "Shape" .global)) ∧
      r ≠ r' := by
  intro declared r r'
  have only {d : Registration} (hd : d ∈ declared) : d = .register .global shapeless :=
    List.mem_singleton.mp hd
  refine ⟨?_, ?_, ⟨fun _ h => h, fun _ h => .inl h⟩, ⟨?_, ?_⟩, ⟨_, rfl⟩, rfl, ?_⟩
  · intro d hd
    rw [only hd]
    exact .register _ _
  · intro c hc d hd _ _
    rw [only hc, only hd]
  · exact fun _ h => List.mem_cons_of_mem _ h
  · intro call hc
    rcases List.mem_cons.mp hc with rfl | hc
    · exact .inr ⟨_, List.mem_cons_self, rfl⟩
    · exact .inl hc
  · intro same
    have missing : r.entry? .global "Shape" = none := rfl
    rw [same] at missing
    cases missing

end ApiContract
