import ApiContract.Proofs.ConsultedNames
import ApiContract.Proofs.CycleSearch

/-!
# Checked references

`unresolved` looks a mentioned name up from the scope that holds the type which mentions it, and it
does not look behind other names. Walks over a payload look every name up from the scope of the
payload. What is checked is enough for them where inner scopes hide no type without putting one in
its place, and where the types that are only seen under another name mention what can be seen too.
-/

namespace ApiContract

namespace Registry

variable {r : Registry} {scope : Scope}

/-- A name stands for a type. -/
def Resolves (r : Registry) (scope : Scope) (name : String) : Prop :=
  ∃ t, r.resolve scope name = .ok t

/-- A type is one of those that a scope sees under their own names. -/
def Holds (r : Registry) (scope : Scope) (t : NamedType) : Prop :=
  ∃ p ∈ r.visible scope, r.entry? p.2 p.1 = some (.defined t)

/-- Types that the scope sees mention no name that stands for a type where they are registered and
for none in the scope. -/
def HidesNoType (r : Registry) (scope : Scope) : Prop :=
  ∀ p ∈ r.visible scope, ∀ t, r.entry? p.2 p.1 = some (.defined t) →
    ∀ x ∈ t.definition.mentions, r.Resolves p.2 x → r.Resolves scope x

/-- Types that the scope sees only under another name mention names that stand for types in it. -/
def SeesBehindNames (r : Registry) (scope : Scope) : Prop :=
  ∀ name t, r.resolve scope name = .ok t → ¬ r.Holds scope t →
    ∀ x ∈ t.definition.mentions, r.Resolves scope x

/-- Where nothing is unresolved, the dependencies of visible names stand for types. -/
theorem resolves_of_unresolved_eq_nil (checked : r.unresolved scope = []) {p dep : String × Scope}
    (visible : p ∈ r.visible scope) (h : dep ∈ r.dependencies p.2 p.1) :
    r.Resolves dep.2 dep.1 := by
  have none := List.flatMap_eq_nil_iff.mp checked p visible
  have here := List.filterMap_eq_nil_iff.mp none dep h
  cases hr : r.resolve dep.2 dep.1 with
  | ok t => exact ⟨t, hr⟩
  | error e => simp [hr] at here

/-- Where nothing is unresolved, the types that names stand for mention names that stand for types
from the same scope. -/
theorem resolves_of_mentions (checked : r.unresolved scope = []) (shown : r.HidesNoType scope)
    (behind : r.SeesBehindNames scope) {name : String} {t : NamedType}
    (resolved : r.resolve scope name = .ok t) : ∀ x ∈ t.definition.mentions, r.Resolves scope x := by
  by_cases held : r.Holds scope t
  · obtain ⟨p, visible, entry⟩ := held
    intro x hx
    have edge : (x, p.2) ∈ r.dependencies p.2 p.1 := by
      simp only [dependencies, lookup_of_entry entry]
      exact List.mem_map_of_mem (mem_sortedNames.mpr hx)
    exact shown p visible t entry x hx (resolves_of_unresolved_eq_nil checked visible edge)
  · exact behind name t resolved held

end Registry

/-- Where nothing is unresolved, every name that a walk along a visible type looks up stands for a
type, if inner scopes hide no type and types behind other names mention what is seen. So names that
stand for none make no difference to a walk. -/
theorem resolves_of_consults (r : Registry) (scope : Scope) (checked : r.unresolved scope = [])
    (shown : r.HidesNoType scope) (behind : r.SeesBehindNames scope) (name : String) (t : NamedType)
    (resolved : r.resolve scope name = .ok t) :
    (∀ x, View.Consults ⟨r, scope⟩ t.definition x → r.Resolves scope x) ∧
      ∀ other : View, (∀ x, r.Resolves scope x → other.resolve x = r.resolve scope x) →
        View.WalksAlike ⟨r, scope⟩ other t.definition := by
  have mentioned := Registry.resolves_of_mentions checked shown behind resolved
  have consulted (x : String) (h : View.Consults ⟨r, scope⟩ t.definition x) :
      r.Resolves scope x := by
    obtain ⟨e, occurs, looks⟩ := h
    refine Definition.Occurs.all_mentions ?_ occurs mentioned x looks.mem_mentions
    intro target definition ⟨t', ht'⟩ hd
    have same : t'.definition = definition := by simpa [View.definition?, View.resolve, ht'] using hd
    exact same ▸ Registry.resolves_of_mentions checked shown behind ht'
  refine ⟨consulted, fun other same => View.AnswersAlike.walksAlike ?_⟩
  exact fun x hx => same x (consulted x hx)

def bookings : Registry :=
  { tables := [(.global, [recordOf "Invoice" ["Money"], recordOf "Money" []]),
      (.api "app", [recordOf "Country" [], ("Place", .aliasOf (.api "shared") "Address")]),
      (.api "shared", [recordOf "Address" ["Country"], recordOf "Country" []])] }

/-- Nothing in bookings is unresolved, and walks along a place find its country. -/
theorem bookings_checked :
    bookings.unresolved (.api "app") = [] ∧
      ∃ place, bookings.resolve (.api "app") "Place" = .ok place ∧
        View.Consults ⟨bookings, .api "app"⟩ place.definition "Country" ∧
        bookings.Resolves (.api "app") "Country" := by
  have visible : bookings.visible (.api "app") = [("Country", .api "app"), ("Invoice", .global),
      ("Money", .global), ("Place", .api "app")] := by decide +kernel
  have shown : bookings.HidesNoType (.api "app") := by
    intro p hp t entry x hx ht
    rw [visible] at hp
    simp only [List.mem_cons, List.not_mem_nil, or_false] at hp
    rcases hp with rfl | rfl | rfl | rfl
    · exact ht
    · cases entry
      obtain rfl : x = "Money" := List.mem_singleton.mp hx
      exact ⟨_, rfl⟩
    · cases entry
      cases hx
    · exact ht
  have behind : bookings.SeesBehindNames (.api "app") := by
    intro name t resolved hidden x hx
    have seen := Registry.mem_keys_visible (Registry.contains_of_resolveWithin resolved)
    rw [visible] at seen
    simp only [Keyed.keys, List.map_cons, List.map_nil, List.mem_cons, List.not_mem_nil,
      or_false] at seen
    -- places alone are seen under another name
    rcases seen with rfl | rfl | rfl | rfl
    · cases resolved
      exact absurd ⟨("Country", .api "app"), by simp [visible], rfl⟩ hidden
    · cases resolved
      exact absurd ⟨("Invoice", .global), by simp [visible], rfl⟩ hidden
    · cases resolved
      exact absurd ⟨("Money", .global), by simp [visible], rfl⟩ hidden
    · cases resolved
      obtain rfl : x = "Country" := List.mem_singleton.mp hx
      exact ⟨_, rfl⟩
  have checked : bookings.unresolved (.api "app") = [] := by rfl
  refine ⟨checked, _, rfl, ?_, ?_⟩
  · exact ⟨_, .field rfl List.mem_cons_self .here, .target rfl⟩
  · refine (resolves_of_consults bookings (.api "app") checked shown behind "Place" _ rfl).1 _ ?_
    exact ⟨_, .field rfl List.mem_cons_self .here, .target rfl⟩

def deliveries : Registry :=
  { tables := [(.api "app", [("Place", .aliasOf (.api "shared") "Address")]),
      (.api "shared", [recordOf "Address" ["Country"],
        ("Country", .defined { name := "Country", definition := .scalar .string })])] }

def quotes : Registry :=
  { tables := [(.global, [recordOf "Invoice" ["Money"],
        ("Money", .defined { name := "Money", definition := .scalar .decimal })]),
      (.api "app", [("Money", .placeholder)])] }

/-- Nothing is unresolved in deliveries and in quotes, but what their places and invoices mention
cannot be looked up from there, so that no place has a country and no invoice an amount. -/
theorem unresolved_overlooks_references :
    (∃ place, deliveries.unresolved (.api "app") = [] ∧
      deliveries.resolve (.api "app") "Place" = .ok place ∧
      View.Consults ⟨deliveries, .api "app"⟩ place.definition "Country" ∧
      ¬ deliveries.Resolves (.api "app") "Country" ∧
      Context.accepts ⟨⟨deliveries, .api "app"⟩, .preserve⟩ place.definition
        (.object [("Country", .string "NL")]) = false) ∧
    ∃ invoice, quotes.unresolved (.api "app") = [] ∧
      quotes.resolve (.api "app") "Invoice" = .ok invoice ∧
      View.Consults ⟨quotes, .api "app"⟩ invoice.definition "Money" ∧
      ¬ quotes.Resolves (.api "app") "Money" ∧
      Context.accepts ⟨⟨quotes, .api "app"⟩, .preserve⟩ invoice.definition
        (.object [("Money", .int 1)]) = false := by
  have no_country : ¬ deliveries.Resolves (.api "app") "Country" := by
    rintro ⟨t, ht⟩
    cases ht
  have no_money : ¬ quotes.Resolves (.api "app") "Money" := by
    rintro ⟨t, ht⟩
    cases ht
  constructor
  · exact ⟨_, rfl, rfl, ⟨_, .field rfl List.mem_cons_self .here, .target rfl⟩, no_country, rfl⟩
  · exact ⟨_, rfl, rfl, ⟨_, .field rfl List.mem_cons_self .here, .target rfl⟩, no_money, rfl⟩

end ApiContract
