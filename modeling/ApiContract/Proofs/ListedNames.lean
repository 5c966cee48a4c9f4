import ApiContract.Proofs.DependencyOrder

/-!
# What listed names stand for

Types are listed under their bare names, while a name is resolved from a scope. Followed through the
list, a name comes to the type it resolves to if the traversal, wherever it comes to a name that the
resolution passes, sees the same entry under it. Where an outer type mentions a name that an inner
scope gives to another type, or a second name is that of the type it stands for, the list holds what
was come to first.
-/

namespace ApiContract

namespace Registry

variable {r : Registry} {scope : Scope} {types : List OrderedType}

def listedAs (types : List OrderedType) (name : String) : Option Listing :=
  (types.find? (·.name == name)).map (·.listing)

/-- Followed through a list, a name comes to a type. -/
inductive StandsFor (types : List OrderedType) : String → NamedType → Prop where
  | defined {name t} (h : listedAs types name = some (.defined t)) : StandsFor types name t
  | aliasOf {name target t} (h : listedAs types name = some (.aliasOf target))
      (next : StandsFor types target t) : StandsFor types name t

/-- A name that is listed as itself stands for nothing. -/
theorem not_standsFor_of_listedAs_self {name : String} {t : NamedType}
    (h : listedAs types name = some (.aliasOf name)) : ¬ StandsFor types name t := by
  intro stands
  induction stands with
  | defined h' =>
    rw [h] at h'
    cases h'
  | aliasOf h' _ ih =>
    rw [h] at h'
    cases h'
    exact ih h

/-- The resolution of a name from a scope comes to another name and scope. -/
inductive Passes (r : Registry) : Scope → String → Scope → String → Prop where
  | here {s n} : Passes r s n s n
  | aliasOf {s n found s' n' t m} (hl : r.lookup s n = some (found, .aliasOf s' n'))
      (h : Passes r s' n' t m) : Passes r s n t m

/-- Wherever a traversal comes to a name, it sees the same entry as one scope does. -/
def SeenAlike (r : Registry) (scope s : Scope) (name : String) : Prop :=
  ∀ s', r.Reached scope (name, s') → (r.lookup s' name).map (·.2) = (r.lookup s name).map (·.2)

/-- A name is listed as the entry that was seen from where the traversal came to it. -/
theorem Lists.exists_listedAs (h : r.Lists scope types) {name : String}
    (hn : name ∈ types.map (·.name)) :
    ∃ s found e l, r.Reached scope (name, s) ∧ r.lookup s name = some (found, e) ∧
      e.listing? = some l ∧ listedAs types name = some l ∧
      ∀ p, r.Leads (name, s) p → p.1 ∈ types.map (·.name) := by
  cases hf : types.find? (·.name == name) with
  | none =>
    obtain ⟨t, ht, he⟩ := List.mem_map.mp hn
    exact absurd he (by simpa using List.find?_eq_none.mp hf t ht)
  | some t =>
    obtain rfl : t.name = name := by simpa using List.find?_some hf
    obtain ⟨earlier, later, he⟩ := List.append_of_mem (List.mem_of_find?_eq_some hf)
    obtain ⟨s, reached, from_s⟩ := h.listed earlier t later he
    obtain ⟨found, e, hl, listing⟩ := from_s.listing
    exact ⟨s, found, e, t.listing, reached, hl, listing, by rw [listedAs, hf]; rfl, from_s.visited⟩

/-- By induction on the number of names that may still be looked up. -/
theorem Lists.standsFor (h : r.Lists scope types) {hops : Nat} {s : Scope} {name : String}
    {t : NamedType} (listed : name ∈ types.map (·.name))
    (alike : ∀ s' n, r.Passes s name s' n → r.SeenAlike scope s' n)
    (resolved : r.resolveWithin hops s name = .ok t) : StandsFor types name t := by
  induction hops generalizing s name with
  | zero => cases resolved
  | succ hops ih =>
    obtain ⟨s', found', e, l, reached, hl', listing, listedAs, next⟩ := h.exists_listedAs listed
    have same := alike s name .here s' reached
    rw [hl', Option.map_some] at same
    rw [resolveWithin] at resolved
    split at resolved
    · rename_i found _ hl
      cases resolved
      -- the entry that is seen from both places is the type
      obtain rfl : e = .defined t := by simpa [hl] using same
      cases listing
      exact .defined listedAs
    · cases resolved
    · rename_i found target_scope target hl
      obtain rfl : e = .aliasOf target_scope target := by simpa [hl] using same
      cases listing
      have edge : r.Leads (name, s') (target, target_scope) :=
        ⟨by simp [dependencies, hl'], contains_of_resolveWithin resolved⟩
      exact .aliasOf listedAs
        (ih (next _ edge) (fun s'' n hp => alike s'' n (.aliasOf hl hp)) resolved)
    · cases resolved

end Registry

/-- Types that are listed for a scope hold what resolves from there: if the traversal sees the same
entry, wherever it comes to a name that the resolution of one passes, then following the list from
that one ends at the type that it resolves to. -/
theorem standsFor_of_resolve (r : Registry) (scope : Scope) (types : List Registry.OrderedType)
    (ordered : r.ordered scope = .ok types) (name : String) (t : NamedType)
    (resolved : r.resolve scope name = .ok t)
    (alike : ∀ s n, r.Passes scope name s n → r.SeenAlike scope s n) :
    Registry.StandsFor types name t := by
  have lists : r.Lists scope types := by
    have outcome := Registry.yields_ordered r scope
    rwa [ordered] at outcome
  obtain ⟨p, hp, rfl⟩ :=
    List.mem_map.mp (Registry.mem_keys_visible (Registry.contains_of_resolveWithin resolved))
  exact lists.standsFor (lists.roots p hp) alike resolved

def orders : Registry :=
  { tables := [(.global, [("Money", .defined { name := "Money", definition := .scalar .decimal })]),
      (.api "app", [("Buyer", .aliasOf (.api "crm") "Customer"),
        ("Money", .defined { name := "Money", definition := .scalar .string }),
        recordOf "Order" ["Buyer", "Money"]]),
      (.api "crm", [recordOf "Customer" []])] }

/-- In the list, buyers stand for customers and money for that of the orders. -/
theorem orders_standFor :
    ∃ types customer money, orders.ordered (.api "app") = .ok types ∧
      orders.resolve (.api "app") "Buyer" = .ok customer ∧
      Registry.StandsFor types "Buyer" customer ∧
      orders.resolve (.api "app") "Money" = .ok money ∧
      Registry.StandsFor types "Money" money := by
  have places (p : String × Scope) (hp : orders.Reached (.api "app") p) :
      p ∈ [("Buyer", .api "app"), ("Customer", .api "crm"), ("Money", .api "app"),
        ("Order", .api "app")] :=
    Registry.mem_of_reached (by decide +kernel) (by decide +kernel) hp
  have buyer : orders.lookup (.api "app") "Buyer" =
      some (.api "app", .aliasOf (.api "crm") "Customer") := rfl
  have customer : ∃ t, orders.lookup (.api "crm") "Customer" = some (.api "crm", .defined t) :=
    ⟨_, rfl⟩
  have money : ∃ t, orders.lookup (.api "app") "Money" = some (.api "app", .defined t) := ⟨_, rfl⟩
  refine ⟨_, _, _, rfl, rfl, ?_, rfl, ?_⟩
  · refine standsFor_of_resolve orders (.api "app") _ rfl "Buyer" _ rfl ?_
    intro s n passed s' reached
    cases passed with
    | here =>
      obtain rfl : s' = .api "app" := by simpa using places _ reached
      rfl
    | aliasOf hl later =>
      rw [buyer] at hl
      cases hl
      cases later with
      | here =>
        obtain rfl : s' = .api "crm" := by simpa using places _ reached
        rfl
      | aliasOf hl =>
        obtain ⟨t, ht⟩ := customer
        rw [ht] at hl
        cases hl
  · refine standsFor_of_resolve orders (.api "app") _ rfl "Money" _ rfl ?_
    intro s n passed s' reached
    cases passed with
    | here =>
      obtain rfl : s' = .api "app" := by simpa using places _ reached
      rfl
    | aliasOf hl =>
      obtain ⟨t, ht⟩ := money
      rw [ht] at hl
      cases hl

def parcels : Registry :=
  { tables := [(.api "app", [("Address", .aliasOf (.api "shared") "Address")]),
      (.api "shared", [recordOf "Address" []])] }

def prices : Registry :=
  { tables := [(.global, [recordOf "Invoice" ["Money"],
        ("Money", .defined { name := "Money", definition := .scalar .decimal })]),
      (.api "app", [("Money", .defined { name := "Money", definition := .scalar .string })])] }

/-- The addresses of the list stand for nothing but themselves, and its money is the number that
invoices mention where they are known, which is not what it is in the API. -/
theorem ordered_hides_types :
    (∃ types t, parcels.ordered (.api "app") = .ok types ∧
      parcels.resolve (.api "app") "Address" = .ok t ∧
      ¬ Registry.StandsFor types "Address" t) ∧
    ∃ types t, prices.ordered (.api "app") = .ok types ∧
      prices.resolve (.api "app") "Money" = .ok t ∧ ¬ Registry.StandsFor types "Money" t := by
  constructor
  · exact ⟨_, _, rfl, rfl, Registry.not_standsFor_of_listedAs_self rfl⟩
  · refine ⟨_, _, rfl, rfl, ?_⟩
    intro h
    cases h with
    | defined h => cases h
    | aliasOf h => cases h

end ApiContract
