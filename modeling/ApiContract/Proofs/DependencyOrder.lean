import ApiContract.Proofs.CycleSearch

/-!
# The order of types

`ordered` goes through dependencies depth first and lists a name when it leaves it. Whatever the
registry is, each name is listed once, as the entry that was seen where the traversal came to it,
and after the names it depends on there, but for those that lead back to it. If no name that is
reached has entries in two scopes, it does not matter where the traversal came to it: the list then
has all names that are reachable, in an order of dependencies, and is refused only for a
placeholder among them.
-/

namespace ApiContract

/-! ### Computations that may be refused -/

def Yields {ε α : Type} (P : α → Prop) (Q : ε → Prop) : Except ε α → Prop
  | .ok a => P a
  | .error e => Q e

theorem Yields.bind {ε α β : Type} {P : α → Prop} {P' : β → Prop} {Q : ε → Prop} {x : Except ε α}
    {f : α → Except ε β} (hx : Yields P Q x) (hf : ∀ a, P a → Yields P' Q (f a)) :
    Yields P' Q (x.bind f) := by
  cases x with
  | ok a => exact hf a hx
  | error e => exact hx

def Entry.listing? : Entry → Option Registry.Listing
  | .placeholder => none
  | .defined t => some (.defined t)
  | .aliasOf _ target => some (.aliasOf target)

namespace Registry

open Relation

variable {r : Registry} {scope : Scope} {recursive path : List String} {done mid after : Traversal}

/-! ### Places -/

/-- From a name, looked up from a scope, a dependency leads to another one. -/
def Leads (r : Registry) (p q : String × Scope) : Prop :=
  q ∈ r.dependencies p.2 p.1 ∧ r.contains q.2 q.1 = true

/-- Dependencies lead to a name, looked up from a scope, from one that is visible. -/
def Reached (r : Registry) (scope : Scope) (q : String × Scope) : Prop :=
  ∃ p ∈ r.visible scope, ReflTransGen r.Leads p q

theorem Leads.depends {p q : String × Scope} (h : r.Leads p q) : r.Depends p.1 q.1 :=
  ⟨p.2, q.2, h⟩

theorem contains_of_mem_visible {p : String × Scope} (h : p ∈ r.visible scope) :
    r.contains p.2 p.1 = true := by
  obtain ⟨-, e, he⟩ := entry_of_mem_visible h
  exact contains_iff.mpr ⟨p.2, e, lookup_of_entry he⟩

theorem Reached.of_visible {p : String × Scope} (h : p ∈ r.visible scope) : r.Reached scope p :=
  ⟨p, h, .refl⟩

theorem Reached.tail {p q : String × Scope} (h : r.Reached scope p) (edge : r.Leads p q) :
    r.Reached scope q := by
  obtain ⟨start, hs, walk⟩ := h
  exact ⟨start, hs, walk.tail edge⟩

theorem Reached.contains {p : String × Scope} (h : r.Reached scope p) :
    r.contains p.2 p.1 = true := by
  obtain ⟨start, hs, walk⟩ := h
  cases walk with
  | refl => exact contains_of_mem_visible hs
  | tail _ edge => exact edge.2

theorem Reachable.tail {x y : String} (h : r.Reachable scope x) (edge : r.Depends x y) :
    r.Reachable scope y := by
  obtain ⟨v, hv, walk⟩ := h
  exact ⟨v, hv, walk.tail edge⟩

theorem Reached.reachable {p : String × Scope} (h : r.Reached scope p) :
    r.Reachable scope p.1 := by
  obtain ⟨start, hs, walk⟩ := h
  induction walk with
  | refl =>
    obtain ⟨hc, entry⟩ := entry_of_mem_visible hs
    exact ⟨start.1, contains_iff_entry.mpr ⟨start.2, hc, entry⟩, .refl⟩
  | tail _ edge ih => exact ih.tail edge.depends

/-- Names that hold the visible ones and are closed under dependencies hold all reachable ones. -/
theorem mem_of_reachable {names : List String} {x : String}
    (roots : ∀ p ∈ r.visible scope, p.1 ∈ names)
    (closed : ∀ q ∈ r.entries, q.2 ∈ names → ∀ p ∈ r.dependencies q.1 q.2, p.1 ∈ names)
    (h : r.Reachable scope x) : x ∈ names := by
  obtain ⟨v, hv, walk⟩ := h
  induction walk with
  | refl =>
    obtain ⟨p, hp, rfl⟩ := List.mem_map.mp (mem_keys_visible hv)
    exact roots p hp
  | tail _ edge ih =>
    obtain ⟨s, ds, hm, -⟩ := edge
    obtain ⟨s', hq, hm⟩ := exists_entry_of_mem_dependencies hm
    exact closed _ hq ih _ hm

/-- The same for the places that a traversal comes to. -/
theorem mem_of_reached {places : List (String × Scope)} {q : String × Scope}
    (roots : ∀ p ∈ r.visible scope, p ∈ places)
    (closed : ∀ p ∈ places, ∀ q ∈ r.dependencies p.2 p.1, q ∈ places)
    (h : r.Reached scope q) : q ∈ places := by
  obtain ⟨start, hs, walk⟩ := h
  induction walk with
  | refl => exact roots start hs
  | tail _ edge ih => exact closed _ ih _ edge.1

theorem heldOnce_of_entries {name : String}
    (h : ∀ p ∈ r.entries, ∀ q ∈ r.entries, p.2 = name → q.2 = name → p.1 = q.1) :
    r.HeldOnce name :=
  fun _ _ _ _ he he' => h _ (mem_entries he) _ (mem_entries he') rfl rfl

/-! ### What a traversal knows -/

/-- How a name was listed that the traversal came to in a scope: as the entry seen from there, and
after its dependencies there, but for those that lead back to it. -/
structure ListedFrom (r : Registry) (s : Scope) (t : OrderedType) (earlier visited : List String) :
    Prop where
  listing : ∃ found e, r.lookup s t.name = some (found, e) ∧ e.listing? = some t.listing
  visited : ∀ p, r.Leads (t.name, s) p → p.1 ∈ visited
  before : ∀ p, r.Leads (t.name, s) p → p.1 ∈ earlier ∨ r.Reaches p.1 t.name

/-- The state of a traversal below a path. A name that was visited is on the path, or it was left
and so is listed. -/
structure Traversed (r : Registry) (scope : Scope) (path : List String) (done : Traversal) :
    Prop where
  nodup : done.visited.Nodup
  places : done.visited.Perm (path ++ done.listed.map (·.name))
  listed : ∀ later t earlier, done.listed = later ++ t :: earlier → ∃ s,
    r.Reached scope (t.name, s) ∧ r.ListedFrom s t (earlier.map (·.name)) done.visited

def Blocked (r : Registry) (scope : Scope) (e : ConfigurationError) : Prop :=
  ∃ x s found, r.Reached scope (x, s) ∧ r.lookup s x = some (found, .placeholder) ∧
    e = .undefinedPlaceholder x found

/-- A traversal has gone to some names, as far as they are seen, and is back at its path. -/
structure Went (r : Registry) (scope : Scope) (path : List String) (names : List (String × Scope))
    (done after : Traversal) : Prop where
  traversed : r.Traversed scope path after
  kept : done.visited ⊆ after.visited
  come : ∀ p ∈ names, r.contains p.2 p.1 = true → p.1 ∈ after.visited

variable {n : String} {s : Scope} {p : String × Scope} {names rest : List (String × Scope)}

theorem Traversed.onPath (h : r.Traversed scope path done) : path ⊆ done.visited :=
  fun _ hx => h.places.mem_iff.mpr (List.mem_append_left _ hx)

theorem ListedFrom.mono {t : OrderedType} {earlier visited visited' : List String}
    (h : r.ListedFrom s t earlier visited) (hv : visited ⊆ visited') :
    r.ListedFrom s t earlier visited' :=
  { h with visited := fun p hp => hv (h.visited p hp) }

theorem Traversed.start : r.Traversed scope [] {} where
  nodup := List.nodup_nil
  places := .nil
  listed := by
    intro later t earlier he
    simp at he

/-- A name that was not visited goes on the path. -/
theorem Traversed.push (h : r.Traversed scope path done) (hn : n ∉ done.visited) :
    r.Traversed scope (n :: path) { done with visited := n :: done.visited } where
  nodup := List.nodup_cons.mpr ⟨hn, h.nodup⟩
  places := h.places.cons n
  listed := by
    intro later t earlier he
    obtain ⟨s, reached, from_s⟩ := h.listed later t earlier he
    exact ⟨s, reached, from_s.mono (List.subset_cons_self n _)⟩

/-- The first name of the path leaves it when it is listed. -/
theorem Traversed.pop (isPath : r.IsPath (n :: path)) (h : r.Traversed scope (n :: path) done)
    (reached : r.Reached scope (n, s)) {l : Listing} {b : Bool}
    (listing : ∃ found e, r.lookup s n = some (found, e) ∧ e.listing? = some l)
    (come : ∀ p ∈ r.dependencies s n, r.contains p.2 p.1 = true → p.1 ∈ done.visited) :
    r.Traversed scope path { done with listed := ⟨n, l, b⟩ :: done.listed } where
  nodup := h.nodup
  places := h.places.trans List.perm_middle.symm
  listed := by
    intro later t earlier he
    cases later with
    | cons u later =>
      exact h.listed later t earlier (List.cons.inj he).2
    | nil =>
      obtain ⟨rfl, rfl⟩ := List.cons.inj he
      refine ⟨s, reached, listing, fun p edge => come p edge.1 edge.2, ?_⟩
      -- a dependency that was visited is listed, or is on the path and leads down to the name
      intro p edge
      rcases List.mem_append.mp (h.places.mem_iff.mp (come p edge.1 edge.2)) with hp | hp
      · exact .inr (isPath.reaches_head hp)
      · exact .inl hp

theorem Went.nil (h : r.Traversed scope path done) : r.Went scope path [] done done :=
  ⟨h, List.Subset.refl _, nofun⟩

theorem Went.cons (h : r.Went scope path [p] done mid) (h' : r.Went scope path rest mid after) :
    r.Went scope path (p :: rest) done after where
  traversed := h'.traversed
  kept := List.Subset.trans h.kept h'.kept
  come := by
    intro q hq visible
    rcases List.mem_cons.mp hq with rfl | hq
    · exact h'.kept (h.come q List.mem_cons_self visible)
    · exact h'.come q hq visible

/-- A traversal that may go to each of some names goes to all of them, one after another. -/
theorem yields_foldlM {go : Traversal → String × Scope → Except ConfigurationError Traversal}
    (each : ∀ p ∈ names, ∀ done, r.Traversed scope path done →
      Yields (r.Went scope path [p] done) (r.Blocked scope) (go done p))
    (h : r.Traversed scope path done) :
    Yields (r.Went scope path names done) (r.Blocked scope) (names.foldlM go done) := by
  induction names generalizing done with
  | nil => exact .nil h
  | cons p rest ih =>
    rw [List.foldlM_cons]
    refine (each p List.mem_cons_self done h).bind fun mid went => ?_
    have later := ih (fun q hq => each q (List.mem_cons_of_mem p hq)) went.traversed
    cases hx : rest.foldlM go mid with
    | ok after =>
      rw [hx] at later
      exact went.cons later
    | error e =>
      rw [hx] at later
      exact later

/-! ### The traversal -/

def goTo (r : Registry) (recursive : List String) (fuel : Nat) (done : Traversal)
    (p : String × Scope) : Except ConfigurationError Traversal :=
  if r.contains p.2 p.1 then r.visit recursive fuel p.1 p.2 done else .ok done

/-- What a name is listed as that is looked up from a scope. -/
def listing (r : Registry) (s : Scope) (name : String) : Except ConfigurationError Listing :=
  match r.lookup s name with
  | some (_, .defined t) => .ok (.defined t)
  | some (_, .aliasOf _ target) => .ok (.aliasOf target)
  | some (found, .placeholder) => .error (.undefinedPlaceholder name found)
  | none => .error (.unknownType name s)

/-- A name that was not visited is listed behind what it depends on. -/
theorem visit_succ (r : Registry) (recursive : List String) (fuel : Nat) (name : String) (s : Scope)
    (done : Traversal) :
    r.visit recursive (fuel + 1) name s done =
      if done.visited.contains name then .ok done
      else
        ((r.dependencies s name).foldlM (r.goTo recursive fuel)
          { done with visited := name :: done.visited }).bind fun done =>
        (r.listing s name).bind fun listing =>
          .ok { done with listed := ⟨name, listing, recursive.contains name⟩ :: done.listed } := by
  rw [visit]
  split
  · rfl
  · refine congrArg (Except.bind _) (funext fun done => ?_)
    rw [listing]
    rcases r.lookup s name with _ | ⟨found, _ | _ | _⟩ <;> rfl

/-- A name that was come to is listed as what it is seen to be, unless that is a placeholder. -/
theorem yields_listing (reached : r.Reached scope (n, s)) :
    Yields (fun l => ∃ found e, r.lookup s n = some (found, e) ∧ e.listing? = some l)
      (r.Blocked scope) (r.listing s n) := by
  obtain ⟨found, e, hl⟩ := contains_iff.mp reached.contains
  simp only at hl
  rw [listing, hl]
  cases e with
  | placeholder => exact ⟨n, s, found, reached, hl, rfl⟩
  | defined t => exact ⟨found, .defined t, rfl, rfl⟩
  | aliasOf s' target => exact ⟨found, .aliasOf s' target, rfl, rfl⟩

/-- The traversal from a name, by induction on how deep it may still go: the names of the path are
registered and different, so it never is at an end. -/
theorem yields_visit {fuel : Nat} (isPath : r.IsPath path)
    (edge : ∀ above ∈ path.head?, r.Depends above n) (reached : r.Reached scope (n, s))
    (h : r.Traversed scope path done) (bound : r.size < fuel + path.length) :
    Yields (r.Went scope path [(n, s)] done) (r.Blocked scope)
      (r.visit recursive fuel n s done) := by
  induction fuel generalizing path n s done with
  | zero =>
    have short := length_le_size isPath.nodup isPath.registered
    omega
  | succ fuel ih =>
    rw [visit_succ]
    split
    · rename_i hn
      refine ⟨h, List.Subset.refl _, ?_⟩
      intro p hp _
      rw [List.mem_singleton.mp hp]
      exact List.contains_iff_mem.mp hn
    · rename_i hn
      have hn : n ∉ done.visited := fun hm => hn (List.contains_iff_mem.mpr hm)
      have isPath' := isPath.push (.of_contains reached.contains) (fun hp => hn (h.onPath hp)) edge
      have all : Yields (r.Went scope (n :: path) (r.dependencies s n)
          { done with visited := n :: done.visited }) (r.Blocked scope)
          ((r.dependencies s n).foldlM (r.goTo recursive fuel)
            { done with visited := n :: done.visited }) := by
        refine yields_foldlM ?_ (h.push hn)
        intro p hp mid h'
        rw [goTo]
        split
        · rename_i visible
          refine ih isPath' ?_ (reached.tail ⟨hp, visible⟩) h' (by rw [List.length_cons]; omega)
          rintro above ⟨⟩
          exact ⟨s, p.2, hp, visible⟩
        · rename_i hidden
          refine ⟨h', List.Subset.refl _, ?_⟩
          intro q hq visible
          exact absurd (List.mem_singleton.mp hq ▸ visible) hidden
      refine all.bind fun after went => ?_
      refine (yields_listing reached).bind fun l listing => ?_
      refine ⟨went.traversed.pop isPath' reached listing went.come, ?_, ?_⟩
      · exact List.Subset.trans (List.subset_cons_self n _) went.kept
      · intro p hp _
        rw [List.mem_singleton.mp hp]
        exact went.kept List.mem_cons_self

/-- What a list of types in dependency order says of the names that the traversal came to. -/
structure Lists (r : Registry) (scope : Scope) (types : List OrderedType) : Prop where
  nodup : (types.map (·.name)).Nodup
  roots : ∀ p ∈ r.visible scope, p.1 ∈ types.map (·.name)
  listed : ∀ earlier t later, types = earlier ++ t :: later → ∃ s, r.Reached scope (t.name, s) ∧
    r.ListedFrom s t (earlier.map (·.name)) (types.map (·.name))

/-- When all visible names were gone through, the list is complete. -/
theorem Went.lists (h : r.Went scope [] (r.visible scope) {} done) :
    r.Lists scope done.listed.reverse := by
  have names (x : String) : x ∈ done.visited ↔ x ∈ done.listed.reverse.map (·.name) := by
    rw [h.traversed.places.mem_iff, List.nil_append, List.map_reverse, List.mem_reverse]
  refine ⟨?_, ?_, ?_⟩
  · rw [List.map_reverse, List.nodup_reverse]
    exact h.traversed.places.nodup_iff.mp h.traversed.nodup
  · intro p hp
    exact (names p.1).mp (h.come p hp (contains_of_mem_visible hp))
  · intro earlier t later he
    have he : done.listed = later.reverse ++ t :: earlier.reverse := by
      simpa using congrArg List.reverse he
    obtain ⟨s, reached, from_s⟩ := h.traversed.listed _ t _ he
    refine ⟨s, reached, from_s.listing, fun p edge => (names p.1).mp (from_s.visited p edge), ?_⟩
    intro p edge
    refine (from_s.before p edge).imp_left fun hp => ?_
    rwa [List.map_reverse, List.mem_reverse] at hp

theorem yields_ordered (r : Registry) (scope : Scope) :
    Yields (r.Lists scope) (r.Blocked scope) (r.ordered scope) := by
  have all : Yields (r.Went scope [] (r.visible scope) {}) (r.Blocked scope)
      ((r.visible scope).foldlM
        (fun done p => r.visit (r.recursiveNames scope) (r.size + 1) p.1 p.2 done) {}) := by
    refine yields_foldlM ?_ .start
    intro p hp done h
    exact yields_visit .nil nofun (.of_visible hp) h (Nat.lt_succ_self r.size)
  exact all.bind fun done went => went.lists

/-! ### Names that are registered once -/

/-- If names are registered once, the list has all names that are reachable. -/
theorem Lists.mem_of_reachable {types : List OrderedType} (h : r.Lists scope types)
    (once : ∀ x, r.Reachable scope x → r.HeldOnce x) {x : String} (hx : r.Reachable scope x) :
    x ∈ types.map (·.name) := by
  obtain ⟨v, visible, down⟩ := hx
  induction down with
  | refl =>
    obtain ⟨p, hp, rfl⟩ := List.mem_map.mp (mem_keys_visible visible)
    exact h.roots p hp
  | @tail y z walk edge ih =>
    obtain ⟨t, ht, rfl⟩ := List.mem_map.mp ih
    obtain ⟨earlier, later, he⟩ := List.append_of_mem ht
    obtain ⟨s, reached, from_s⟩ := h.listed earlier t later he
    obtain ⟨ds, hm, hc⟩ := ((once t.name ⟨v, visible, walk⟩).depends_iff reached.contains).mp edge
    exact from_s.visited (z, ds) ⟨hm, hc⟩

theorem Lists.reachable {types : List OrderedType} (h : r.Lists scope types) {x : String}
    (hx : x ∈ types.map (·.name)) : r.Reachable scope x := by
  obtain ⟨t, ht, rfl⟩ := List.mem_map.mp hx
  obtain ⟨earlier, later, he⟩ := List.append_of_mem ht
  obtain ⟨s, reached, -⟩ := h.listed earlier t later he
  exact reached.reachable

end Registry

/-- If no name that is reachable is registered in two scopes, then types are listed unless a name
that is reachable is a placeholder; and then each name that is reachable is listed once, as what it
is registered as, and after every name it depends on that does not lead back to it. -/
theorem ordered_lists_dependencies_first (r : Registry) (scope : Scope)
    (once : ∀ x, r.Reachable scope x → r.HeldOnce x) :
    ((∃ e, r.ordered scope = .error e) ↔
      ∃ x s, r.Reachable scope x ∧ r.entry? s x = some .placeholder) ∧
    ∀ types, r.ordered scope = .ok types →
      (types.map (·.name)).Nodup ∧
      (∀ x, x ∈ types.map (·.name) ↔ r.Reachable scope x) ∧
      ∀ earlier t later, types = earlier ++ t :: later →
        (∃ s e, r.entry? s t.name = some e ∧ e.listing? = some t.listing) ∧
        ∀ dep, r.Depends t.name dep → ¬ r.Reaches dep t.name → dep ∈ earlier.map (·.name) := by
  have outcome := Registry.yields_ordered r scope
  cases h : r.ordered scope with
  | error e =>
    rw [h] at outcome
    obtain ⟨x, s, found, reached, hl, -⟩ := outcome
    refine ⟨⟨fun _ => ?_, fun _ => ⟨e, rfl⟩⟩, nofun⟩
    exact ⟨x, found, reached.reachable, Registry.entry_of_lookup hl⟩
  | ok types =>
    rw [h] at outcome
    have lists : r.Lists scope types := outcome
    constructor
    · refine ⟨nofun, ?_⟩
      rintro ⟨x, s', reachable, placeholder⟩
      obtain ⟨t, ht, rfl⟩ := List.mem_map.mp (lists.mem_of_reachable once reachable)
      obtain ⟨earlier, later, he⟩ := List.append_of_mem ht
      obtain ⟨s, -, from_s⟩ := lists.listed earlier t later he
      obtain ⟨found, e, hl, listing⟩ := from_s.listing
      -- the entry that was listed is the placeholder, as the name has no other
      have entry := Registry.entry_of_lookup hl
      obtain rfl := once t.name reachable _ _ _ _ entry placeholder
      obtain rfl := Option.some.inj (entry.symm.trans placeholder)
      cases listing
    · rintro _ ⟨⟩
      refine ⟨lists.nodup, fun x => ⟨lists.reachable, lists.mem_of_reachable once⟩, ?_⟩
      intro earlier t later he
      obtain ⟨s, reached, from_s⟩ := lists.listed earlier t later he
      obtain ⟨found, e, hl, listing⟩ := from_s.listing
      refine ⟨⟨found, e, Registry.entry_of_lookup hl, listing⟩, ?_⟩
      intro dep edge apart
      obtain ⟨ds, hm, hc⟩ := ((once t.name reached.reachable).depends_iff reached.contains).mp edge
      exact (from_s.before (dep, ds) ⟨hm, hc⟩).resolve_right apart

def billing : Registry :=
  { tables := [(.global, [recordOf "Money" []]),
      (.api "billing", [("Client", .aliasOf (.api "crm") "Customer"),
        recordOf "Invoice" ["Client", "Line"], recordOf "Line" ["Invoice", "Money"]]),
      (.api "crm", [recordOf "Customer" [], recordOf "Secret" []]),
      (.api "hr", [recordOf "Secret" []])] }

/-- Customers are listed before the clients that they are, and secrets are not. -/
theorem billing_ordered :
    ∃ types, billing.ordered (.api "billing") = .ok types ∧ "Customer" ∈ types.map (·.name) ∧
      "Secret" ∉ types.map (·.name) ∧
      ∀ earlier t later, types = earlier ++ t :: later → t.name = "Client" →
        "Customer" ∈ earlier.map (·.name) := by
  have reached (x : String) (hx : billing.Reachable (.api "billing") x) :
      x ∈ ["Client", "Customer", "Invoice", "Line", "Money"] :=
    Registry.mem_of_reachable (by decide +kernel) (by decide +kernel) hx
  have once (x : String) (hx : billing.Reachable (.api "billing") x) : billing.HeldOnce x := by
    have held : ∀ y ∈ ["Client", "Customer", "Invoice", "Line", "Money"], ∀ p ∈ billing.entries,
        ∀ q ∈ billing.entries, p.2 = y → q.2 = y → p.1 = q.1 := by decide +kernel
    exact Registry.heldOnce_of_entries (held x (reached x hx))
  have edge : billing.Depends "Client" "Customer" := ⟨.api "billing", .api "crm", by decide +kernel⟩
  have apart : ¬ billing.Reaches "Customer" "Client" := by
    intro down
    rcases Relation.ReflTransGen.cases_head down with he | ⟨y, ⟨s, ds, hm, -⟩, -⟩
    · exact absurd he (by decide)
    · obtain ⟨s', hq, hm⟩ := Registry.exists_entry_of_mem_dependencies hm
      have none : ∀ q ∈ billing.entries, q.2 = "Customer" → billing.dependencies q.1 q.2 = [] := by
        decide +kernel
      rw [none _ hq rfl] at hm
      cases hm
  obtain ⟨refused, ordered⟩ := ordered_lists_dependencies_first billing (.api "billing") once
  cases h : billing.ordered (.api "billing") with
  | error e =>
    obtain ⟨x, s, -, placeholder⟩ := refused.mp ⟨e, h⟩
    have settled : ∀ q ∈ billing.entries,
        ((billing.entry? q.1 q.2).bind Entry.listing?).isSome = true := by decide +kernel
    have none := settled _ (Registry.mem_entries placeholder)
    rw [placeholder] at none
    cases none
  | ok types =>
    obtain ⟨-, complete, placed⟩ := ordered types h
    have customer : billing.Reachable (.api "billing") "Customer" :=
      .tail ⟨"Client", by decide +kernel, .refl⟩ edge
    refine ⟨types, rfl, (complete _).mpr customer, ?_, ?_⟩
    · intro secret
      exact absurd (reached _ ((complete _).mp secret)) (by decide)
    · intro earlier t later he client
      exact (placed earlier t later he).2 "Customer" (client ▸ edge) (client ▸ apart)

end ApiContract
