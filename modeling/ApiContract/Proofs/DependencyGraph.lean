import Mathlib.Data.List.Nodup
import Mathlib.Data.List.Perm.Subperm
import Mathlib.Logic.Relation
import Mathlib.Tactic.Tauto
import ApiContract.Proofs.RegistryTables
import ApiContract.Registry.Dependency

/-!
# The graph of dependencies

Where no name is registered in two scopes, dependencies are a relation of names alone: it does not
matter from where a name is looked up, as long as it can be seen from there. The bounds that
`recursiveNames` gives its searches are then never reached, and `reachesPath` says of a path what it
is asked if nothing is mentioned where it cannot be seen.
-/

namespace ApiContract

theorem Keyed.mem_keys_union {α : Type} {pairs t : Keyed α} {key : String} :
    key ∈ (Keyed.union t pairs).keys ↔ key ∈ t.keys ∨ key ∈ Keyed.keys pairs := by
  induction pairs generalizing t with
  | nil => simp [Keyed.union, Keyed.keys]
  | cons p rest ih =>
    have step : Keyed.union t (p :: rest) = Keyed.union (Keyed.insert p.1 p.2 t) rest := rfl
    have cons : Keyed.keys (p :: rest) = p.1 :: Keyed.keys rest := rfl
    rw [step, ih, Keyed.mem_keys_insert, cons, List.mem_cons]
    tauto

theorem mem_sortedNames {names : List String} {x : String} :
    x ∈ sortedNames names ↔ x ∈ names := by
  have empty : x ∉ Keyed.keys ([] : Keyed Unit) := nofun
  have pairs : Keyed.keys (names.map fun n => (n, ())) = names := by
    rw [Keyed.keys, List.map_map]
    exact List.map_id names
  exact Keyed.mem_keys_union.trans (by rw [pairs, or_iff_right empty])

theorem nodup_sortedNames (names : List String) : (sortedNames names).Nodup :=
  (Keyed.sorted_ofList _).nodup

namespace Registry

open Relation

variable {r : Registry}

/-! ### Names and where they are seen -/

def Registered (r : Registry) (name : String) : Prop := ∃ s e, r.entry? s name = some e

/-- All entries of a name are in one scope. -/
def HeldOnce (r : Registry) (name : String) : Prop :=
  ∀ s s' e e', r.entry? s name = some e → r.entry? s' name = some e' → s = s'

/-- No name has entries in two scopes. -/
def RegisteredOnce (r : Registry) : Prop :=
  ∀ name s s' e e', r.entry? s name = some e → r.entry? s' name = some e' → s = s'

theorem RegisteredOnce.heldOnce (once : r.RegisteredOnce) (name : String) : r.HeldOnce name :=
  once name

theorem HeldOnce.of_registered {name : String} (h : r.Registered name → r.HeldOnce name) :
    r.HeldOnce name :=
  fun s s' e e' he he' => h ⟨s, e, he⟩ s s' e e' he he'

/-- What is found is the entry of the scope it is found in. -/
theorem entry_of_lookupIn {name : String} {scopes : List Scope} {found : Scope} {e : Entry}
    (h : r.lookupIn name scopes = some (found, e)) : r.entry? found name = some e := by
  induction scopes with
  | nil => cases h
  | cons s rest ih =>
    simp only [lookupIn] at h
    split at h
    · rename_i he
      cases h
      exact he
    · exact ih h

theorem entry_of_lookup {s found : Scope} {name : String} {e : Entry}
    (h : r.lookup s name = some (found, e)) : r.entry? found name = some e :=
  entry_of_lookupIn h

theorem lookup_of_entry {s : Scope} {name : String} {e : Entry} (h : r.entry? s name = some e) :
    r.lookup s name = some (s, e) := by
  rw [lookup, Scope.chain_eq, lookupIn, h]

theorem contains_iff {s : Scope} {name : String} :
    r.contains s name = true ↔ ∃ found e, r.lookup s name = some (found, e) := by
  rw [contains, Option.isSome_iff_exists]
  exact ⟨fun ⟨⟨found, e⟩, h⟩ => ⟨found, e, h⟩, fun ⟨found, e, h⟩ => ⟨(found, e), h⟩⟩

/-- A name that resolves from a scope is seen from there. -/
theorem contains_of_resolveWithin {hops : Nat} {s : Scope} {name : String} {t : NamedType}
    (h : r.resolveWithin hops s name = .ok t) : r.contains s name = true := by
  cases hops with
  | zero => cases h
  | succ hops =>
    rw [contains]
    cases hl : r.lookup s name with
    | none => simp [resolveWithin, hl] at h
    | some _ => rfl

theorem Registered.of_contains {s : Scope} {name : String} (h : r.contains s name = true) :
    r.Registered name := by
  obtain ⟨found, e, h⟩ := contains_iff.mp h
  exact ⟨found, e, entry_of_lookup h⟩

theorem isSome_lookupIn_iff {name : String} {scopes : List Scope} :
    (r.lookupIn name scopes).isSome = true ↔ ∃ s ∈ scopes, ∃ e, r.entry? s name = some e := by
  induction scopes with
  | nil => simp [lookupIn]
  | cons s rest ih =>
    rw [List.exists_mem_cons_iff]
    cases h : r.entry? s name with
    | some e => simp [lookupIn, h]
    | none => simpa [lookupIn, h] using ih

/-- A name is seen from a scope if that scope has an entry of it, or one around it. -/
theorem contains_iff_entry {scope : Scope} {name : String} :
    r.contains scope name = true ↔ ∃ s ∈ scope.chain, ∃ e, r.entry? s name = some e :=
  isSome_lookupIn_iff

/-- All scopes that see a name see the same. -/
theorem HeldOnce.lookup_eq {s s' : Scope} {name : String} (once : r.HeldOnce name)
    (h : r.contains s name = true) (h' : r.contains s' name = true) :
    r.lookup s name = r.lookup s' name := by
  obtain ⟨found, e, h⟩ := contains_iff.mp h
  obtain ⟨found', e', h'⟩ := contains_iff.mp h'
  obtain rfl := once _ _ _ _ (entry_of_lookup h) (entry_of_lookup h')
  rw [h, h', Option.some.inj ((entry_of_lookup h).symm.trans (entry_of_lookup h'))]

/-! ### Visible names -/

/-- Inserting the names of a table under its scope brings in nothing else. -/
theorem mem_of_mem_insertAll {s : Scope} {t : Keyed Entry} {names : Keyed Scope}
    {p : String × Scope} (h : p ∈ t.foldl (fun names q => Keyed.insert q.1 s names) names) :
    p.1 ∈ t.keys ∧ p.2 = s ∨ p ∈ names := by
  induction t generalizing names with
  | nil => exact .inr h
  | cons q rest ih =>
    rcases ih h with ⟨hk, hs⟩ | h
    · exact .inl ⟨List.mem_cons_of_mem _ hk, hs⟩
    · rcases Keyed.mem_insert h with rfl | h
      · exact .inl ⟨List.mem_cons_self, rfl⟩
      · exact .inr h

/-- No name gets lost when those of a table are inserted. -/
theorem mem_keys_insertAll {s : Scope} {t : Keyed Entry} {names : Keyed Scope} {name : String}
    (h : name ∈ t.keys ∨ name ∈ names.keys) :
    name ∈ Keyed.keys (t.foldl (fun names q => Keyed.insert q.1 s names) names) := by
  induction t generalizing names with
  | nil => exact h.resolve_left nofun
  | cons q rest ih =>
    refine ih ?_
    rw [Keyed.mem_keys_insert]
    rcases h with h | h
    · rcases List.mem_cons.mp h with h | h
      · exact .inr (.inl h)
      · exact .inl h
    · exact .inr (.inr h)

/-- A visible name has an entry in the scope that is said to hold it, which is seen. -/
theorem entry_of_mem_visible {scope : Scope} {p : String × Scope} (h : p ∈ r.visible scope) :
    p.2 ∈ scope.chain ∧ ∃ e, r.entry? p.2 p.1 = some e := by
  rw [visible] at h
  generalize scope.chain = scopes at h ⊢
  induction scopes with
  | nil => cases h
  | cons s rest ih =>
    rcases mem_of_mem_insertAll h with ⟨hk, rfl⟩ | h
    · exact ⟨List.mem_cons_self, (Keyed.mem_keys_iff _ _).mp hk⟩
    · exact (ih h).imp_left (List.mem_cons_of_mem _)

/-- Every name with an entry in the chain of a scope is visible from it. -/
theorem mem_keys_visible {scope : Scope} {name : String} (h : r.contains scope name = true) :
    name ∈ Keyed.keys (r.visible scope) := by
  obtain ⟨s, hs, e, he⟩ := contains_iff_entry.mp h
  rw [visible]
  generalize scope.chain = scopes at hs ⊢
  induction scopes with
  | nil => cases hs
  | cons s' rest ih =>
    refine mem_keys_insertAll ?_
    rcases List.mem_cons.mp hs with rfl | hs
    · exact .inl (Keyed.mem_keys_of_get? he)
    · exact .inr (ih hs)

/-! ### Dependencies -/

/-- A name depends on another one that is registered where it is looked up. -/
def Depends (r : Registry) (name dep : String) : Prop :=
  ∃ s ds, (dep, ds) ∈ r.dependencies s name ∧ r.contains ds dep = true

/-- From a name dependencies lead to another one, in any number of steps. -/
abbrev Reaches (r : Registry) : String → String → Prop := ReflTransGen r.Depends

/-- A name takes part in a cycle of dependencies. -/
def OnCycle (r : Registry) (name : String) : Prop := TransGen r.Depends name name

theorem contains_of_mem_dependencies {s : Scope} {name : String} {p : String × Scope}
    (h : p ∈ r.dependencies s name) : r.contains s name = true := by
  rw [contains]
  cases hl : r.lookup s name with
  | none => simp [dependencies, hl] at h
  | some _ => rfl

theorem dependencies_of_lookup {s found : Scope} {name : String} {e : Entry}
    (h : r.lookup s name = some (found, e)) :
    r.dependencies s name = r.dependencies found name := by
  rw [dependencies, dependencies, h, lookup_of_entry (entry_of_lookup h)]

theorem HeldOnce.dependencies_eq {s s' : Scope} {name : String} (once : r.HeldOnce name)
    (h : r.contains s name = true) (h' : r.contains s' name = true) :
    r.dependencies s name = r.dependencies s' name := by
  rw [dependencies, dependencies, once.lookup_eq h h']

theorem HeldOnce.depends_iff {s : Scope} {name dep : String} (once : r.HeldOnce name)
    (h : r.contains s name = true) :
    r.Depends name dep ↔ ∃ ds, (dep, ds) ∈ r.dependencies s name ∧ r.contains ds dep = true := by
  constructor
  · rintro ⟨s', ds, hm, hc⟩
    rw [once.dependencies_eq (contains_of_mem_dependencies hm) h] at hm
    exact ⟨ds, hm, hc⟩
  · rintro ⟨ds, hm, hc⟩
    exact ⟨s, ds, hm, hc⟩

theorem RegisteredOnce.depends_iff (once : r.RegisteredOnce) {s : Scope} {name dep : String}
    (h : r.contains s name = true) :
    r.Depends name dep ↔ ∃ ds, (dep, ds) ∈ r.dependencies s name ∧ r.contains ds dep = true :=
  (once.heldOnce name).depends_iff h

theorem Depends.registered {name dep : String} (h : r.Depends name dep) : r.Registered name := by
  obtain ⟨s, ds, hm, -⟩ := h
  exact .of_contains (contains_of_mem_dependencies hm)

theorem nodup_dependencies (r : Registry) (s : Scope) (name : String) :
    ((r.dependencies s name).map (·.1)).Nodup := by
  simp only [dependencies]
  split
  · rw [List.map_map]
    exact (List.map_id _).symm ▸ nodup_sortedNames _
  · simp
  · simp

/-! ### All entries -/

def entries (r : Registry) : List (Scope × String) :=
  r.tables.flatMap fun p => (Keyed.keys p.2).map fun name => (p.1, name)

theorem mem_entries {s : Scope} {name : String} {e : Entry} (h : r.entry? s name = some e) :
    (s, name) ∈ r.entries := by
  cases hl : r.tables.lookup s with
  | none => simp [table, entry?, hl] at h
  | some t =>
    simp only [table, entry?, hl, Option.getD_some] at h
    refine List.mem_flatMap.mpr ⟨(s, t), mem_of_lookup hl, ?_⟩
    exact List.mem_map_of_mem (Keyed.mem_keys_of_get? h)

/-- Dependencies are those of some entry. -/
theorem exists_entry_of_mem_dependencies {s : Scope} {name : String} {p : String × Scope}
    (h : p ∈ r.dependencies s name) :
    ∃ s', (s', name) ∈ r.entries ∧ p ∈ r.dependencies s' name := by
  obtain ⟨found, e, hl⟩ := contains_iff.mp (contains_of_mem_dependencies h)
  exact ⟨found, mem_entries (entry_of_lookup hl), dependencies_of_lookup hl ▸ h⟩

theorem registeredOnce_of_nodup (h : (r.entries.map (·.2)).Nodup) : r.RegisteredOnce := by
  intro name s s' e e' he he'
  have same := List.inj_on_of_nodup_map h (mem_entries he) (mem_entries he') rfl
  exact congrArg Prod.fst same

theorem length_entries (r : Registry) : r.entries.length = r.size := by
  obtain ⟨tables⟩ := r
  simp only [entries, size]
  induction tables with
  | nil => rfl
  | cons p rest ih =>
    rw [List.flatMap_cons, List.length_append, List.length_map, List.foldr_cons, ih, Keyed.keys,
      List.length_map]

/-- The number of dependencies of some entries, but for those of names that were seen. -/
def countOf (r : Registry) (seen : List String) (entries : List (Scope × String)) : Nat :=
  entries.foldr
    (fun p n => if seen.contains p.2 then n else (r.dependencies p.1 p.2).length + n) 0

def countWithout (r : Registry) (seen : List String) : Nat := r.countOf seen r.entries

/-- Before any name is seen, all dependencies are still to be counted. -/
theorem countWithout_nil (r : Registry) : r.countWithout [] = r.dependencyCount := by
  have over_tables (tables : List (Scope × Keyed Entry)) :
      r.countOf [] (tables.flatMap fun p => (Keyed.keys p.2).map fun name => (p.1, name)) =
        tables.foldr (fun p n => (Keyed.keys p.2).foldr
          (fun name n => (r.dependencies p.1 name).length + n) n) 0 := by
    induction tables with
    | nil => rfl
    | cons p rest ih =>
      rw [countOf] at ih
      rw [countOf, List.flatMap_cons, List.foldr_append, ih, List.foldr_map, List.foldr_cons]
      rfl
  exact over_tables r.tables

theorem countOf_cons (seen : List String) (p : Scope × String) (rest : List (Scope × String)) :
    r.countOf seen (p :: rest) =
      if seen.contains p.2 then r.countOf seen rest
      else (r.dependencies p.1 p.2).length + r.countOf seen rest := rfl

theorem countOf_see_le (name : String) (seen : List String) (entries : List (Scope × String)) :
    r.countOf (name :: seen) entries ≤ r.countOf seen entries := by
  induction entries with
  | nil => exact Nat.le_refl _
  | cons p rest ih =>
    rw [countOf_cons, countOf_cons, List.contains_cons]
    cases seen.contains p.2 <;> cases p.2 == name <;> simp <;> omega

/-- Seeing a name takes its dependencies out of the count. -/
theorem add_countOf_see_le {seen : List String} {entries : List (Scope × String)}
    {p : Scope × String} (unseen : p.2 ∉ seen) (hp : p ∈ entries) :
    (r.dependencies p.1 p.2).length + r.countOf (p.2 :: seen) entries ≤
      r.countOf seen entries := by
  induction entries with
  | nil => cases hp
  | cons q rest ih =>
    rw [countOf_cons, countOf_cons, List.contains_cons]
    rcases List.mem_cons.mp hp with rfl | hp
    · have rest_le := countOf_see_le (r := r) p.2 seen rest
      have hb : seen.contains p.2 = false := by simpa using unseen
      simp only [hb, beq_self_eq_true, Bool.true_or, if_true, Bool.false_eq_true, if_false]
      omega
    · have rest_le := ih hp
      cases seen.contains q.2 <;> cases q.2 == p.2 <;> simp <;> omega

/-- A name that is seen for the first time takes its dependencies with it. -/
theorem add_countWithout_cons_le {seen : List String} {name : String} (unseen : name ∉ seen)
    (s : Scope) :
    (r.dependencies s name).length + r.countWithout (name :: seen) ≤ r.countWithout seen := by
  cases hl : r.lookup s name with
  | none =>
    have no_dependencies : r.dependencies s name = [] := by simp [dependencies, hl]
    rw [no_dependencies, List.length_nil, Nat.zero_add]
    exact countOf_see_le name seen r.entries
  | some p =>
    obtain ⟨found, e⟩ := p
    rw [dependencies_of_lookup hl]
    exact add_countOf_see_le (p := (found, name)) unseen (mem_entries (entry_of_lookup hl))

/-- Different names that are registered are not more than there are entries. -/
theorem length_le_size {names : List String} (nodup : names.Nodup)
    (registered : ∀ name ∈ names, r.Registered name) : names.length ≤ r.size := by
  have sub : names ⊆ r.entries.map (·.2) := by
    intro name hn
    obtain ⟨s, e, h⟩ := registered name hn
    exact List.mem_map_of_mem (mem_entries h)
  calc names.length ≤ (r.entries.map (·.2)).length := (List.subperm_of_subset nodup sub).length_le
    _ = r.size := by rw [List.length_map, length_entries]

/-! ### The search for a path -/

/-- A name that is registered is mentioned only where it can be seen. -/
def Sighted (r : Registry) : Prop :=
  ∀ s name dep ds, (dep, ds) ∈ r.dependencies s name → r.Registered dep →
    r.contains ds dep = true

theorem sighted_of_entries
    (h : ∀ q ∈ r.entries, ∀ p ∈ r.dependencies q.1 q.2,
      p.1 ∈ r.entries.map (·.2) → r.contains p.2 p.1 = true) : r.Sighted := by
  rintro s name dep ds hm ⟨s', e, he⟩
  obtain ⟨found, hq, hm⟩ := exists_entry_of_mem_dependencies hm
  exact h (found, name) hq (dep, ds) hm (List.mem_map_of_mem (mem_entries he))

variable {path : List String}

theorem reachesPath_cons (path : List String) (fuel : Nat) (seen : List String) (name : String)
    (s : Scope) (pending : List (String × Scope)) :
    r.reachesPath path (fuel + 1) seen ((name, s) :: pending) =
      if seen.contains name then r.reachesPath path fuel seen pending
      else (r.dependencies s name).any (path.contains ·.1) ||
        r.reachesPath path fuel (name :: seen) ((r.dependencies s name).reverse ++ pending) := rfl

/-- What is pending after a name was expanded is reached from where that name is. -/
theorem reaches_of_mem_expanded (sighted : r.Sighted) {start name : String} {s : Scope}
    {pending : List (String × Scope)}
    (reached : ∀ p ∈ (name, s) :: pending, r.Registered p.1 → r.Reaches start p.1) :
    ∀ p ∈ (r.dependencies s name).reverse ++ pending, r.Registered p.1 → r.Reaches start p.1 := by
  intro p hp registered
  rcases List.mem_append.mp hp with hp | hp
  · have hp := List.mem_reverse.mp hp
    have edge : r.Depends name p.1 := ⟨s, p.2, hp, sighted s name p.1 p.2 hp registered⟩
    exact (reached (name, s) List.mem_cons_self edge.registered).tail edge
  · exact reached p (List.mem_cons_of_mem _ hp) registered

/-- What the search finds can be reached. -/
theorem reaches_of_reachesPath (sighted : r.Sighted) (onPath : ∀ z ∈ path, r.Registered z)
    {start : String} {fuel : Nat} {seen : List String} {pending : List (String × Scope)}
    (reached : ∀ p ∈ pending, r.Registered p.1 → r.Reaches start p.1)
    (h : r.reachesPath path fuel seen pending = true) : ∃ z ∈ path, r.Reaches start z := by
  induction fuel generalizing seen pending with
  | zero => cases h
  | succ fuel ih =>
    cases pending with
    | nil => cases h
    | cons p pending =>
      obtain ⟨name, s⟩ := p
      have next := reaches_of_mem_expanded sighted reached
      rw [reachesPath_cons] at h
      split at h
      · exact ih (fun p hp => reached p (List.mem_cons_of_mem _ hp)) h
      · rcases Bool.or_eq_true_iff.mp h with h | h
        · obtain ⟨p, hp, hc⟩ := List.any_eq_true.mp h
          have hz : p.1 ∈ path := by simpa using hc
          exact ⟨p.1, hz, next p (List.mem_append_left _ (List.mem_reverse.mpr hp)) (onPath p.1 hz)⟩
        · exact ih next h

/-- A search that has found nothing so far: names are pending where they can be seen, and no name
that was seen has a dependency on the path or one that was passed over. -/
structure Fruitless (r : Registry) (path seen : List String) (pending : List (String × Scope)) :
    Prop where
  visible : ∀ p ∈ pending, r.Registered p.1 → r.contains p.2 p.1 = true
  closed : ∀ x ∈ seen, ∀ y, r.Depends x y → y ∉ path ∧ (y ∈ seen ∨ y ∈ pending.map (·.1))

variable {seen : List String} {name : String} {s : Scope} {pending : List (String × Scope)}

/-- A name that was seen needs not be expanded again. -/
theorem Fruitless.skip (h : r.Fruitless path seen ((name, s) :: pending)) (hs : name ∈ seen) :
    r.Fruitless path seen pending where
  visible p hp := h.visible p (List.mem_cons_of_mem _ hp)
  closed := by
    intro x hx y hy
    obtain ⟨off, hy | hy⟩ := h.closed x hx y hy
    · exact ⟨off, .inl hy⟩
    · rcases List.mem_cons.mp hy with he | hy
      · exact ⟨off, .inl (he ▸ hs)⟩
      · exact ⟨off, .inr hy⟩

/-- Expanding a name leaves the search fruitless if none of its dependencies is on the path. -/
theorem Fruitless.expand (once : r.HeldOnce name) (sighted : r.Sighted)
    (h : r.Fruitless path seen ((name, s) :: pending))
    (none : ∀ p ∈ r.dependencies s name, p.1 ∉ path) :
    r.Fruitless path (name :: seen) ((r.dependencies s name).reverse ++ pending) where
  visible := by
    intro p hp
    rcases List.mem_append.mp hp with hp | hp
    · exact sighted s name p.1 p.2 (List.mem_reverse.mp hp)
    · exact h.visible p (List.mem_cons_of_mem _ hp)
  closed := by
    intro x hx y hy
    rw [List.map_append, List.mem_append]
    rcases List.mem_cons.mp hx with he | hx
    · rw [he] at hy
      have visible := h.visible (name, s) List.mem_cons_self hy.registered
      obtain ⟨ds, hm, -⟩ := (once.depends_iff visible).mp hy
      have next : y ∈ (r.dependencies s name).reverse.map (·.1) :=
        List.mem_map.mpr ⟨(y, ds), List.mem_reverse.mpr hm, rfl⟩
      exact ⟨none _ hm, .inr (.inl next)⟩
    · obtain ⟨off, hy | hy⟩ := h.closed x hx y hy
      · exact ⟨off, .inl (List.mem_cons_of_mem _ hy)⟩
      · rcases List.mem_cons.mp hy with he | hy
        · exact ⟨off, .inl (he ▸ List.mem_cons_self)⟩
        · exact ⟨off, .inr (.inr hy)⟩

/-- A search that fails has gone through a set of names that dependencies do not leave, and that
have none on the path. The bound on its steps is none, since every name is expanded once. -/
theorem Fruitless.closure {start : String} (once : ∀ x, r.Reaches start x → r.HeldOnce x)
    (sighted : r.Sighted) {fuel : Nat} (h : r.Fruitless path seen pending)
    (reached : ∀ p ∈ pending, r.Registered p.1 → r.Reaches start p.1)
    (bound : pending.length + r.countWithout seen ≤ fuel)
    (fails : r.reachesPath path fuel seen pending = false) :
    ∃ all : List String, seen ⊆ all ∧ pending.map (·.1) ⊆ all ∧
      ∀ x ∈ all, ∀ y, r.Depends x y → y ∉ path ∧ y ∈ all := by
  have done {seen : List String} (h : r.Fruitless path seen []) :
      ∃ all : List String, seen ⊆ all ∧ ([] : List (String × Scope)).map (·.1) ⊆ all ∧
        ∀ x ∈ all, ∀ y, r.Depends x y → y ∉ path ∧ y ∈ all := by
    refine ⟨seen, List.Subset.refl _, List.nil_subset _, ?_⟩
    intro x hx y hy
    exact (h.closed x hx y hy).imp_right fun hy => hy.resolve_right nofun
  induction fuel generalizing seen pending with
  | zero =>
    obtain rfl : pending = [] := List.length_eq_zero_iff.mp (by omega)
    exact done h
  | succ fuel ih =>
    cases pending with
    | nil => exact done h
    | cons p pending =>
      obtain ⟨name, s⟩ := p
      rw [List.length_cons] at bound
      rw [reachesPath_cons] at fails
      split at fails
      · rename_i hs
        have hs : name ∈ seen := by simpa using hs
        obtain ⟨all, hseen, hpending, hall⟩ := ih (h.skip hs)
          (fun p hp => reached p (List.mem_cons_of_mem _ hp)) (by omega) fails
        exact ⟨all, hseen, List.cons_subset.mpr ⟨hseen hs, hpending⟩, hall⟩
      · rename_i hs
        have hs : name ∉ seen := by simpa using hs
        obtain ⟨none, fails⟩ := Bool.or_eq_false_iff.mp fails
        have counted := add_countWithout_cons_le (r := r) hs s
        have held : r.HeldOnce name := .of_registered fun registered =>
          once name (reached (name, s) List.mem_cons_self registered)
        obtain ⟨all, hseen, hpending, hall⟩ :=
          ih (h.expand held sighted (by simpa using none)) (reaches_of_mem_expanded sighted reached)
            (by rw [List.length_append, List.length_reverse]; omega) fails
        obtain ⟨hname, hseen⟩ := List.cons_subset.mp hseen
        rw [List.map_append, List.append_subset] at hpending
        exact ⟨all, hseen, List.cons_subset.mpr ⟨hname, hpending.2⟩, hall⟩

/-- The search finds what can be reached by one dependency at least. -/
theorem reachesPath_of_transGen (once : ∀ x, r.Reaches name x → r.HeldOnce x)
    (sighted : r.Sighted) (visible : r.contains s name = true) {z : String} (hz : z ∈ path)
    (h : TransGen r.Depends name z) :
    r.reachesPath path (r.dependencyCount + 1) [] [(name, s)] = true := by
  refine eq_true_of_ne_false fun fails => ?_
  have initial : r.Fruitless path [] [(name, s)] := by
    refine ⟨?_, nofun⟩
    intro p hp _
    rw [List.mem_singleton.mp hp]
    exact visible
  have bound : [(name, s)].length + r.countWithout [] ≤ r.dependencyCount + 1 := by
    simp [countWithout_nil, Nat.add_comm]
  have reached : ∀ p ∈ [(name, s)], r.Registered p.1 → r.Reaches name p.1 := by
    intro p hp _
    rw [List.mem_singleton.mp hp]
  obtain ⟨all, -, start, closed⟩ := initial.closure once sighted reached bound fails
  have reached {x : String} (hx : r.Reaches name x) : x ∈ all := by
    induction hx with
    | refl => exact start List.mem_cons_self
    | tail _ edge ih => exact (closed _ ih _ edge).2
  obtain ⟨y, hy, edge⟩ := TransGen.tail'_iff.mp h
  exact (closed y (reached hy) z edge).1 hz

end Registry

end ApiContract
