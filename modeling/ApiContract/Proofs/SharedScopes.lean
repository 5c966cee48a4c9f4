import ApiContract.Proofs.SearchBounds

/-!
# Registries that share scopes

What is seen from a scope are the tables of the scopes around it, and, behind other names, those of
the scopes where their targets are looked up. Two registries with the same tables for scopes that
are closed under both come to the same for every name there: for its entry, its type, its
dependencies, the cycles it is on, and the list of types that it is in.
-/

namespace ApiContract

namespace Registry

/-- Two registries have the same tables for some scopes, from which nothing leads to others. -/
structure AlikeOn (r r' : Registry) (shared : Scope → Prop) : Prop where
  chain : ∀ s, shared s → ∀ s' ∈ s.chain, shared s'
  targets : ∀ s name s' target, shared s → r.entry? s name = some (.aliasOf s' target) → shared s'
  table : ∀ s, shared s → r'.table s = r.table s

/-- An entry is found in one of the scopes. -/
theorem mem_of_lookupIn {r : Registry} {name : String} {scopes : List Scope} {found : Scope}
    {e : Entry} (h : r.lookupIn name scopes = some (found, e)) : found ∈ scopes := by
  induction scopes with
  | nil => cases h
  | cons s rest ih =>
    rw [lookupIn] at h
    split at h
    · cases h
      exact List.mem_cons_self
    · exact List.mem_cons_of_mem s (ih h)

theorem mem_chain_of_lookup {r : Registry} {s found : Scope} {name : String} {e : Entry}
    (h : r.lookup s name = some (found, e)) : found ∈ s.chain :=
  mem_of_lookupIn h

namespace AlikeOn

variable {r r' : Registry} {shared : Scope → Prop} {s : Scope} {name : String}

/-! ### Entries and types -/

theorem entry_eq (h : r.AlikeOn r' shared) (hs : shared s) (name : String) :
    r'.entry? s name = r.entry? s name := by
  simp only [Registry.entry?, h.table s hs]

theorem lookupIn_eq (h : r.AlikeOn r' shared) {scopes : List Scope}
    (hs : ∀ s ∈ scopes, shared s) : r'.lookupIn name scopes = r.lookupIn name scopes := by
  induction scopes with
  | nil => rfl
  | cons s rest ih =>
    rw [lookupIn, lookupIn, h.entry_eq (hs s List.mem_cons_self),
      ih fun s' hs' => hs s' (List.mem_cons_of_mem s hs')]

theorem lookup_eq (h : r.AlikeOn r' shared) (hs : shared s) (name : String) :
    r'.lookup s name = r.lookup s name :=
  h.lookupIn_eq (h.chain s hs)

theorem contains_eq (h : r.AlikeOn r' shared) (hs : shared s) (name : String) :
    r'.contains s name = r.contains s name := by
  rw [contains, contains, h.lookup_eq hs]

theorem shared_of_lookup (h : r.AlikeOn r' shared) (hs : shared s) {found : Scope} {e : Entry}
    (hl : r.lookup s name = some (found, e)) : shared found :=
  h.chain s hs found (mem_chain_of_lookup hl)

/-- A resolution stays within the shared scopes. -/
theorem resolveWithin_eq (h : r.AlikeOn r' shared) (hs : shared s) (hops : Nat) (name : String) :
    r'.resolveWithin hops s name = r.resolveWithin hops s name := by
  induction hops generalizing s name with
  | zero => rfl
  | succ hops ih =>
    rw [resolveWithin, resolveWithin, h.lookup_eq hs]
    split
    · rfl
    · rfl
    · rename_i found s' target hl
      exact ih (h.targets found name s' target (h.shared_of_lookup hs hl) (entry_of_lookup hl)) target
    · rfl

theorem resolve_eq (h : r.AlikeOn r' shared) (hs : shared s) (name : String) :
    r'.resolve s name = r.resolve s name :=
  h.resolveWithin_eq hs maxHops name

theorem visible_eq (h : r.AlikeOn r' shared) (hs : shared s) : r'.visible s = r.visible s :=
  List.foldr_ext _ _ _ fun s' hs' names => by rw [h.table s' (h.chain s hs s' hs')]

theorem shared_of_mem_visible (h : r.AlikeOn r' shared) (hs : shared s) {p : String × Scope}
    (hp : p ∈ r.visible s) : shared p.2 :=
  h.chain s hs p.2 (entry_of_mem_visible hp).1

/-! ### Dependencies -/

theorem dependencies_eq (h : r.AlikeOn r' shared) (hs : shared s) (name : String) :
    r'.dependencies s name = r.dependencies s name := by
  rw [dependencies, dependencies, h.lookup_eq hs]

/-- Dependencies are looked up from scopes that are shared too. -/
theorem shared_of_mem_dependencies (h : r.AlikeOn r' shared) (hs : shared s) {p : String × Scope}
    (hp : p ∈ r.dependencies s name) : shared p.2 := by
  rw [dependencies] at hp
  split at hp
  · rename_i found t hl
    obtain ⟨x, -, rfl⟩ := List.mem_map.mp hp
    exact h.shared_of_lookup hs hl
  · rename_i found s' target hl
    rw [List.mem_singleton.mp hp]
    exact h.targets found name s' target (h.shared_of_lookup hs hl) (entry_of_lookup hl)
  · cases hp

theorem unresolved_eq (h : r.AlikeOn r' shared) (hs : shared s) :
    r'.unresolved s = r.unresolved s := by
  rw [unresolved, unresolved, h.visible_eq hs]
  refine List.flatMap_congr fun (n, found) hp => ?_
  have hp : shared found := h.shared_of_mem_visible hs hp
  simp only [h.dependencies_eq hp]
  refine List.filterMap_congr fun (dep, ds) hd => ?_
  have hd : shared ds := h.shared_of_mem_dependencies hp hd
  simp only [h.resolve_eq hd]

/-! ### Cycles -/

variable {path : List String}

/-- Searches that go the same way under one bound do so under bounds of their own, if these are
enough for them. -/
theorem eq_of_enough {α : Type} {f f' : Nat → α} {b b' : Nat} (same : ∀ m, f' m = f m)
    (enough : ∀ m, b ≤ m → f m = f b) (enough' : ∀ m, b' ≤ m → f' m = f' b') : f' b' = f b :=
  calc f' b' = f' (max b b') := (enough' _ (Nat.le_max_right b b')).symm
    _ = f (max b b') := same _
    _ = f b := enough _ (Nat.le_max_left b b')

/-- So does the search for a way back. -/
theorem reachesPath_eq (h : r.AlikeOn r' shared) (fuel : Nat) {seen : List String}
    {pending : List (String × Scope)} (hp : ∀ p ∈ pending, shared p.2) :
    r'.reachesPath path fuel seen pending = r.reachesPath path fuel seen pending := by
  induction fuel generalizing seen pending with
  | zero => rfl
  | succ fuel ih =>
    cases pending with
    | nil => rfl
    | cons p pending =>
      obtain ⟨n, s⟩ := p
      have hs : shared s := hp (n, s) List.mem_cons_self
      have hrest : ∀ p ∈ pending, shared p.2 := fun p hm => hp p (List.mem_cons_of_mem _ hm)
      have hnext : ∀ p ∈ (r.dependencies s n).reverse ++ pending, shared p.2 := by
        intro p hm
        rcases List.mem_append.mp hm with hm | hm
        · exact h.shared_of_mem_dependencies hs (List.mem_reverse.mp hm)
        · exact hrest p hm
      rw [reachesPath_cons, reachesPath_cons, h.dependencies_eq hs, ih hrest, ih hnext]

theorem leadsBack_eq (h : r.AlikeOn r' shared) (p : String × Scope) (hp : shared p.2) :
    r'.reachesPath path (r'.dependencyCount + 1) [] [p] =
      r.reachesPath path (r.dependencyCount + 1) [] [p] := by
  have shared_all : ∀ q ∈ [p], shared q.2 := by
    intro q hq
    rwa [List.mem_singleton.mp hq]
  exact eq_of_enough (fun m => h.reachesPath_eq m shared_all)
    (fun _ hm => reachesPath_eq_of_le hm p) fun _ hm => reachesPath_eq_of_le hm p

/-- So does the search for cycles. -/
theorem searchCycles_eq (h : r.AlikeOn r' shared) (fuel : Nat) (hs : shared s)
    (found : CycleSearch) :
    r'.searchCycles fuel path name s found = r.searchCycles fuel path name s found := by
  induction fuel generalizing path name s found with
  | zero => rfl
  | succ fuel ih =>
    rw [searchCycles_succ, searchCycles_succ, h.dependencies_eq hs]
    refine List.foldl_ext _ _ _ fun found p hp => ?_
    have hp := h.shared_of_mem_dependencies hs hp
    rw [lookAt, lookAt, h.contains_eq hp, ih hp, h.leadsBack_eq (p.1, p.2) hp]

/-- The names on cycles are the same. -/
theorem recursiveNames_eq (h : r.AlikeOn r' shared) (hs : shared s) :
    r'.recursiveNames s = r.recursiveNames s := by
  rw [recursiveNames, recursiveNames, h.visible_eq hs]
  refine congrArg (fun found : CycleSearch => sortedNames found.recursive) ?_
  refine List.foldl_ext _ _ _ fun found p hp => ?_
  have visible := contains_of_mem_visible hp
  have hp := h.shared_of_mem_visible hs hp
  have visible' : r'.contains p.2 p.1 = true := by rw [h.contains_eq hp, visible]
  have same : r'.searchCycles (r'.size + 1) [] p.1 p.2 found =
      r.searchCycles (r.size + 1) [] p.1 p.2 found :=
    eq_of_enough (fun m => h.searchCycles_eq m hp found)
      (fun _ hm => searchCycles_eq_of_le hm visible found)
      fun _ hm => searchCycles_eq_of_le hm visible' found
  simp only [same]

/-! ### Dependencies in front -/

variable {recursive : List String}

theorem listing_eq (h : r.AlikeOn r' shared) (hs : shared s) (name : String) :
    r'.listing s name = r.listing s name := by
  rw [listing, listing, h.lookup_eq hs]

/-- The traversal lists the same, step by step. -/
theorem visit_eq (h : r.AlikeOn r' shared) (fuel : Nat) (hs : shared s) (done : Traversal) :
    r'.visit recursive fuel name s done = r.visit recursive fuel name s done := by
  induction fuel generalizing name s done with
  | zero => rfl
  | succ fuel ih =>
    have same : (r.dependencies s name).foldlM (r'.goTo recursive fuel)
        { done with visited := name :: done.visited } =
        (r.dependencies s name).foldlM (r.goTo recursive fuel)
          { done with visited := name :: done.visited } := by
      refine foldlM_congr (I := fun _ => True) trivial ?_ ?_
      · intro p hp mid _
        have hp := h.shared_of_mem_dependencies hs hp
        rw [goTo, goTo, h.contains_eq hp, ih hp]
      · exact fun p _ mid _ => .trivial _
    rw [visit_succ, visit_succ, h.dependencies_eq hs, h.listing_eq hs, same]

/-- So the types are listed in the same order. -/
theorem ordered_eq (h : r.AlikeOn r' shared) (hs : shared s) : r'.ordered s = r.ordered s := by
  rw [ordered, ordered, h.recursiveNames_eq hs, h.visible_eq hs]
  refine congrArg (fun x : Except ConfigurationError Traversal => x.bind fun done =>
    .ok done.listed.reverse) ?_
  refine foldlM_congr (I := fun _ => True) trivial ?_ ?_
  · intro p hp done _
    have visible := contains_of_mem_visible hp
    have hp := h.shared_of_mem_visible hs hp
    have visible' : r'.contains p.2 p.1 = true := by rw [h.contains_eq hp, visible]
    exact eq_of_enough (fun m => h.visit_eq m hp done)
      (fun _ hm => visit_eq_of_le hm visible done) fun _ hm => visit_eq_of_le hm visible' done
  · exact fun p _ done _ => .trivial _

end AlikeOn

end Registry

end ApiContract
