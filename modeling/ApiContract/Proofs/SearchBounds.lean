import ApiContract.Proofs.DependencyOrder

/-!
# The bounds of the searches

`recursiveNames` and `ordered` bound their searches by the number of entries and of dependencies
that all scopes have. The searches end before that: the names on their way are registered and
different, so a larger bound makes no difference.
-/

namespace ApiContract

theorem Yields.trivial {ε α : Type} (x : Except ε α) :
    Yields (fun _ => True) (fun _ => True) x := by
  cases x <;> exact True.intro

theorem Yields.foldlM {ε α β : Type} {I : α → Prop} {Q : ε → Prop} {f : α → β → Except ε α}
    {l : List β} {a : α} (start : I a) (step : ∀ b ∈ l, ∀ a, I a → Yields I Q (f a b)) :
    Yields I Q (l.foldlM f a) := by
  induction l generalizing a with
  | nil => exact start
  | cons b rest ih =>
    rw [List.foldlM_cons]
    refine (step b List.mem_cons_self a start).bind fun a' h => ?_
    exact ih h fun c hc => step c (List.mem_cons_of_mem b hc)

/-- Folds come to the same if their steps do, as long as an invariant holds. -/
theorem foldlM_congr {ε α β : Type} {I : α → Prop} {f g : α → β → Except ε α} {l : List β} {a : α}
    (start : I a) (same : ∀ b ∈ l, ∀ a, I a → f a b = g a b)
    (step : ∀ b ∈ l, ∀ a, I a → Yields I (fun _ => True) (g a b)) :
    l.foldlM f a = l.foldlM g a := by
  induction l generalizing a with
  | nil => rfl
  | cons b rest ih =>
    rw [List.foldlM_cons, List.foldlM_cons, same b List.mem_cons_self a start]
    have next := step b List.mem_cons_self a start
    cases hg : g a b with
    | error e => rfl
    | ok a' =>
      rw [hg] at next
      exact ih next (fun c hc => same c (List.mem_cons_of_mem b hc))
        fun c hc => step c (List.mem_cons_of_mem b hc)

namespace Registry

variable {r : Registry} {path seen recursive : List String} {pending : List (String × Scope)}
  {n : String} {s : Scope} {fuel : Nat}

/-! ### Paths back -/

theorem reachesPath_nil (fuel : Nat) : r.reachesPath path fuel seen [] = false := by
  cases fuel <;> rfl

/-- Each step takes a pending name or brings up the dependencies of a name that was not seen. -/
theorem reachesPath_add (bound : pending.length + r.countWithout seen ≤ fuel) (k : Nat) :
    r.reachesPath path (fuel + k) seen pending = r.reachesPath path fuel seen pending := by
  induction fuel generalizing seen pending with
  | zero =>
    obtain rfl : pending = [] := List.length_eq_zero_iff.mp (by omega)
    rw [reachesPath_nil, reachesPath_nil]
  | succ fuel ih =>
    cases pending with
    | nil => rw [reachesPath_nil, reachesPath_nil]
    | cons p pending =>
      obtain ⟨n, s⟩ := p
      rw [List.length_cons] at bound
      rw [Nat.succ_add, reachesPath_cons, reachesPath_cons]
      split
      · exact ih (by omega)
      · rename_i unseen
        have counted := add_countWithout_cons_le (r := r) (by simpa using unseen) s
        rw [ih (by rw [List.length_append, List.length_reverse]; omega)]

theorem reachesPath_eq_of_le {m : Nat} (hm : r.dependencyCount + 1 ≤ m) (p : String × Scope) :
    r.reachesPath path m [] [p] = r.reachesPath path (r.dependencyCount + 1) [] [p] := by
  obtain ⟨k, rfl⟩ := Nat.exists_eq_add_of_le hm
  exact reachesPath_add (by simp [countWithout_nil, Nat.add_comm]) k

/-! ### Cycles -/

/-- The names on the way of a search below a name: they are registered, and the name is none of
them. -/
structure OnTheWay (r : Registry) (path : List String) (n : String) : Prop where
  nodup : path.Nodup
  registered : ∀ x ∈ path, r.Registered x
  here : r.Registered n
  fresh : n ∉ path

theorem OnTheWay.start (h : r.contains s n = true) : r.OnTheWay [] n :=
  ⟨List.nodup_nil, nofun, .of_contains h, nofun⟩

theorem OnTheWay.push (h : r.OnTheWay path n) {x : String} (hx : r.contains s x = true)
    (fresh : x ∉ n :: path) : r.OnTheWay (n :: path) x where
  nodup := List.nodup_cons.mpr ⟨h.fresh, h.nodup⟩
  registered := List.forall_mem_cons.mpr ⟨h.here, h.registered⟩
  here := .of_contains hx
  fresh := fresh

/-- There are fewer names on the way than there are entries. -/
theorem OnTheWay.length_lt (h : r.OnTheWay path n) : path.length < r.size :=
  length_le_size (List.nodup_cons.mpr ⟨h.fresh, h.nodup⟩)
    (List.forall_mem_cons.mpr ⟨h.here, h.registered⟩)

/-- With enough steps for all names more of them change nothing. -/
theorem searchCycles_add (way : r.OnTheWay path n) (bound : r.size ≤ fuel + path.length) (k : Nat)
    (found : CycleSearch) :
    r.searchCycles (fuel + k) path n s found = r.searchCycles fuel path n s found := by
  induction fuel generalizing path n s found with
  | zero =>
    have short := way.length_lt
    omega
  | succ fuel ih =>
    rw [Nat.succ_add, searchCycles_succ, searchCycles_succ]
    refine List.foldl_ext _ _ _ fun found p hp => ?_
    rw [lookAt, lookAt]
    split
    · rfl
    · rename_i visible
      split
      · rfl
      · rename_i off
        rw [ih (way.push (by simpa using visible) (by simpa using off))
          (by rw [List.length_cons]; omega)]

/-! ### Dependencies in front -/

/-- What holds of a traversal holds of it later if visiting a name and listing one keep it. -/
theorem yields_invariant {I : Traversal → Prop}
    (visit : ∀ n done, I done → I { done with visited := n :: done.visited })
    (list : ∀ n l done, I done →
      I { done with listed := ⟨n, l, recursive.contains n⟩ :: done.listed })
    {done : Traversal} (h : I done) :
    Yields I (fun _ => True) (r.visit recursive fuel n s done) := by
  induction fuel generalizing n s done with
  | zero => exact h
  | succ fuel ih =>
    rw [visit_succ]
    split
    · exact h
    · have all : Yields I (fun _ => True)
          ((r.dependencies s n).foldlM (r.goTo recursive fuel)
            { done with visited := n :: done.visited }) := by
        refine .foldlM (visit n done h) fun p _ mid kept => ?_
        rw [goTo]
        split
        · exact ih kept
        · exact kept
      refine all.bind fun after kept => ?_
      cases r.listing s n with
      | ok l => exact list n l after kept
      | error e => exact .intro

/-- A traversal keeps the names that it has visited. -/
theorem yields_kept {names : List String} {done : Traversal} (h : names ⊆ done.visited) :
    Yields (fun after => names ⊆ after.visited) (fun _ => True)
      (r.visit recursive fuel n s done) :=
  yields_invariant (I := fun after => names ⊆ after.visited)
    (fun n _ kept => List.subset_cons_of_subset n kept) (fun _ _ _ kept => kept) h

def MarkedBy (recursive : List String) (types : List OrderedType) : Prop :=
  ∀ t ∈ types, t.recursive = recursive.contains t.name

/-- Types are listed as recursive if the search has found them to be. -/
theorem markedBy_ordered {scope : Scope} {types : List OrderedType}
    (ordered : r.ordered scope = .ok types) : MarkedBy (r.recursiveNames scope) types := by
  have all : Yields (fun done => MarkedBy (r.recursiveNames scope) done.listed) (fun _ => True)
      ((r.visible scope).foldlM
        (fun done p => r.visit (r.recursiveNames scope) (r.size + 1) p.1 p.2 done) {}) := by
    refine .foldlM (fun _ ht => nomatch ht) fun p _ done h => ?_
    exact yields_invariant (I := fun done => MarkedBy (r.recursiveNames scope) done.listed)
      (fun _ _ h => h) (fun n l done h => List.forall_mem_cons.mpr ⟨rfl, h⟩) h
  have marked : Yields (MarkedBy (r.recursiveNames scope)) (fun _ => True) (r.ordered scope) :=
    all.bind fun done h t ht => h t (List.mem_reverse.mp ht)
  rwa [ordered] at marked

/-- A traversal that may go no deeper is at a name that it has visited. -/
theorem visit_add (way : n ∉ path → r.OnTheWay path n) {done : Traversal}
    (visited : path ⊆ done.visited) (bound : r.size ≤ fuel + path.length) (k : Nat) :
    r.visit recursive (fuel + k) n s done = r.visit recursive fuel n s done := by
  induction fuel generalizing path n s done with
  | zero =>
    cases k with
    | zero => rfl
    | succ k =>
      rw [Nat.zero_add, visit_succ]
      split
      · rfl
      · rename_i fresh
        have short := (way fun hn => fresh (List.contains_iff_mem.mpr (visited hn))).length_lt
        omega
  | succ fuel ih =>
    rw [Nat.succ_add, visit_succ, visit_succ]
    split
    · rfl
    · rename_i fresh
      have fresh : n ∉ done.visited := fun hn => fresh (List.contains_iff_mem.mpr hn)
      have way := way fun hn => fresh (visited hn)
      have start : n :: path ⊆ n :: done.visited := List.cons_subset_cons n visited
      have same : (r.dependencies s n).foldlM (r.goTo recursive (fuel + k))
          { done with visited := n :: done.visited } =
          (r.dependencies s n).foldlM (r.goTo recursive fuel)
            { done with visited := n :: done.visited } := by
        refine foldlM_congr (I := fun mid => n :: path ⊆ mid.visited) start ?_ ?_
        · intro p hp mid kept
          rw [goTo, goTo]
          split
          · rename_i visible
            exact ih (way.push visible) kept (by rw [List.length_cons]; omega)
          · rfl
        · intro p hp mid kept
          rw [goTo]
          split
          · exact yields_kept kept
          · exact kept
      rw [same]

theorem searchCycles_eq_of_le {m : Nat} (hm : r.size + 1 ≤ m) (visible : r.contains s n = true)
    (found : CycleSearch) :
    r.searchCycles m [] n s found = r.searchCycles (r.size + 1) [] n s found := by
  obtain ⟨k, rfl⟩ := Nat.exists_eq_add_of_le hm
  exact searchCycles_add (.start visible) (by simp) k found

theorem visit_eq_of_le {m : Nat} (hm : r.size + 1 ≤ m) (visible : r.contains s n = true)
    (done : Traversal) :
    r.visit recursive m n s done = r.visit recursive (r.size + 1) n s done := by
  obtain ⟨k, rfl⟩ := Nat.exists_eq_add_of_le hm
  exact visit_add (fun _ => .start visible) (List.nil_subset _) (by simp) k

end Registry

end ApiContract
