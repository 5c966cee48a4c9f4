import Mathlib.Data.List.Chain
import ApiContract.Proofs.DependencyGraph

/-!
# The search for cycles

`searchCycles` goes through the dependencies depth first. Where a dependency is on the path already,
it marks the path from there on; where one was left earlier, is marked and leads back to the path,
it marks the whole path. Together they mark every name on a cycle. The second marks more than that:
the names above the cycle, which only lead to it. This happens only if two dependencies of one name
lead back to it, so that apart from names which lead to such a branch, exactly the names on cycles
are marked.
-/

namespace ApiContract

namespace Registry

open Relation

variable {r : Registry} {path front back done : List String} {a n x y z : String}

/-- Two different dependencies of a name lead back to it. -/
def Branches (r : Registry) (a : String) : Prop :=
  ∃ b c, b ≠ c ∧ r.Depends a b ∧ r.Depends a c ∧ r.Reaches b a ∧ r.Reaches c a

def LeadsToBranch (r : Registry) (x : String) : Prop := ∃ a, r.Reaches x a ∧ r.Branches a

/-- Dependencies lead to a name from one that is visible. -/
def Reachable (r : Registry) (scope : Scope) (x : String) : Prop :=
  ∃ v, r.contains scope v = true ∧ r.Reaches v x

/-! ### Paths -/

/-- Each name of a path depends on the one before it: the path leads from the last to the first. -/
structure IsPath (r : Registry) (path : List String) : Prop where
  nodup : path.Nodup
  registered : ∀ x ∈ path, r.Registered x
  chain : path.IsChain fun below above => r.Depends above below

theorem IsPath.nil : r.IsPath [] := ⟨List.nodup_nil, nofun, .nil⟩

theorem IsPath.push (h : r.IsPath path) (registered : r.Registered x) (hx : x ∉ path)
    (edge : ∀ above ∈ path.head?, r.Depends above x) : r.IsPath (x :: path) where
  nodup := List.nodup_cons.mpr ⟨hx, h.nodup⟩
  registered := List.forall_mem_cons.mpr ⟨registered, h.registered⟩
  chain := List.isChain_cons.mpr ⟨edge, h.chain⟩

theorem IsPath.pairwise (h : r.IsPath path) :
    path.Pairwise fun below above => r.Reaches above below := by
  have : Trans (fun below above => r.Reaches above below) (fun below above => r.Reaches above below)
      fun below above => r.Reaches above below := ⟨fun h h' => h'.trans h⟩
  exact (h.chain.imp fun _ _ edge => .single edge).pairwise

/-- Every name of a path leads to the first one. -/
theorem IsPath.reaches_head (h : r.IsPath (n :: path)) (hx : x ∈ n :: path) : r.Reaches x n := by
  rcases List.mem_cons.mp hx with rfl | hx
  · exact .refl
  · exact (List.pairwise_cons.mp h.pairwise).1 x hx

/-- A name of a path leads to those before it. -/
theorem IsPath.reaches_front (h : r.IsPath (front ++ z :: back)) (hx : x ∈ front) :
    r.Reaches z x :=
  (List.pairwise_append.mp h.pairwise).2.2 x hx z List.mem_cons_self

/-! ### First names on a path -/

/-- A name leads to one on the path, by way of names that are not. -/
def Hits (r : Registry) (path : List String) (x z : String) : Prop :=
  z ∈ path ∧ ReflTransGen (fun a b => a ∉ path ∧ r.Depends a b) x z

theorem Hits.reaches (h : r.Hits path x z) : r.Reaches x z :=
  ReflTransGen.mono (fun _ _ step => step.2) _ _ h.2

theorem exists_hits (h : r.Reaches x z) (hz : z ∈ path) : ∃ z', r.Hits path x z' := by
  induction h using ReflTransGen.head_induction_on with
  | refl => exact ⟨z, hz, .refl⟩
  | @head a b edge _ ih =>
    by_cases ha : a ∈ path
    · exact ⟨a, ha, .refl⟩
    · obtain ⟨z', hz', walk⟩ := ih
      exact ⟨z', hz', walk.head ⟨ha, edge⟩⟩

theorem Hits.eq_of_mem (h : r.Hits path x z) (hx : x ∈ path) : x = z := by
  rcases ReflTransGen.cases_head h.2 with rfl | ⟨y, ⟨off, _⟩, _⟩
  · rfl
  · exact absurd hx off

/-- A walk to the path does not come by a name, or its last part starts with a dependency of it. -/
theorem Hits.cut (h : r.Hits path x z) (n : String) :
    r.Hits (n :: path) x z ∨ ∃ y, r.Depends n y ∧ r.Hits (n :: path) y z := by
  obtain ⟨hz, walk⟩ := h
  have hz' : z ∈ n :: path := List.mem_cons_of_mem n hz
  induction walk using ReflTransGen.head_induction_on with
  | refl => exact .inl ⟨hz', .refl⟩
  | @head a b edge _ ih =>
    rcases ih with ⟨_, walk⟩ | later
    · by_cases ha : a = n
      · exact .inr ⟨b, ha ▸ edge.2, hz', walk⟩
      · exact .inl ⟨hz', walk.head ⟨by simp [ha, edge.1], edge.2⟩⟩
    · exact .inr later

/-- A name off the path that leads to it has a dependency that does so without coming back. -/
theorem Hits.next (h : r.Hits path n z) (hn : n ∉ path) :
    ∃ y, r.Depends n y ∧ r.Hits (n :: path) y z := by
  rcases h.cut n with h' | h'
  · obtain rfl := h'.eq_of_mem List.mem_cons_self
    exact absurd h.1 hn
  · exact h'

/-! ### What a search knows -/

/-- A name was come to through a dependency of a name on the path, not the one by which the path
goes on, and leads back to it. At the head of the path that dependency is one of those done. -/
def Traced (r : Registry) (path done visited : List String) (x : String) : Prop :=
  ∃ front a back b, path = front ++ a :: back ∧ r.Depends a b ∧ b ∈ visited ∧ b ∉ path ∧
    r.Reaches b x ∧ r.Reaches x a ∧ (front = [] → b ∈ done)

theorem Traced.onCycle {visited : List String} (h : r.Traced path done visited x) :
    r.OnCycle x := by
  obtain ⟨front, a, back, b, -, edge, -, -, down, up, -⟩ := h
  exact (TransGen.tail' up edge).trans_left down

/-- The state of a search while dependencies of the path's first name are looked at. Names that were
visited and are not on the path were left: their dependencies were visited, and those on cycles were
marked. -/
structure Searched (r : Registry) (path done : List String) (found : CycleSearch) : Prop where
  onPath : path ⊆ found.visited
  closed : ∀ x ∈ found.visited, x ∉ path → ∀ y, r.Depends x y → y ∈ found.visited
  complete : ∀ x ∈ found.visited, x ∉ path → r.OnCycle x → x ∈ found.recursive
  traced : ∀ x ∈ found.visited, x ∉ path → ∀ z ∈ path, r.Reaches x z →
    r.Traced path done found.visited x
  recursive : ∀ x ∈ found.recursive, x ∈ found.visited ∧ (r.OnCycle x ∨ r.LeadsToBranch x)

variable {found after : CycleSearch}

/-- Every name at or before the first one on the path that a name leads to is marked. -/
def Marked (r : Registry) (path : List String) (dep : String) (found : CycleSearch) : Prop :=
  ∀ front z back, path = front ++ z :: back → r.Hits path dep z →
    ∀ x ∈ front ++ [z], x ∈ found.recursive

/-- What a search knows when it has gone through a dependency of the path's first name. -/
structure Explored (r : Registry) (path done : List String) (dep : String)
    (found after : CycleSearch) : Prop where
  searched : r.Searched path (dep :: done) after
  visited : found.visited ⊆ after.visited
  recursive : found.recursive ⊆ after.recursive
  come : dep ∈ after.visited
  below : ∀ x ∈ after.visited, x ∈ found.visited ∨ r.Reaches dep x
  marked : r.Marked path dep after

theorem Traced.mono {visited visited' done' : List String}
    (h : r.Traced path done visited x) (hv : visited ⊆ visited') (hd : done ⊆ done') :
    r.Traced path done' visited' x := by
  obtain ⟨front, a, back, b, he, edge, hb, off, down, up, first⟩ := h
  exact ⟨front, a, back, b, he, edge, hv hb, off, down, up, fun h => hd (first h)⟩

theorem Searched.mono {done' : List String} (h : r.Searched path done found) (hd : done ⊆ done') :
    r.Searched path done' found :=
  { h with
    traced := fun x hx off z hz up => (h.traced x hx off z hz up).mono (List.Subset.refl _) hd }

/-- More names may be marked, if they are visited and on a cycle or lead to a branch. -/
theorem Searched.mark (h : r.Searched path done found) {marks : List String}
    (right : ∀ x ∈ marks, x ∈ found.visited ∧ (r.OnCycle x ∨ r.LeadsToBranch x)) :
    r.Searched path done { found with recursive := marks ++ found.recursive } where
  onPath := h.onPath
  closed := h.closed
  complete x hx off cycle := List.mem_append_right _ (h.complete x hx off cycle)
  traced := h.traced
  recursive := by
    intro x hx
    rcases List.mem_append.mp hx with hx | hx
    · exact right x hx
    · exact h.recursive x hx

/-! ### One dependency -/

def lookAt (r : Registry) (fuel : Nat) (path : List String) (found : CycleSearch)
    (p : String × Scope) : CycleSearch :=
  if !r.contains p.2 p.1 then found
  else if path.contains p.1 then
    { found with recursive := p.1 :: path.takeWhile (· != p.1) ++ found.recursive }
  else if !found.visited.contains p.1 then r.searchCycles fuel path p.1 p.2 found
  else if found.recursive.contains p.1 &&
      r.reachesPath path (r.dependencyCount + 1) [] [(p.1, p.2)] then
    { found with recursive := path ++ found.recursive }
  else found

theorem searchCycles_succ (r : Registry) (fuel : Nat) (path : List String) (name : String)
    (s : Scope) (found : CycleSearch) :
    r.searchCycles (fuel + 1) path name s found =
      (r.dependencies s name).foldl (r.lookAt fuel (name :: path))
        { found with visited := name :: found.visited } := rfl

theorem takeWhile_ne_append (h : a ∉ front) :
    (front ++ a :: back).takeWhile (· != a) = front := by
  induction front with
  | nil => simp
  | cons x rest ih =>
    have hx : x ≠ a := fun he => h (he ▸ List.mem_cons_self)
    simp [hx, ih (List.not_mem_of_not_mem_cons h)]

/-- A dependency on the path closes a cycle with the names before it. -/
theorem explored_of_mem_path (isPath : r.IsPath (n :: path)) (edge : r.Depends n x)
    (h : r.Searched (n :: path) done found) (hx : x ∈ n :: path) :
    r.Explored (n :: path) done x found
      { found with recursive := x :: (n :: path).takeWhile (· != x) ++ found.recursive } := by
  generalize hp : n :: path = whole at *
  have nodup := isPath.nodup
  have front_of {front back : List String} (he : whole = front ++ x :: back) :
      whole.takeWhile (· != x) = front := by
    have hn : x ∉ front := by
      rw [he] at nodup
      intro hf
      exact (List.nodup_append.mp nodup).2.2 x hf x List.mem_cons_self rfl
    rw [he, takeWhile_ne_append hn]
  obtain ⟨front, back, he⟩ := List.append_of_mem hx
  rw [front_of he]
  have right : ∀ y ∈ x :: front, y ∈ found.visited ∧ (r.OnCycle y ∨ r.LeadsToBranch y) := by
    intro y hy
    have on_path : y ∈ whole := by
      rw [he]
      rcases List.mem_cons.mp hy with rfl | hy
      · simp
      · simp [hy]
    have down : r.Reaches x y := by
      rcases List.mem_cons.mp hy with rfl | hy
      · exact .refl
      · exact (he ▸ isPath).reaches_front hy
    have to_head : r.Reaches y n := (hp ▸ isPath).reaches_head (hp ▸ on_path)
    exact ⟨h.onPath on_path, .inl ((TransGen.tail' to_head edge).trans_left down)⟩
  refine ⟨(h.mark right).mono (List.subset_cons_self _ _), List.Subset.refl _,
    List.subset_append_right _ _, h.onPath hx, fun _ hy => .inl hy, ?_⟩
  intro front' z back' he' hits y hy
  obtain rfl := hits.eq_of_mem hx
  obtain rfl : front = front' := (front_of he).symm.trans (front_of he')
  refine List.mem_append_left _ ?_
  simpa [or_comm] using hy

/-- A path from which a dependency leads back to it that was traced before leads to a branch. -/
theorem leadsToBranch_of_traced (isPath : r.IsPath (n :: path)) (edge : r.Depends n x)
    {visited : List String} (traced : r.Traced (n :: path) done visited x) (hd : x ∉ done) :
    ∀ y ∈ n :: path, r.LeadsToBranch y := by
  obtain ⟨front, a, back, b, he, edge', -, off, down, up, first⟩ := traced
  have to_a : r.Reaches n a := .head edge up
  have branch : r.Branches a := by
    rcases List.eq_nil_or_concat front with rfl | ⟨front, c, rfl⟩
    · -- the branch is the first name, which had come to the dependency through another one
      obtain ⟨rfl, rfl⟩ : n = a ∧ path = back := by simpa using he
      exact ⟨b, x, fun h => hd (h ▸ first rfl), edge', edge, down.trans up, up⟩
    · -- the path goes on from the branch to a name of its own
      have he' : n :: path = front ++ c :: a :: back := by simpa using he
      have on_path : c ∈ n :: path := by simp [he']
      have chain := isPath.chain
      rw [he', List.isChain_append_cons_cons] at chain
      have edge_c : r.Depends a c := chain.2.1
      exact ⟨b, c, fun h => off (h ▸ on_path), edge', edge_c, down.trans up,
        (isPath.reaches_head on_path).trans to_a⟩
  intro y hy
  exact ⟨a, (isPath.reaches_head hy).trans to_a, branch⟩

/-- A dependency that was left earlier, and is marked and leads to the path, closes a cycle. -/
theorem explored_of_visited (once : ∀ y, r.Reaches x y → r.HeldOnce y) (sighted : r.Sighted)
    {s : Scope}
    (isPath : r.IsPath (n :: path)) (edge : r.Depends n x) (visible : r.contains s x = true)
    (h : r.Searched (n :: path) done found) (hd : x ∉ done) (off : x ∉ n :: path)
    (hv : x ∈ found.visited) :
    r.Explored (n :: path) done x found
      (if found.recursive.contains x &&
          r.reachesPath (n :: path) (r.dependencyCount + 1) [] [(x, s)] then
        { found with recursive := n :: path ++ found.recursive }
      else found) := by
  split
  · rename_i marks
    obtain ⟨-, reaches⟩ := Bool.and_eq_true_iff.mp marks
    have from_here : ∀ p ∈ [(x, s)], r.Registered p.1 → r.Reaches x p.1 := by
      intro p hp _
      rw [List.mem_singleton.mp hp]
    obtain ⟨z, hz, up⟩ :=
      reaches_of_reachesPath sighted isPath.registered from_here reaches
    have leads := leadsToBranch_of_traced isPath edge (h.traced x hv off z hz up) hd
    have right : ∀ y ∈ n :: path, y ∈ found.visited ∧ (r.OnCycle y ∨ r.LeadsToBranch y) :=
      fun y hy => ⟨h.onPath hy, .inr (leads y hy)⟩
    refine ⟨(h.mark right).mono (List.subset_cons_self _ _), List.Subset.refl _,
      List.subset_append_right _ _, hv, fun _ hy => .inl hy, ?_⟩
    intro front z back he _ y hy
    refine List.mem_append_left _ ?_
    rw [he]
    rcases List.mem_append.mp hy with hy | hy
    · exact List.mem_append_left _ hy
    · rw [List.mem_singleton.mp hy]
      simp
  · rename_i none
    refine ⟨h.mono (List.subset_cons_self _ _), List.Subset.refl _, List.Subset.refl _, hv,
      fun _ hy => .inl hy, ?_⟩
    intro front z back he hits y hy
    -- a dependency that led to the path would be on a cycle, and so be marked
    have up := hits.reaches
    have marked : x ∈ found.recursive :=
      h.complete x hv off (h.traced x hv off z hits.1 up).onCycle
    have up' : TransGen r.Depends x z := by
      rcases reflTransGen_iff_eq_or_transGen.mp up with rfl | up
      · exact absurd hits.1 off
      · exact up
    have reaches := reachesPath_of_transGen once sighted visible hits.1 up'
    exact absurd (by simp [marked, reaches]) none

/-! ### All dependencies of a name -/

/-- What was visited leads to a name that was not by way of the path. -/
theorem Searched.exists_reaches (h : r.Searched path done found) (hx : x ∈ found.visited)
    (hn : n ∉ found.visited) (up : r.Reaches x n) : ∃ z ∈ path, r.Reaches x z := by
  induction up using ReflTransGen.head_induction_on with
  | refl => exact absurd hx hn
  | @head a b edge _ ih =>
    by_cases ha : a ∈ path
    · exact ⟨a, ha, .refl⟩
    · obtain ⟨z, hz, up⟩ := ih (h.closed a hx ha b edge)
      exact ⟨z, hz, up.head edge⟩

/-- A name that was not visited goes on the path. -/
theorem Searched.push (h : r.Searched path done found) (hn : n ∉ found.visited) :
    r.Searched (n :: path) [] { found with visited := n :: found.visited } where
  onPath := List.cons_subset_cons n h.onPath
  closed := by
    intro x hx off y edge
    obtain ⟨hne, off⟩ := not_or.mp (mt List.mem_cons.mpr off)
    have hx := (List.mem_cons.mp hx).resolve_left hne
    exact List.mem_cons_of_mem n (h.closed x hx off y edge)
  complete := by
    intro x hx off cycle
    obtain ⟨hne, off⟩ := not_or.mp (mt List.mem_cons.mpr off)
    exact h.complete x ((List.mem_cons.mp hx).resolve_left hne) off cycle
  traced := by
    intro x hx off z hz up
    obtain ⟨hne, off⟩ := not_or.mp (mt List.mem_cons.mpr off)
    have hx := (List.mem_cons.mp hx).resolve_left hne
    -- a walk to the new name comes by the path, as the name was not visited
    obtain ⟨z, hz, up⟩ : ∃ z ∈ path, r.Reaches x z := by
      rcases List.mem_cons.mp hz with he | hz
      · exact h.exists_reaches hx hn (he ▸ up)
      · exact ⟨z, hz, up⟩
    obtain ⟨front, a, back, b, he, edge, hb, off', down, up, -⟩ := h.traced x hx off z hz up
    refine ⟨n :: front, a, back, b, by rw [he]; rfl, edge, List.mem_cons_of_mem n hb, ?_, down, up,
      nofun⟩
    intro hm
    rcases List.mem_cons.mp hm with rfl | hm
    · exact hn hb
    · exact off' hm
  recursive x hx := (h.recursive x hx).imp_left (List.mem_cons_of_mem n)

/-- What a search knows when it has looked at some dependencies of the path's first name. -/
structure Scanned (r : Registry) (n : String) (path : List String) (looked : List (String × Scope))
    (found after : CycleSearch) : Prop where
  searched : r.Searched (n :: path) (looked.map (·.1)) after
  visited : found.visited ⊆ after.visited
  recursive : found.recursive ⊆ after.recursive
  below : ∀ x ∈ after.visited, x ∈ found.visited ∨ r.Reaches n x
  come : ∀ p ∈ looked, r.contains p.2 p.1 = true → p.1 ∈ after.visited
  marked : ∀ p ∈ looked, r.contains p.2 p.1 = true → r.Marked (n :: path) p.1 after

variable {looked : List (String × Scope)} {p : String × Scope} {later : CycleSearch}

/-- A dependency that is registered nowhere is passed over. -/
theorem Scanned.skip (h : r.Scanned n path looked found after)
    (absent : ¬ r.contains p.2 p.1 = true) : r.Scanned n path (looked ++ [p]) found after where
  searched := h.searched.mono (by simp)
  visited := h.visited
  recursive := h.recursive
  below := h.below
  come := by
    intro q hq visible
    rcases List.mem_append.mp hq with hq | hq
    · exact h.come q hq visible
    · exact absurd (List.mem_singleton.mp hq ▸ visible) absent
  marked := by
    intro q hq visible
    rcases List.mem_append.mp hq with hq | hq
    · exact h.marked q hq visible
    · exact absurd (List.mem_singleton.mp hq ▸ visible) absent

/-- One more dependency is looked at, and what is known of those before stays true. -/
theorem Scanned.step (h : r.Scanned n path looked found after)
    (explored : r.Explored (n :: path) (looked.map (·.1)) p.1 after later)
    (edge : r.Depends n p.1) : r.Scanned n path (looked ++ [p]) found later where
  searched := explored.searched.mono (by simp)
  visited := List.Subset.trans h.visited explored.visited
  recursive := List.Subset.trans h.recursive explored.recursive
  below := by
    intro x hx
    rcases explored.below x hx with hx | down
    · exact h.below x hx
    · exact .inr (down.head edge)
  come := by
    intro q hq visible
    rcases List.mem_append.mp hq with hq | hq
    · exact explored.visited (h.come q hq visible)
    · rw [List.mem_singleton.mp hq]
      exact explored.come
  marked := by
    intro q hq visible
    rcases List.mem_append.mp hq with hq | hq
    · exact fun front z back he hits x hx =>
        explored.recursive (h.marked q hq visible front z back he hits x hx)
    · rw [List.mem_singleton.mp hq]
      exact explored.marked

theorem IsPath.tail (h : r.IsPath (n :: path)) : r.IsPath path where
  nodup := (List.nodup_cons.mp h.nodup).2
  registered x hx := h.registered x (List.mem_cons_of_mem n hx)
  chain := h.chain.tail

def AllLooked (r : Registry) (n : String) (looked : List (String × Scope)) : Prop :=
  ∀ y, r.Depends n y → ∃ p ∈ looked, p.1 = y ∧ r.contains p.2 p.1 = true

theorem Scanned.below_found
    (h : r.Scanned n path looked { found with visited := n :: found.visited } after) :
    ∀ x ∈ after.visited, x ∈ found.visited ∨ r.Reaches n x := by
  intro x hx
  rcases h.below x hx with hx | down
  · rcases List.mem_cons.mp hx with rfl | hx
    · exact .inr .refl
    · exact .inl hx
  · exact .inr down

theorem Scanned.visited_found
    (h : r.Scanned n path looked { found with visited := n :: found.visited } after) :
    found.visited ⊆ after.visited :=
  List.Subset.trans (List.subset_cons_self n _) h.visited

/-- If a name whose dependencies were looked at is on a cycle, it is marked: the cycle goes on to a
dependency, from which it first hits the path at the name or above it. -/
theorem Scanned.mem_recursive (h : r.Scanned n path looked found after)
    (all : r.AllLooked n looked) (cycle : r.OnCycle n) : n ∈ after.recursive := by
  obtain ⟨y, edge, up⟩ := TransGen.head'_iff.mp cycle
  obtain ⟨p, hp, rfl, visible⟩ := all y edge
  obtain ⟨z, hits⟩ : ∃ z, r.Hits (n :: path) p.1 z := exists_hits up List.mem_cons_self
  obtain ⟨front, back, he⟩ := List.append_of_mem hits.1
  refine h.marked p hp visible front z back he hits n ?_
  cases front with
  | nil => simp [(List.cons.inj he).1]
  | cons c front => simp [(List.cons.inj he).1]

/-- The name leaves the path. -/
theorem Scanned.pop (h : r.Scanned n path looked { found with visited := n :: found.visited } after)
    (all : r.AllLooked n looked) (isPath : r.IsPath (n :: path))
    (before : r.Searched path done found) : r.Searched path (n :: done) after where
  onPath := List.Subset.trans before.onPath h.visited_found
  closed := by
    intro x hx off y edge
    by_cases hne : x = n
    · rw [hne] at edge
      obtain ⟨p, hp, rfl, visible⟩ := all y edge
      exact h.come p hp visible
    · exact h.searched.closed x hx (by simp [hne, off]) y edge
  complete := by
    intro x hx off cycle
    by_cases hne : x = n
    · rw [hne] at cycle ⊢
      exact h.mem_recursive all cycle
    · exact h.searched.complete x hx (by simp [hne, off]) cycle
  traced := by
    intro x hx off z hz up
    rcases h.below_found x hx with hx | down
    · exact (before.traced x hx off z hz up).mono h.visited_found (List.subset_cons_self _ _)
    · -- what was visited by way of the name is traced to the name before it
      cases path with
      | nil => cases hz
      | cons m path =>
        have edge : r.Depends m n := (List.isChain_cons_cons.mp isPath.chain).1
        have off : n ∉ m :: path := (List.nodup_cons.mp isPath.nodup).1
        exact ⟨[], m, path, n, rfl, edge, h.visited List.mem_cons_self, off, down,
          up.trans (isPath.tail.reaches_head hz), fun _ => List.mem_cons_self⟩
  recursive := h.searched.recursive

/-- When all dependencies of a name were looked at, it has been explored. -/
theorem Scanned.leave
    (h : r.Scanned n path looked { found with visited := n :: found.visited } after)
    (all : r.AllLooked n looked) (isPath : r.IsPath (n :: path))
    (before : r.Searched path done found) : r.Explored path done n found after where
  searched := h.pop all isPath before
  visited := h.visited_found
  recursive := h.recursive
  come := h.visited List.mem_cons_self
  below := h.below_found
  marked := by
    intro front z back he hits x hx
    obtain ⟨y, edge, hits'⟩ := hits.next (List.nodup_cons.mp isPath.nodup).1
    obtain ⟨p, hp, rfl, visible⟩ := all y edge
    exact h.marked p hp visible (n :: front) z back (by rw [he]; rfl) hits' x
      (List.mem_cons_of_mem n hx)

/-- Looking at the next dependency, one that was not looked at before. -/
theorem Scanned.lookAt (once : ∀ y, r.Reaches n y → r.HeldOnce y) (sighted : r.Sighted) {fuel : Nat}
    (isPath : r.IsPath (n :: path)) (h : r.Scanned n path looked found after)
    (edge : r.contains p.2 p.1 = true → r.Depends n p.1) (fresh : p.1 ∉ looked.map (·.1))
    (deeper : r.contains p.2 p.1 = true → p.1 ∉ after.visited →
      r.Explored (n :: path) (looked.map (·.1)) p.1 after
        (r.searchCycles fuel (n :: path) p.1 p.2 after)) :
    r.Scanned n path (looked ++ [p]) found (r.lookAt fuel (n :: path) after p) := by
  rw [Registry.lookAt]
  by_cases visible : r.contains p.2 p.1 = true
  · rw [if_neg (by simp [visible])]
    have edge := edge visible
    split
    · rename_i hp
      have hp : p.1 ∈ n :: path := List.contains_iff_mem.mp hp
      exact h.step (explored_of_mem_path isPath edge h.searched hp) edge
    · rename_i hp
      have hp : p.1 ∉ n :: path := fun hm => hp (List.contains_iff_mem.mpr hm)
      split
      · rename_i hv
        exact h.step (deeper visible (by simpa using hv)) edge
      · rename_i hv
        have hv : p.1 ∈ after.visited := by simpa using hv
        have once' (y : String) (down : r.Reaches p.1 y) : r.HeldOnce y := once y (down.head edge)
        exact h.step
          (explored_of_visited once' sighted isPath edge visible h.searched fresh hp hv) edge
  · rw [if_pos (by simp [visible])]
    exact h.skip visible

/-! ### The whole search -/

/-- An invariant of a fold may speak of the elements that were gone through. -/
theorem foldl_prefix {α σ : Type} {step : σ → α → σ} {P : List α → σ → Prop} {start : σ}
    {all : List α} (first : P [] start)
    (next : ∀ front a rest s, all = front ++ a :: rest → P front s → P (front ++ [a]) (step s a)) :
    P all (all.foldl step start) := by
  have from_front (rest : List α) : ∀ front s, all = front ++ rest → P front s →
      P all (rest.foldl step s) := by
    induction rest with
    | nil =>
      intro front s he h
      rw [he, List.append_nil]
      exact h
    | cons a rest ih =>
      intro front s he h
      exact ih (front ++ [a]) (step s a) (by simp [he]) (next front a rest s he h)
  exact from_front all [] start rfl first

/-- The search from a name, by induction on how deep it may still go: the names of the path are
registered and different, so it never is at an end. -/
theorem explored_searchCycles (once : ∀ y, r.Reaches n y → r.HeldOnce y) (sighted : r.Sighted)
    {fuel : Nat} {s : Scope} (isPath : r.IsPath path) (edge : ∀ above ∈ path.head?, r.Depends above n)
    (visible : r.contains s n = true) (hn : n ∉ found.visited) (h : r.Searched path done found)
    (bound : r.size < fuel + path.length) :
    r.Explored path done n found (r.searchCycles fuel path n s found) := by
  induction fuel generalizing path done n s found with
  | zero =>
    have short := length_le_size isPath.nodup isPath.registered
    omega
  | succ fuel ih =>
    have off : n ∉ path := fun hp => hn (h.onPath hp)
    have isPath' := isPath.push (.of_contains visible) off edge
    have scanned : r.Scanned n path (r.dependencies s n)
        { found with visited := n :: found.visited }
        ((r.dependencies s n).foldl (r.lookAt fuel (n :: path))
          { found with visited := n :: found.visited }) := by
      refine foldl_prefix (P := fun looked after =>
        r.Scanned n path looked { found with visited := n :: found.visited } after) ?_ ?_
      · exact ⟨h.push hn, List.Subset.refl _, List.Subset.refl _, fun _ hx => .inl hx, nofun, nofun⟩
      · intro looked p rest after he scanned
        have hp : p ∈ r.dependencies s n := by simp [he]
        have fresh : p.1 ∉ looked.map (·.1) := by
          have nodup := nodup_dependencies r s n
          rw [he, List.map_append, List.map_cons] at nodup
          exact fun hm => (List.nodup_append.mp nodup).2.2 _ hm _ List.mem_cons_self rfl
        have edge' (visible : r.contains p.2 p.1 = true) : r.Depends n p.1 := ⟨s, p.2, hp, visible⟩
        refine scanned.lookAt once sighted isPath' edge' fresh ?_
        intro visible' unseen
        refine ih (fun y down => once y (down.head (edge' visible'))) isPath' ?_ visible' unseen
          scanned.searched (by rw [List.length_cons]; omega)
        rintro above ⟨⟩
        exact edge' visible'
    have all : r.AllLooked n (r.dependencies s n) := by
      intro y edge
      obtain ⟨ds, hm, hc⟩ := ((once n .refl).depends_iff visible).mp edge
      exact ⟨(y, ds), hm, rfl, hc⟩
    rw [searchCycles_succ]
    exact scanned.leave all isPath' h

/-- What is known when some of the visible names were searched from. -/
structure Covered (r : Registry) (scope : Scope) (roots : List (String × Scope))
    (found : CycleSearch) : Prop where
  searched : r.Searched [] [] found
  roots : ∀ p ∈ roots, p.1 ∈ found.visited
  reachable : ∀ x ∈ found.visited, r.Reachable scope x

theorem Searched.of_nil (h : r.Searched [] done found) : r.Searched [] [] found :=
  { h with traced := fun _ _ _ _ hz => nomatch hz }

/-- The search from each visible name that was not visited covers all of them. -/
theorem covered_of_heldOnce {scope : Scope} (once : ∀ x, r.Reachable scope x → r.HeldOnce x)
    (sighted : r.Sighted) :
    r.Covered scope (r.visible scope)
      ((r.visible scope).foldl
        (fun found p => if found.visited.contains p.1 then found
          else r.searchCycles (r.size + 1) [] p.1 p.2 found) {}) := by
  refine foldl_prefix (P := r.Covered scope) ?_ ?_
  · exact ⟨⟨nofun, nofun, nofun, nofun, nofun⟩, nofun, nofun⟩
  · intro roots p rest found he covered
    have hp : p ∈ r.visible scope := by simp [he]
    obtain ⟨hs, e, entry⟩ := entry_of_mem_visible hp
    split
    · rename_i hv
      refine ⟨covered.searched, ?_, covered.reachable⟩
      intro q hq
      rcases List.mem_append.mp hq with hq | hq
      · exact covered.roots q hq
      · rw [List.mem_singleton.mp hq]
        simpa using hv
    · rename_i hv
      have visible : r.contains p.2 p.1 = true := contains_iff.mpr ⟨p.2, e, lookup_of_entry entry⟩
      have from_root : r.contains scope p.1 = true := contains_iff_entry.mpr ⟨p.2, hs, e, entry⟩
      have explored := explored_searchCycles (fun y down => once y ⟨p.1, from_root, down⟩) sighted
        .nil nofun visible (by simpa using hv) covered.searched (Nat.lt_succ_self r.size)
      refine ⟨explored.searched.of_nil, ?_, ?_⟩
      · intro q hq
        rcases List.mem_append.mp hq with hq | hq
        · exact explored.visited (covered.roots q hq)
        · rw [List.mem_singleton.mp hq]
          exact explored.come
      · intro x hx
        rcases explored.below x hx with hx | down
        · exact covered.reachable x hx
        · exact ⟨p.1, from_root, down⟩

theorem covered_visible (once : r.RegisteredOnce) (sighted : r.Sighted) (scope : Scope) :
    r.Covered scope (r.visible scope)
      ((r.visible scope).foldl
        (fun found p => if found.visited.contains p.1 then found
          else r.searchCycles (r.size + 1) [] p.1 p.2 found) {}) :=
  covered_of_heldOnce (fun x _ => once.heldOnce x) sighted

theorem Covered.visited_of_reachable {scope : Scope}
    (h : r.Covered scope (r.visible scope) found) (hx : r.Reachable scope x) :
    x ∈ found.visited := by
  obtain ⟨v, visible, down⟩ := hx
  induction down with
  | refl =>
    obtain ⟨p, hp, rfl⟩ := List.mem_map.mp (mem_keys_visible visible)
    exact h.roots p hp
  | tail _ edge ih => exact h.searched.closed _ ih nofun _ edge

/-- No name on a cycle is missed if those that are reachable are registered in one scope each. -/
theorem mem_recursiveNames_of_onCycle {scope : Scope}
    (once : ∀ x, r.Reachable scope x → r.HeldOnce x) (sighted : r.Sighted)
    (hx : r.Reachable scope x) (cycle : r.OnCycle x) : x ∈ r.recursiveNames scope := by
  have covered := covered_of_heldOnce once sighted
  rw [recursiveNames, mem_sortedNames]
  exact covered.searched.complete x (covered.visited_of_reachable hx) nofun cycle

end Registry

/-- If no name is registered in two scopes and registered names are mentioned only where they can be
seen, then `recursiveNames` tells, of every name that is on a cycle or leads to no branch, whether
it is reachable and on a cycle. -/
theorem mem_recursiveNames_iff (r : Registry) (scope : Scope) (x : String)
    (once : r.RegisteredOnce) (sighted : r.Sighted)
    (branch : r.LeadsToBranch x → r.OnCycle x) :
    x ∈ r.recursiveNames scope ↔ r.Reachable scope x ∧ r.OnCycle x := by
  have covered := Registry.covered_visible once sighted scope
  rw [Registry.recursiveNames, mem_sortedNames]
  constructor
  · intro hx
    obtain ⟨visited, right⟩ := covered.searched.recursive x hx
    exact ⟨covered.reachable x visited, right.elim id branch⟩
  · rintro ⟨reachable, cycle⟩
    exact covered.searched.complete x (covered.visited_of_reachable reachable) nofun cycle

/-! ### A mesh and an atlas -/

def recordOf (name : String) (mentioned : List String) : String × Entry :=
  let fields := mentioned.map fun t => ({ name := t, definition := .reference t } : Field)
  (name, .defined { name, definition := .object fields })

def mesh : Registry :=
  { tables := [(.global, [recordOf "App" ["Node"], recordOf "Edge" ["Node"],
      recordOf "Face" ["Edge"], recordOf "Node" ["Edge", "Face"], recordOf "Text" []])] }

theorem mesh_registeredOnce : mesh.RegisteredOnce :=
  Registry.registeredOnce_of_nodup (by decide +kernel)

/-- Faces are marked when the search comes back to the edges it has left, and texts are not. -/
theorem mesh_recursiveNames :
    "Face" ∈ mesh.recursiveNames .global ∧ "Text" ∉ mesh.recursiveNames .global := by
  have sighted : mesh.Sighted := Registry.sighted_of_entries (by decide +kernel)
  have edge_node : mesh.Depends "Edge" "Node" := ⟨.global, .global, by decide +kernel⟩
  have node_face : mesh.Depends "Node" "Face" := ⟨.global, .global, by decide +kernel⟩
  have face_edge : mesh.Depends "Face" "Edge" := ⟨.global, .global, by decide +kernel⟩
  have face_cycle : mesh.OnCycle "Face" :=
    .tail (.tail (.single face_edge) edge_node) node_face
  have text_alone (y : String) : ¬ mesh.Depends "Text" y := by
    intro edge
    have visible : mesh.contains .global "Text" = true := by decide +kernel
    obtain ⟨ds, hm, -⟩ := (mesh_registeredOnce.depends_iff visible).mp edge
    have none : mesh.dependencies .global "Text" = [] := by decide +kernel
    rw [none] at hm
    cases hm
  have text_branch : ¬ mesh.LeadsToBranch "Text" := by
    rintro ⟨a, down, b, -, -, edge, -⟩
    rcases Relation.ReflTransGen.cases_head down with rfl | ⟨y, edge', -⟩
    · exact text_alone b edge
    · exact text_alone y edge'
  constructor
  · exact (mem_recursiveNames_iff mesh .global "Face" mesh_registeredOnce sighted
      fun _ => face_cycle).mpr ⟨⟨"Face", by decide +kernel, .refl⟩, face_cycle⟩
  · intro marked
    obtain ⟨-, cycle⟩ := (mem_recursiveNames_iff mesh .global "Text" mesh_registeredOnce sighted
      fun leads => absurd leads text_branch).mp marked
    obtain ⟨y, edge, -⟩ := Relation.TransGen.head'_iff.mp cycle
    exact text_alone y edge

def atlas : Registry :=
  { tables := [(.global, [recordOf "Zone" ["Map"]]),
      (.api "atlas", [recordOf "Area" ["Block", "Cell"], recordOf "Block" ["Map", "Zone"],
        recordOf "Cell" ["Block"], recordOf "Map" ["Area"]])] }

/-- The mesh's application is marked, which only leads to a cycle; the atlas's cells are on one and
are not marked. -/
theorem recursiveNames_beside_cycles :
    (mesh.RegisteredOnce ∧ "App" ∈ mesh.recursiveNames .global ∧ ¬ mesh.OnCycle "App") ∧
      atlas.RegisteredOnce ∧ "Cell" ∉ atlas.recursiveNames (.api "atlas") ∧
        atlas.Reachable (.api "atlas") "Cell" ∧ atlas.OnCycle "Cell" := by
  have app : ¬ mesh.OnCycle "App" := by
    intro cycle
    obtain ⟨y, -, s, ds, hm, -⟩ := Relation.TransGen.tail'_iff.mp cycle
    obtain ⟨s', hq, hm⟩ := Registry.exists_entry_of_mem_dependencies hm
    have none : ∀ q ∈ mesh.entries, ∀ p ∈ mesh.dependencies q.1 q.2, p.1 ≠ "App" := by
      decide +kernel
    exact none _ hq _ hm rfl
  have cell_block : atlas.Depends "Cell" "Block" := ⟨.api "atlas", .api "atlas", by decide +kernel⟩
  have block_map : atlas.Depends "Block" "Map" := ⟨.api "atlas", .api "atlas", by decide +kernel⟩
  have map_area : atlas.Depends "Map" "Area" := ⟨.api "atlas", .api "atlas", by decide +kernel⟩
  have area_cell : atlas.Depends "Area" "Cell" := ⟨.api "atlas", .api "atlas", by decide +kernel⟩
  exact ⟨⟨mesh_registeredOnce, by decide +kernel, app⟩,
    Registry.registeredOnce_of_nodup (by decide +kernel), by decide +kernel,
    ⟨"Cell", by decide +kernel, .refl⟩,
    .tail (.tail (.tail (.single cell_block) block_map) map_area) area_cell⟩

end ApiContract
