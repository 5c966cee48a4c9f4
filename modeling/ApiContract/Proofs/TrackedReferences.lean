import ApiContract.Proofs.ConsultedNames
import ApiContract.Proofs.CycleSearch

/-!
# Tracked references

The references of a definition, with those of the types they stand for, and so on, are all names
that a walk along it can look up. Two registries that resolve these names alike come to the same for
every value, whatever else is registered in them.
-/

namespace ApiContract

namespace View

/-- A name is among the references of a definition, or of a type that one of these stands for. -/
inductive Tracks (view : View) (d : Definition) : String → Prop where
  | directly {name} (h : name ∈ d.references) : Tracks view d name
  | behind {target t name} (h : Tracks view d target) (ht : view.resolve target = .ok t)
    (hn : name ∈ t.definition.references) : Tracks view d name

variable {view other : View} {d : Definition}

/-- A name that is looked up is a reference that is tracked. -/
theorem Consults.tracks {name : String} (h : view.Consults d name) : view.Tracks d name := by
  obtain ⟨e, occurs, looks⟩ := h
  refine occurs.all_mentions (P := view.Tracks d) ?_ ?_ name looks.mem_mentions
  · intro target definition tracked hd x hx
    cases hr : view.resolve target with
    | error e => simp [definition?, hr] at hd
    | ok t =>
      obtain rfl : t.definition = definition := by simpa [definition?, hr] using hd
      exact .behind tracked hr (mem_sortedNames.mpr hx)
  · exact fun x hx => .directly (mem_sortedNames.mpr hx)

/-- A list of names with the references of a definition that is closed has all that is tracked. -/
theorem Tracks.mem_of_closed {names : List String} {name : String} (h : view.Tracks d name)
    (own : ∀ x ∈ d.references, x ∈ names)
    (closed : ∀ x ∈ names, ∀ t, view.resolve x = .ok t → ∀ y ∈ t.definition.references, y ∈ names) :
    name ∈ names := by
  induction h with
  | directly h => exact own _ h
  | behind _ ht hn ih => exact closed _ ih _ ht _ hn

/-- It does not matter which of two views names are tracked by if these are resolved alike. -/
theorem tracks_congr (same : ∀ name, view.Tracks d name → other.resolve name = view.resolve name)
    (name : String) : other.Tracks d name ↔ view.Tracks d name := by
  constructor
  · intro h
    induction h with
    | directly h => exact .directly h
    | behind _ ht hn ih => exact .behind ih ((same _ ih).symm.trans ht) hn
  · intro h
    induction h with
    | directly h => exact .directly h
    | behind tracked ht hn ih => exact .behind ih ((same _ tracked).trans ht) hn

end View

/-- Two registries that resolve alike what a definition refers to, directly or behind other names,
cannot be told apart by walks along it, and it does not matter in which of them it is tracked. -/
theorem walksAlike_of_tracks (r r' : Registry) (scope : Scope) (d : Definition)
    (same : ∀ name, View.Tracks ⟨r, scope⟩ d name →
      r'.resolve scope name = r.resolve scope name) :
    View.WalksAlike ⟨r, scope⟩ ⟨r', scope⟩ d ∧
      ∀ name, View.Tracks ⟨r', scope⟩ d name ↔ View.Tracks ⟨r, scope⟩ d name :=
  ⟨View.AnswersAlike.walksAlike fun name consulted => same name consulted.tracks,
    View.tracks_congr same⟩

def task : NamedType :=
  { name := "Task"
    definition := .object [{ name := "state", definition := .namedEnum "State" },
      { name := "parts", definition := .arrayOf (.reference "Task") },
      { name := "owner", definition := .union [.reference "Person", .scalar .string] }] }

def taskState : NamedType := { name := "State", definition := .enumeration ["open", "done"] }

def board : Registry :=
  { tables := [(.global, [recordOf "Money" []]),
      (.api "app", [("State", .defined taskState), ("Task", .defined task)])] }

def sharedBoard : Registry :=
  { tables := [(.global, [("Task", .defined task)]),
      (.api "app", [("Money", .placeholder), ("State", .aliasOf (.api "shared") "State")]),
      (.api "shared", [recordOf "Person" [], ("State", .defined taskState)])] }

/-- The two boards agree on tasks, and so on every value that may be one. -/
theorem board_walksAlike :
    (∀ name, View.Tracks ⟨board, .api "app"⟩ (.reference "Task") name →
      sharedBoard.resolve (.api "app") name = board.resolve (.api "app") name) ∧
    View.WalksAlike ⟨board, .api "app"⟩ ⟨sharedBoard, .api "app"⟩ (.reference "Task") := by
  have tracked (name : String) (h : View.Tracks ⟨board, .api "app"⟩ (.reference "Task") name) :
      name ∈ ["Person", "State", "Task"] := by
    refine h.mem_of_closed (by decide +kernel) ?_
    intro x hx t ht
    simp only [List.mem_cons, List.not_mem_nil, or_false] at hx
    rcases hx with rfl | rfl | rfl
    · cases ht
    · cases ht
      decide +kernel
    · cases ht
      decide +kernel
  have same (name : String) (h : View.Tracks ⟨board, .api "app"⟩ (.reference "Task") name) :
      sharedBoard.resolve (.api "app") name = board.resolve (.api "app") name := by
    have named := tracked name h
    simp only [List.mem_cons, List.not_mem_nil, or_false] at named
    rcases named with rfl | rfl | rfl <;> rfl
  exact ⟨same, (walksAlike_of_tracks board sharedBoard (.api "app") (.reference "Task") same).1⟩

end ApiContract
