import ApiContract.Json

/-!
# Reading records out of JSON

A record is written as an object with known keys; keys it does not know are passed over. A `null`
stands for an absent optional value only.
-/

namespace ApiContract

theorem exists_of_mem_mapM {α β : Type} {f : α → Option β} {xs : List α} {ys : List β}
    (h : xs.mapM f = some ys) {y : β} (hy : y ∈ ys) : ∃ x ∈ xs, f x = some y := by
  induction xs generalizing ys with
  | nil =>
    cases h
    cases hy
  | cons x rest ih =>
    rw [List.mapM_cons] at h
    obtain ⟨z, hz, h⟩ := Option.bind_eq_some_iff.mp h
    obtain ⟨zs, hzs, h⟩ := Option.bind_eq_some_iff.mp h
    cases h
    rcases List.mem_cons.mp hy with rfl | hy
    · exact ⟨x, List.mem_cons_self, hz⟩
    · obtain ⟨x', hx, found⟩ := ih hzs hy
      exact ⟨x', List.mem_cons_of_mem x hx, found⟩

namespace Json

variable {α : Type}

/-- A member that must be there. -/
def required (record : Keyed Json) (key : String) (read : Json → Option α) : Option α :=
  record.get? key >>= read

/-- A member that may be missing or `null`. -/
def optional (record : Keyed Json) (key : String) (read : Json → Option α) :
    Option (Option α) :=
  match record.get? key with
  | none | some .null => some none
  | some j => (read j).map some

/-- A member that may be missing, with the value it then has; `null` is no such value. -/
def defaulted (record : Keyed Json) (key : String) (default : α) (read : Json → Option α) :
    Option α :=
  match record.get? key with
  | none => some default
  | some j => read j

/-- The members of a record whose keys are `keys` in order. A list gives the first ones by place. -/
def recordOf? (keys : List String) : Json → Option (Keyed Json)
  | .object members => some members
  | .array elements =>
    if elements.length ≤ keys.length then some (Keyed.ofList (keys.zip elements)) else none
  | _ => none

/-- The name of a choice without content: a string, or an object with that one key over `null`. -/
def choice? : Json → Option String
  | .string s => some s
  | .object [(name, .null)] => some name
  | _ => none

/-- A list whose elements are all readable. -/
def listOf? (read : Json → Option α) (j : Json) : Option (List α) := do
  (← j.array?).mapM read

/-- What is in a list was read from one of its elements. -/
theorem exists_of_mem_listOf? {read : Json → Option α} {j : Json} {xs : List α}
    (h : listOf? read j = some xs) {x : α} (hx : x ∈ xs) : ∃ j, read j = some x := by
  obtain ⟨js, -, h⟩ := Option.bind_eq_some_iff.mp h
  obtain ⟨j, -, found⟩ := exists_of_mem_mapM h hx
  exact ⟨j, found⟩

def any? (j : Json) : Option Json := some j

/-- Members for an object: a key with a value, unless there is none. -/
def present (key : String) (value : Option Json) : List (String × Json) :=
  match value with
  | some v => [(key, v)]
  | none => []

/-- Members for an object: a key with `true`, only if the flag is set. -/
def flagged (key : String) (flag : Bool) : List (String × Json) :=
  if flag then [(key, .bool true)] else []

end Json

end ApiContract
