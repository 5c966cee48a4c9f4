/-!
# Tables keyed by text, in key order

A table is a list of pairs whose keys increase strictly by code point. `insert` and `erase` keep
that order; `get?`, `replace` and `mapValues` make no use of it.
-/

namespace ApiContract

abbrev Keyed (α : Type) := List (String × α)

namespace Keyed

variable {α β : Type}

def get? (t : Keyed α) (key : String) : Option α := t.lookup key

def contains (t : Keyed α) (key : String) : Bool := (t.get? key).isSome

def keys (t : Keyed α) : List String := t.map (·.1)

def values (t : Keyed α) : List α := t.map (·.2)

/-- Puts a value at its key's place, over the value that stood there. -/
def insert (key : String) (value : α) : Keyed α → Keyed α
  | [] => [(key, value)]
  | (k, v) :: rest =>
    if key < k then (key, value) :: (k, v) :: rest
    else if key = k then (key, value) :: rest
    else (k, v) :: insert key value rest

def erase (key : String) (t : Keyed α) : Keyed α := t.filter (·.1 != key)

/-- Changes the value under a key and leaves the table alone where there is none. -/
def modify (key : String) (f : α → α) : Keyed α → Keyed α
  | [] => []
  | (k, v) :: rest => if k = key then (k, f v) :: rest else (k, v) :: modify key f rest

/-- Inserts one after another, so that of two values for a key the later stays. -/
def ofList (pairs : List (String × α)) : Keyed α :=
  pairs.foldl (fun t p => insert p.1 p.2 t) []

/-- All pairs of `other` inserted over those of `t`. -/
def union (t other : Keyed α) : Keyed α :=
  other.foldl (fun t p => insert p.1 p.2 t) t

def mapValues (f : α → β) (t : Keyed α) : Keyed β := t.map fun p => (p.1, f p.2)

/-- The order a table keeps. -/
def Sorted (t : Keyed α) : Prop := t.keys.Pairwise (· < ·)

@[simp] theorem get?_nil (key : String) : get? ([] : Keyed α) key = none := rfl

@[simp] theorem modify_nil (key : String) (f : α → α) : modify key f [] = [] := rfl

theorem get?_insert_self (key : String) (value : α) (t : Keyed α) :
    get? (insert key value t) key = some value := by
  induction t with
  | nil => simp [insert, get?]
  | cons p rest ih =>
    obtain ⟨k, v⟩ := p
    simp only [insert]
    split
    · simp [get?]
    · rename_i hlt
      split
      · simp [get?]
      · rename_i hne
        have hbeq : (key == k) = false := by simpa using hne
        rw [get?, List.lookup_cons, hbeq]
        exact ih

theorem get?_modify (key other : String) (f : α → α) (t : Keyed α) :
    get? (modify key f t) other = if other = key then (get? t other).map f else get? t other := by
  induction t with
  | nil => simp
  | cons p rest ih =>
    obtain ⟨k, v⟩ := p
    simp only [get?, modify] at ih ⊢
    by_cases hk : k = key
    · subst hk
      by_cases ho : other = k
      · simp [ho]
      · have hb : (other == k) = false := by simpa using ho
        simp only [if_pos, List.lookup_cons, hb, if_neg ho]
    · by_cases ho : other = k
      · simp [hk, ho]
      · have hb : (other == k) = false := by simpa using ho
        simp [hk, List.lookup_cons, hb, ih]

@[simp] theorem keys_modify (key : String) (f : α → α) (t : Keyed α) :
    (modify key f t).keys = t.keys := by
  induction t with
  | nil => rfl
  | cons p rest ih =>
    obtain ⟨k, v⟩ := p
    simp only [keys, modify] at ih ⊢
    split
    · rfl
    · simp [ih]

theorem mem_keys_iff (key : String) (t : Keyed α) : key ∈ t.keys ↔ ∃ v, t.get? key = some v := by
  induction t with
  | nil => simp [keys]
  | cons p rest ih =>
    obtain ⟨k, v⟩ := p
    simp only [keys, get?, List.map_cons, List.mem_cons, List.lookup_cons] at ih ⊢
    by_cases h : key = k
    · simp [h]
    · have hb : (key == k) = false := by simpa using h
      simp only [h, false_or, hb, ih]

/-- A table whose value under a key a function leaves alone is left alone by it. -/
theorem modify_eq_self (key : String) (f : α → α) (t : Keyed α)
    (h : ∀ v, t.get? key = some v → f v = v) : modify key f t = t := by
  induction t with
  | nil => rfl
  | cons p rest ih =>
    obtain ⟨k, v⟩ := p
    simp only [modify]
    split
    · rename_i hk
      rw [h v (by simp [get?, hk])]
    · rename_i hk
      have hb : (key == k) = false := by simpa using Ne.symm hk
      rw [ih fun w hw => h w (by rw [get?, List.lookup_cons, hb]; exact hw)]

end Keyed

/-- The distinct members of a list in increasing order. -/
def sortedNames (names : List String) : List String :=
  (Keyed.ofList (names.map fun n => (n, ()))).keys

end ApiContract
