import Mathlib.Data.List.Basic

/-!
# Places in a literal

In a script a pattern stands between two slashes, as a literal. A slash in it ends the literal unless
it is escaped or within a class, and so does the end of a line. So a text between slashes is read with
two things in mind: whether a class is open, and whether the next character is escaped.
-/

namespace ApiContract

def endsLine (c : Char) : Bool := c == '\n' || c == '\r' || c == '\u2028' || c == '\u2029'

def finalBackslashes (cs : List Char) : Nat := (cs.reverse.takeWhile (· == '\\')).length

/-- A delimiter within a delimited text cuts what is between the outer ones. -/
theorem eq_of_delimited {c : Char} {body front back : List Char}
    (split : c :: body ++ [c] = c :: front ++ c :: back) (strictly : back ≠ []) :
    body = front ++ c :: back.dropLast := by
  rw [List.cons_append, List.cons_append, List.cons.injEq] at split
  have same := congrArg List.dropLast split.2
  rwa [List.dropLast_concat, List.dropLast_append_cons, List.dropLast_cons_of_ne_nil strictly]
    at same

/-! ### Literals -/

/-- A place between the slashes of a literal: whether it lies in a class, and whether the character
there is escaped. -/
structure LiteralPlace where
  inClass : Bool := false
  escaped : Bool := false
  deriving DecidableEq

namespace LiteralPlace

/-- Where a literal begins, and where a slash ends it. -/
def plain : LiteralPlace := {}

def after (p : LiteralPlace) (c : Char) : LiteralPlace :=
  if p.escaped then { p with escaped := false }
  else if c = '\\' then { p with escaped := true }
  else if c = '[' then { p with inClass := true }
  else if c = ']' then { p with inClass := false }
  else p

def behind (p : LiteralPlace) (cs : List Char) : LiteralPlace := cs.foldl after p

/-- What follows the slash that ends a literal, if one does. -/
def following? (p : LiteralPlace) : List Char → Option (List Char)
  | [] => none
  | c :: rest =>
    if endsLine c then none
    else if c = '/' ∧ p = plain then some rest
    else (p.after c).following? rest

def slashes (p : LiteralPlace) (kind : LiteralPlace → Bool) : List Char → Nat
  | [] => 0
  | c :: rest => (p.after c).slashes kind rest + if c = '/' ∧ kind p = true then 1 else 0

/-- What a character adds to a text without the backslashes in front of its slashes. A backslash
adds nothing before it is known what follows. -/
def spelling (p : LiteralPlace) (c : Char) : List Char :=
  if p.escaped then if c = '/' then [c] else ['\\', c]
  else if c = '\\' then [] else [c]

def bare (p : LiteralPlace) : List Char → List Char
  | [] => if p.escaped then ['\\'] else []
  | c :: rest => p.spelling c ++ (p.after c).bare rest

end LiteralPlace

open LiteralPlace (plain)

/-! ### Places -/

namespace LiteralPlace

variable {p : LiteralPlace} {c : Char} {cs : List Char} {kind : LiteralPlace → Bool}

@[simp] theorem behind_nil (p : LiteralPlace) : p.behind [] = p := rfl

@[simp] theorem behind_cons (p : LiteralPlace) (c : Char) (cs : List Char) :
    p.behind (c :: cs) = (p.after c).behind cs := rfl

theorem behind_append_singleton (p : LiteralPlace) (cs : List Char) (c : Char) :
    p.behind (cs ++ [c]) = (p.behind cs).after c := by
  simp [behind]

/-- A backslash escapes what follows unless it is escaped itself. -/
@[simp] theorem escaped_after (p : LiteralPlace) (c : Char) :
    (p.after c).escaped = (!p.escaped && c == '\\') := by
  unfold after
  split
  · simp [*]
  split
  · simp [*]
  split
  · simp [*]
  split <;> simp_all

/-- A character is escaped exactly if an odd number of backslashes stands in front of it. -/
theorem escaped_behind (cs : List Char) :
    (plain.behind cs).escaped = true ↔ finalBackslashes cs % 2 = 1 := by
  have reversed : ∀ back : List Char, (plain.behind back.reverse).escaped = true ↔
      (back.takeWhile (· == '\\')).length % 2 = 1 := by
    intro back
    induction back with
    | nil => simp [plain]
    | cons c back ih =>
      rw [List.reverse_cons, behind_append_singleton, escaped_after, List.takeWhile_cons]
      by_cases hc : c = '\\'
      · simp only [hc, BEq.rfl, Bool.and_true, if_true, List.length_cons, Bool.not_eq_true']
        rw [← Bool.not_eq_true, ih]
        omega
      · simp [hc]
  rw [finalBackslashes, ← reversed cs.reverse, List.reverse_reverse]

/-! ### Slashes -/

/-- Counting slashes of a kind is asking at each slash for its place. -/
theorem slashes_eq_zero_iff (p : LiteralPlace) (kind : LiteralPlace → Bool) (cs : List Char) :
    p.slashes kind cs = 0 ↔
      ∀ front back, cs = front ++ '/' :: back → kind (p.behind front) = false := by
  induction cs generalizing p with
  | nil => simp [slashes]
  | cons c rest ih =>
    rw [slashes, Nat.add_eq_zero_iff, ih]
    constructor
    · rintro ⟨later, here⟩ front back he
      cases front with
      | nil =>
        obtain ⟨rfl, -⟩ := List.cons.inj he
        simpa using here
      | cons d front =>
        rw [List.cons_append, List.cons.injEq] at he
        obtain ⟨rfl, he⟩ := he
        exact later front back he
    · intro all
      refine ⟨fun front back he => all (c :: front) back (he ▸ rfl), ?_⟩
      have here : c = '/' → kind p = false := fun hc => all [] rest (by rw [hc]; rfl)
      simpa using here

/-- A text and a slash after it: the slash ends the literal, and it is the first to do so. -/
theorem following?_append_slash (p : LiteralPlace) (body : List Char) :
    p.following? (body ++ ['/']) = some [] ↔
      (∀ c ∈ body, endsLine c = false) ∧ p.slashes (· = plain) body = 0 ∧
        p.behind body = plain := by
  induction body generalizing p with
  | nil =>
    have slash : endsLine '/' = false := by decide
    by_cases hp : p = plain <;> simp [following?, slashes, slash, hp]
  | cons c body ih =>
    rw [List.cons_append, following?, slashes, behind_cons, List.forall_mem_cons]
    by_cases hl : endsLine c = true
    · simp [hl]
    by_cases hc : c = '/' ∧ p = plain
    · simp [hc]
    · simp [hl, hc, ih]

end LiteralPlace

/-! ### Escaped texts -/

def escapeSlashes (cs : List Char) : List Char :=
  cs.flatMap fun c => if c = '/' then ['\\', '/'] else [c]

@[simp] theorem escapeSlashes_nil : escapeSlashes [] = [] := rfl

@[simp] theorem escapeSlashes_slash (rest : List Char) :
    escapeSlashes ('/' :: rest) = '\\' :: '/' :: escapeSlashes rest := rfl

theorem escapeSlashes_cons {c : Char} (h : c ≠ '/') (rest : List Char) :
    escapeSlashes (c :: rest) = c :: escapeSlashes rest := by
  simp [escapeSlashes, h]

theorem oneLine_escapeSlashes (cs : List Char) :
    (∀ c ∈ escapeSlashes cs, endsLine c = false) ↔ ∀ c ∈ cs, endsLine c = false := by
  induction cs with
  | nil => simp
  | cons c rest ih =>
    by_cases hc : c = '/'
    · have backslash : endsLine '\\' = false := by decide
      simp [hc, ih, backslash]
    · simp [escapeSlashes_cons hc, ih]

namespace LiteralPlace

/-- The escape of a slash leads where the slash alone would. -/
theorem after_escape (p : LiteralPlace) : (p.after '\\').after '/' = p.after '/' := by
  rcases p with ⟨_ | _, _ | _⟩ <;> rfl

theorem behind_escapeSlashes (p : LiteralPlace) (cs : List Char) :
    p.behind (escapeSlashes cs) = p.behind cs := by
  induction cs generalizing p with
  | nil => rfl
  | cons c rest ih =>
    by_cases hc : c = '/'
    · simp [hc, ih, after_escape]
    · simp [escapeSlashes_cons hc, ih]

/-- A slash ends the literal too early if it had a backslash of its own, outside of a class. -/
theorem slashes_escapeSlashes (p : LiteralPlace) (cs : List Char) :
    p.slashes (· = plain) (escapeSlashes cs) = p.slashes (· = { escaped := true }) cs := by
  induction cs generalizing p with
  | nil => rfl
  | cons c rest ih =>
    by_cases hc : c = '/'
    · have lifted : p.after '\\' = plain ↔ p = { escaped := true } := by
        rcases p with ⟨_ | _, _ | _⟩ <;> decide
      simp [hc, slashes, ih, after_escape, lifted]
    · simp [escapeSlashes_cons hc, slashes, hc, ih]

/-- A character counts once, and a backslash only once it is known what follows. -/
theorem length_spelling (p : LiteralPlace) (c : Char) :
    (p.spelling c).length + (if c = '/' ∧ p.escaped = true then 1 else 0) +
      (p.after c).escaped.toNat = 1 + p.escaped.toNat := by
  rw [escaped_after, spelling]
  cases p.escaped with
  | true => by_cases hc : c = '/' <;> simp [hc]
  | false => by_cases hc : c = '\\' <;> simp [hc]

theorem length_bare (p : LiteralPlace) (cs : List Char) :
    (p.bare cs).length + p.slashes escaped cs = cs.length + p.escaped.toNat := by
  induction cs generalizing p with
  | nil => cases h : p.escaped <;> simp [bare, slashes, h]
  | cons c rest ih =>
    have here := length_spelling p c
    have later := ih (p.after c)
    simp only [bare, slashes, List.length_append, List.length_cons]
    omega

/-- With each slash escaped once more, an escaped slash takes two more characters to spell. -/
theorem length_bare_escapeSlashes (p : LiteralPlace) (cs : List Char) :
    (p.bare (escapeSlashes cs)).length = cs.length + p.escaped.toNat + p.slashes escaped cs := by
  induction cs generalizing p with
  | nil => cases h : p.escaped <;> simp [bare, slashes, h]
  | cons c rest ih =>
    have later := ih (p.after c)
    by_cases hc : c = '/'
    · subst hc
      have here : (p.spelling '\\' ++ (p.after '\\').spelling '/').length =
          1 + 2 * p.escaped.toNat := by
        simp only [spelling, escaped_after]
        cases p.escaped <;> rfl
      have opened : (p.after '/').escaped = false := by simp
      have counted : (if '/' = '/' ∧ p.escaped = true then 1 else 0) = p.escaped.toNat := by
        cases p.escaped <;> rfl
      rw [escapeSlashes_slash, bare, bare, after_escape, ← List.append_assoc, List.length_append,
        later, here, slashes, counted, opened, List.length_cons]
      simp only [Bool.toNat_false]
      omega
    · have here := length_spelling p c
      rw [escapeSlashes_cons hc, bare, slashes, List.length_append, later, List.length_cons]
      simp only [hc, false_and, if_false] at here ⊢
      omega

/-- Escaping slashes that were not escaped changes nothing of what is spelled. -/
theorem bare_escapeSlashes {p : LiteralPlace} {cs : List Char} (h : p.slashes escaped cs = 0) :
    p.bare (escapeSlashes cs) = p.bare cs := by
  induction cs generalizing p with
  | nil => rfl
  | cons c rest ih =>
    rw [slashes, Nat.add_eq_zero_iff] at h
    obtain ⟨later, here⟩ := h
    by_cases hc : c = '/'
    · subst hc
      have unescaped : p.escaped = false := by simpa using here
      rw [escapeSlashes_slash, bare, bare, bare, after_escape, ih later]
      simp [spelling, unescaped]
    · rw [escapeSlashes_cons hc, bare, bare, ih later]

/-- Escaping the slashes of a text keeps what it spells if none was escaped before. -/
theorem bare_escapeSlashes_iff (cs : List Char) :
    plain.bare (escapeSlashes cs) = plain.bare cs ↔ plain.slashes escaped cs = 0 := by
  refine ⟨fun same => ?_, bare_escapeSlashes⟩
  have written := length_bare_escapeSlashes plain cs
  have source := length_bare plain cs
  rw [same] at written
  omega

end LiteralPlace

end ApiContract
