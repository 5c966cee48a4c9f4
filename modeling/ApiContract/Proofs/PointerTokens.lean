import ApiContract.Issue.Basic

/-!
# The tokens of a pointer

A pointer is read back into the texts of the steps it was made from: escaping leaves no slash
inside a step, and unescaping undoes it. The text of a position in a list is read back as well, so
the tokens of a pointer can be followed through a value.
-/

namespace ApiContract

namespace Pointer

/-- Escaped tokens are read back. -/
theorem unescapeChars_escapeChars (cs : List Char) : unescapeChars (escapeChars cs) = cs := by
  induction cs with
  | nil => rfl
  | cons c rest ih =>
    have hc : escapeChars (c :: rest) = escapeChar c ++ escapeChars rest := rfl
    by_cases ht : c = '~'
    · subst ht
      rw [hc]
      change '~' :: unescapeChars (escapeChars rest) = _
      rw [ih]
    · by_cases hs : c = '/'
      · subst hs
        rw [hc]
        change '/' :: unescapeChars (escapeChars rest) = _
        rw [ih]
      · have hp : escapeChar c = [c] := by simp [escapeChar, ht, hs]
        have hu : unescapeChars (c :: escapeChars rest) = c :: unescapeChars (escapeChars rest) :=
          unescapeChars.eq_3 c _ (fun _ h _ => ht h) (fun _ h _ => ht h)
        rw [hc, hp, List.singleton_append, hu, ih]

/-- No slash stands inside an escaped token. -/
theorem slash_not_mem_escapeChars (cs : List Char) : '/' ∉ escapeChars cs := by
  intro h
  obtain ⟨c, -, hc⟩ := List.mem_flatMap.mp h
  by_cases ht : c = '~'
  · simp [escapeChar, ht] at hc
  · by_cases hs : c = '/' <;> simp [escapeChar, ht, hs] at hc
    exact hs hc.symm

/-- A part without slashes is split off whole at the next slash. -/
theorem splitSlash_append (part rest : List Char) (h : '/' ∉ part) :
    splitSlash (part ++ '/' :: rest) = part :: splitSlash rest := by
  induction part with
  | nil => simp [splitSlash]
  | cons c part ih =>
    have hc : c ≠ '/' := by rintro rfl; simp at h
    have hp := ih (by intro hm; exact h (List.mem_cons_of_mem _ hm))
    simp [splitSlash, hc, hp]

theorem splitSlash_of_not_mem (part : List Char) (h : '/' ∉ part) : splitSlash part = [part] := by
  induction part with
  | nil => rfl
  | cons c part ih =>
    have hc : c ≠ '/' := by rintro rfl; simp at h
    have hp := ih (by intro hm; exact h (List.mem_cons_of_mem _ hm))
    simp [splitSlash, hc, hp]

def render (tokens : List String) : List Char :=
  tokens.flatMap fun token => '/' :: escapeChars token.toList

@[simp] theorem render_nil : render [] = [] := rfl

@[simp] theorem render_cons (token : String) (tokens : List String) :
    render (token :: tokens) = '/' :: (escapeChars token.toList ++ render tokens) := rfl

theorem splitSlash_render (token : String) (tokens : List String) :
    splitSlash (escapeChars token.toList ++ render tokens) =
      (token :: tokens).map fun token => escapeChars token.toList := by
  induction tokens generalizing token with
  | nil => simpa using splitSlash_of_not_mem _ (slash_not_mem_escapeChars _)
  | cons next tokens ih =>
    rw [render_cons, splitSlash_append _ _ (slash_not_mem_escapeChars _), ih]
    rfl

theorem toList_pointer (path : Path) : path.pointer.toList = render (path.map PathSegment.text) := by
  simp [Path.pointer, String.toList_join, render, escape, List.flatMap_map]

/-- Reading a pointer gives back the texts of the steps of its path. -/
theorem parse_pointer (path : Path) :
    parse path.pointer = path.map PathSegment.text := by
  have hu : ∀ token : String, String.ofList (unescapeChars (escapeChars token.toList)) = token := by
    intro token
    rw [unescapeChars_escapeChars, String.ofList_toList]
  rw [parse, toList_pointer]
  cases path.map PathSegment.text with
  | nil => rfl
  | cons token tokens =>
    simp only [render_cons]
    rw [splitSlash_render]
    simp [Function.comp_def, hu]

/-! ### Positions -/

def index? (token : String) : Option Nat :=
  let n := Decimal.natOfDigits token.toList
  if Json.natText n = token then some n else none

theorem natOfDigits_digitsOfNat (n : Nat) : Decimal.natOfDigits (Decimal.digitsOfNat n) = n := by
  have h := Nat.ofDigitChars_toDigits (b := 10) (n := n) (by decide) (by decide)
  rw [Nat.ofDigitChars_eq_foldl] at h
  exact h

@[simp] theorem index?_natText (n : Nat) : index? (Json.natText n) = some n := by
  have hn : Decimal.natOfDigits (Json.natText n).toList = n := by
    simp [Json.natText, natOfDigits_digitsOfNat]
  simp [index?, hn]

end Pointer

end ApiContract
