import ApiContract.Proofs.PointerTokens

/-!
# Escaping by replacement

A token is escaped by putting `~0` for every `~` and then `~1` for every `/`, and unescaped by
undoing the two in the opposite order. Character by character that is one pass each way, so that a
pointer tells the texts of its path, whatever these hold: the empty text, slashes, or what looks
escaped already.
-/

namespace ApiContract

namespace Pointer

/-- Puts one text in place of another wherever it stands, from left to right; some characters of an
occurrence are still to be passed over. What is put in is not looked at again. -/
def replacing (old new : List Char) : Nat → List Char → List Char
  | _, [] => []
  | passed + 1, _ :: rest => replacing old new passed rest
  | 0, c :: rest =>
    if old.isPrefixOf (c :: rest) then new ++ replacing old new (old.length - 1) rest
    else c :: replacing old new 0 rest

def replaceAll (old new cs : List Char) : List Char := replacing old new 0 cs

@[simp] theorem replaceAll_nil (old new : List Char) : replaceAll old new [] = [] := by
  rw [replaceAll, replacing]

theorem replaceAll_char (a : Char) (new cs : List Char) :
    replaceAll [a] new cs = cs.flatMap fun c => if c = a then new else [c] := by
  induction cs with
  | nil => simp
  | cons c rest ih =>
    rw [List.flatMap_cons, ← ih]
    by_cases h : c = a
    · simp [replaceAll, replacing, h]
    · simp [replaceAll, replacing, h, Ne.symm h]

section Pair

variable {a b c : Char} {new rest : List Char}

theorem replaceAll_pair :
    replaceAll [a, b] new (a :: b :: rest) = new ++ replaceAll [a, b] new rest := by
  simp [replaceAll, replacing]

theorem replaceAll_pair_other (h : ∀ tail, c :: rest ≠ a :: b :: tail) :
    replaceAll [a, b] new (c :: rest) = c :: replaceAll [a, b] new rest := by
  have apart : [a, b].isPrefixOf (c :: rest) = false := by
    rw [Bool.eq_false_iff, ne_eq, List.isPrefixOf_iff_prefix]
    rintro ⟨tail, split⟩
    exact h tail split.symm
  simp [replaceAll, replacing, apart]

end Pair

/-- The second replacement finds no slash that the first one has put in. -/
theorem escapeChars_eq_replaceAll (cs : List Char) :
    escapeChars cs = replaceAll ['/'] ['~', '1'] (replaceAll ['~'] ['~', '0'] cs) := by
  rw [replaceAll_char, replaceAll_char, List.flatMap_assoc, escapeChars]
  refine congrArg (cs.flatMap ·) (funext fun c => ?_)
  by_cases ht : c = '~'
  · simp [escapeChar, ht]
  · simp [escapeChar, ht]

/-- Where slashes are put in, a text that starts with another character than `0` still does. -/
theorem replaceAll_slash_ne {rest : List Char} (h : ∀ tail, rest ≠ '0' :: tail)
    (tail : List Char) : replaceAll ['~', '1'] ['/'] rest ≠ '0' :: tail := by
  cases rest with
  | nil => simp
  | cons c rest =>
    by_cases pair : ∃ tail, c :: rest = '~' :: '1' :: tail
    · obtain ⟨tail', is⟩ := pair
      rw [is, replaceAll_pair]
      simp
    · rw [replaceAll_pair_other fun tail is => pair ⟨tail, is⟩]
      intro is
      exact h rest (by rw [(List.cons.inj is).1])

/-- The second replacement finds no `~0` that the first one has made. -/
theorem unescapeChars_eq_replaceAll (cs : List Char) :
    unescapeChars cs = replaceAll ['~', '0'] ['~'] (replaceAll ['~', '1'] ['/'] cs) := by
  fun_induction unescapeChars cs with
  | case1 rest ih =>
    rw [replaceAll_pair, List.singleton_append, replaceAll_pair_other (by simp), ih]
  | case2 rest ih =>
    have inner : replaceAll ['~', '1'] ['/'] ('~' :: '0' :: rest) =
        '~' :: '0' :: replaceAll ['~', '1'] ['/'] rest := by
      rw [replaceAll_pair_other (by simp), replaceAll_pair_other (by simp)]
    rw [inner, replaceAll_pair, List.singleton_append, ih]
  | case3 c rest slash tilde ih =>
    have inner : replaceAll ['~', '1'] ['/'] (c :: rest) = c :: replaceAll ['~', '1'] ['/'] rest :=
      replaceAll_pair_other fun tail is => slash tail (List.cons.inj is).1 (List.cons.inj is).2
    have outer (tail : List Char) :
        c :: replaceAll ['~', '1'] ['/'] rest ≠ '~' :: '0' :: tail := by
      intro is
      obtain ⟨first, next⟩ := List.cons.inj is
      exact replaceAll_slash_ne (fun tail => tilde tail first) tail next
    rw [inner, replaceAll_pair_other outer, ih]
  | case4 => simp

/-- A pointer tells the texts of the steps of its path, and nothing else does: paths share a pointer
just where they have the same texts. A token has no slash once it is escaped, which is two
replacements, and the same is so of unescaping. -/
theorem pointers_tell_paths :
    (∀ path : Path, parse path.pointer = path.map PathSegment.text) ∧
      (∀ p q : Path, p.pointer = q.pointer ↔ p.map PathSegment.text = q.map PathSegment.text) ∧
      (∀ token : String, '/' ∉ (escape token).toList) ∧
      ∀ token : String,
        (escape token).toList =
            replaceAll ['/'] ['~', '1'] (replaceAll ['~'] ['~', '0'] token.toList) ∧
          (unescape token).toList =
            replaceAll ['~', '0'] ['~'] (replaceAll ['~', '1'] ['/'] token.toList) := by
  refine ⟨parse_pointer, fun p q => ⟨fun same => ?_, fun same => ?_⟩, fun token => ?_,
    fun token => ?_⟩
  · rw [← parse_pointer p, same, parse_pointer q]
  · rw [← String.toList_inj, toList_pointer, toList_pointer, same]
  · rw [escape, String.toList_ofList]
    exact slash_not_mem_escapeChars token.toList
  · rw [escape, unescape, String.toList_ofList, String.toList_ofList]
    exact ⟨escapeChars_eq_replaceAll _, unescapeChars_eq_replaceAll _⟩

/-- No step and an empty one are two pointers, and what looks escaped is read back as it was. -/
example : Path.pointer [] = "" ∧ Path.pointer [.key ""] = "/" ∧
    Path.pointer [.key "~01", .key "", .index 7] = "/~001//7" ∧
    Pointer.parse "/~001//7" = ["~01", "", "7"] := by
  decide +kernel

end Pointer

end ApiContract
