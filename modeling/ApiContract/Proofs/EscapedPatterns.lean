import ApiContract.Proofs.EscapedClasses
import ApiContract.Proofs.LiteralPlaces

/-!
# Patterns whose slashes are escaped

A pattern with its slashes escaped is read as the same pattern, given that none was escaped before.
Each reader of a part of the notation leaves two such texts behind where it started from two, and the
reader of branches needs no more steps than it has for the longer text.
-/

namespace ApiContract.Pattern

/-! ### Repetitions -/

theorem escapes_dropBlank {cs es : List Char} (h : Escapes cs es) :
    Escapes (cs.dropWhile isBlank) (es.dropWhile isBlank) :=
  (h.span (by decide) (isPlain_takeWhile (by decide) (by decide) cs)).2

theorem escapes_readCount {cs es : List Char} (h : Escapes cs es) :
    (readCount es).1 = (readCount cs).1 ∧ Escapes (readCount cs).2 (readCount es).2 := by
  have start := escapes_dropBlank h
  obtain ⟨digits, left⟩ :=
    start.span (p := Char.isDigit) (by decide) (isPlain_takeWhile (by decide) (by decide) _)
  simp only [readCount, drop_takeWhile]
  exact ⟨by rw [digits], escapes_dropBlank left⟩

/-- Counts and their commas are not escaped. -/
theorem alike_readBounds (f : Flags) : Alike (readBounds f) (readBounds f) := by
  intro cs es a rest h hr
  obtain ⟨least, h⟩ := escapes_readCount (escapes_skipVerbose f h)
  simp only [readBounds, least] at hr ⊢
  obtain ⟨count, hc, hr⟩ := Option.bind_eq_some_iff.mp hr
  simp only [hc, Option.bind_eq_bind, Option.bind_some]
  replace h := escapes_skipVerbose f h
  generalize skipVerbose f (readCount (skipVerbose f cs)).2 = cs at h hr
  generalize skipVerbose f (readCount (skipVerbose f es)).2 = es at h ⊢
  split at hr
  · obtain ⟨es, rfl, behind⟩ := h.of_cons (by decide) (by decide)
    cases hr
    exact ⟨es, rfl, behind⟩
  · obtain ⟨es, rfl, behind⟩ := h.of_cons (by decide) (by decide)
    rename_i cs
    replace behind := escapes_skipVerbose f behind
    simp only
    generalize skipVerbose f cs = cs at behind hr
    generalize skipVerbose f es = es at behind ⊢
    split at hr
    · obtain ⟨es, rfl, left⟩ := behind.of_cons (by decide) (by decide)
      cases hr
      exact ⟨es, rfl, left⟩
    · rename_i notClosing
      split
      · obtain ⟨_, rfl, -⟩ := behind.to_cons (by decide) (by decide)
        exact absurd rfl (notClosing _)
      · obtain ⟨most, behind⟩ := escapes_readCount behind
        obtain ⟨upper, hu, hr⟩ := Option.bind_eq_some_iff.mp hr
        simp only [most, hu, Option.bind_some]
        replace behind := escapes_skipVerbose f behind
        generalize skipVerbose f (readCount cs).2 = cs at behind hr
        generalize skipVerbose f (readCount es).2 = es at behind ⊢
        split at hr
        · obtain ⟨es, rfl, left⟩ := behind.of_cons (by decide) (by decide)
          split at hr
          · cases hr
            exact ⟨es, by simp [*], left⟩
          · cases hr
        · cases hr
  · cases hr

theorem escapes_skipLazy (f : Flags) {cs es : List Char} (h : Escapes cs es) :
    Escapes (skipLazy f cs) (skipLazy f es) := by
  replace h := escapes_skipVerbose f h
  unfold skipLazy
  generalize skipVerbose f cs = cs at h ⊢
  generalize skipVerbose f es = es at h ⊢
  split
  · obtain ⟨es, rfl, behind⟩ := h.of_cons (by decide) (by decide)
    exact behind
  · rename_i notLazy
    split
    · obtain ⟨_, rfl, -⟩ := h.to_cons (by decide) (by decide)
      exact absurd rfl (notLazy _)
    · exact h

/-! ### Groups -/

theorem set?_eq_none (f : Flags) (value : Bool) {c : Char} (h : c = '/' ∨ c = '\\') :
    f.set? value c = none := by
  rcases h with rfl | rfl <;> rfl

theorem readFlags_eq_none {f : Flags} {seen : List Char} {negated : Bool} {last cs : List Char}
    {c : Char} (h : c = '/' ∨ c = '\\') : readFlags f seen negated last (c :: cs) = none := by
  have notEnd : ¬ (c = ':' ∨ c = ')') := by rcases h with rfl | rfl <;> decide
  have notSign : c ≠ '-' := by rcases h with rfl | rfl <;> decide
  rw [readFlags, if_neg notEnd, if_neg notSign, set?_eq_none f _ h]
  split <;> rfl

/-- Flags are letters, so reading them takes as many characters of either text. -/
theorem alike_readFlags {f f' : Flags} {seen : List Char} {negated : Bool} {last : List Char}
    {cs es rest : List Char} {closing : Char} (h : Escapes cs es)
    (hr : readFlags f seen negated last cs = some (f', closing, rest)) :
    ∃ rest', readFlags f seen negated last es = some (f', closing, rest') ∧ Escapes rest rest' ∧
      es.length + rest.length = cs.length + rest'.length := by
  induction h generalizing f seen negated last with
  | nil => cases hr
  | slash =>
    rw [readFlags_eq_none (.inl rfl)] at hr
    cases hr
  | escape | backslash =>
    rw [readFlags_eq_none (.inr rfl)] at hr
    cases hr
  | @other c cs es hs hb h ih =>
    rw [readFlags] at hr ⊢
    split at hr <;> rename_i closes
    · split at hr <;> rename_i sign
      · cases hr
      · cases hr
        exact ⟨es, by rw [if_pos closes, if_neg sign], h, by simp only [List.length_cons]; omega⟩
    split at hr <;> rename_i sign
    · split at hr <;> rename_i second
      · cases hr
      · obtain ⟨rest', hr', h', lengths⟩ := ih hr
        exact ⟨rest', by rw [if_neg closes, if_pos sign, if_neg second, hr'], h', by
          simp only [List.length_cons]; omega⟩
    split at hr <;> rename_i again
    · cases hr
    · obtain ⟨f', hf, hr⟩ := Option.bind_eq_some_iff.mp hr
      obtain ⟨rest', hr', h', lengths⟩ := ih hr
      exact ⟨rest', by rw [if_neg closes, if_neg sign, if_neg again, hf]; exact hr', h', by
        simp only [List.length_cons]; omega⟩

/-- A name of a capture has no slash. -/
theorem alike_readGroupName (f : Flags) : Alike (readGroupName f) (readGroupName f) := by
  intro cs es a rest h hr
  simp only [readGroupName, drop_takeWhile_succ] at hr ⊢
  split at hr
  · rename_i named
    obtain ⟨taken, left⟩ :=
      h.upTo (by decide) (by decide) (isPlain_of_isCaptureName named.1)
    have here := length_takeWhile_add (· != '>') cs
    have there := length_takeWhile_add (· != '>') es
    have longer := left.length_le
    rw [taken] at there ⊢
    cases hr
    exact ⟨_, if_pos ⟨named.1, by omega⟩, left.tail_dropWhile (by decide) (by decide)⟩
  · cases hr

/-- Whether flags hold for a group or for what follows is told by the sign behind them. -/
theorem alike_readGroupHead (f : Flags) : Alike (readGroupHead f) (readGroupHead f) := by
  intro cs es a rest h hr
  unfold readGroupHead at hr
  split at hr
  · obtain ⟨_, rfl, second⟩ := h.of_cons (by decide) (by decide)
    obtain ⟨_, rfl, third⟩ := second.of_cons (by decide) (by decide)
    obtain ⟨_, rfl, name⟩ := third.of_cons (by decide) (by decide)
    exact alike_readGroupName f name hr
  · obtain ⟨_, rfl, second⟩ := h.of_cons (by decide) (by decide)
    obtain ⟨_, rfl, name⟩ := second.of_cons (by decide) (by decide)
    exact alike_readGroupName f name hr
  · rename_i cs notLong notShort
    obtain ⟨es, rfl, inner⟩ := h.of_cons (by decide) (by decide)
    obtain ⟨⟨f', closing, left⟩, hf, hr⟩ := Option.bind_eq_some_iff.mp hr
    obtain ⟨left', hf', behind, lengths⟩ := alike_readFlags inner hf
    dsimp only at hr
    unfold readGroupHead
    split
    case h_1 he =>
      obtain rfl := (List.cons.inj he).2
      obtain ⟨_, rfl, second⟩ := inner.to_cons (by decide) (by decide)
      obtain ⟨_, rfl, -⟩ := second.to_cons (by decide) (by decide)
      exact absurd rfl (notLong _)
    case h_2 he =>
      obtain rfl := (List.cons.inj he).2
      obtain ⟨_, rfl, -⟩ := inner.to_cons (by decide) (by decide)
      exact absurd rfl (notShort _)
    case h_3 he =>
      obtain rfl := (List.cons.inj he).2
      have same : left'.length + 1 = es.length ↔ left.length + 1 = cs.length := by omega
      refine ⟨left', ?_, ?_⟩
      · simp only [hf', Option.bind_eq_bind, Option.bind_some, same]
        split at hr
        · cases hr; rw [if_pos ‹_›]
        split at hr
        · cases hr
        · cases hr; rw [if_neg ‹_›, if_neg ‹_›]
      · split at hr
        · cases hr; exact behind
        split at hr
        · cases hr
        · cases hr; exact behind
    case h_4 notQuestion => exact absurd rfl (notQuestion _)
  · rename_i notQuestion
    cases hr
    refine ⟨es, ?_, h⟩
    have notQuestion' : ∀ es', es ≠ '?' :: es' := by
      rintro es' rfl
      obtain ⟨_, rfl, -⟩ := h.to_cons (by decide) (by decide)
      exact notQuestion _ rfl
    unfold readGroupHead
    split
    · exact absurd rfl (notQuestion' _)
    · exact absurd rfl (notQuestion' _)
    · exact absurd rfl (notQuestion' _)
    · rfl

/-! ### Branches -/

/-- What is read of a text is read of the escaped text, with other counts of steps. -/
def AlikeBranches (n m : Nat) : Prop :=
  ∀ ⦃f : Flags⦄ ⦃names : List (List Char)⦄ ⦃d : Draft⦄ ⦃cs es : List Char⦄ ⦃r : Reading⦄,
    Escapes cs es → readBranches n f names d cs = some r →
      ∃ rest, readBranches m f names d es = some { r with rest } ∧ Escapes r.rest rest

namespace AlikeBranches

variable {n m : Nat} {f : Flags} {names : List (List Char)} {d : Draft} {cs es : List Char}
  {r : Reading}

/-- Behind the sign of a repetition. -/
theorem repeated (next : AlikeBranches n m) {least : Nat} {more : Option Nat} (h : Escapes cs es)
    (hr : (match d.repeatLast? least more with
      | some d => readBranches n f names d (skipLazy f cs)
      | none => none) = some r) :
    ∃ rest, (match d.repeatLast? least more with
      | some d => readBranches m f names d (skipLazy f es)
      | none => none) = some { r with rest } ∧ Escapes r.rest rest := by
  cases hd : d.repeatLast? least more with
  | none =>
    rw [hd] at hr
    cases hr
  | some d =>
    rw [hd] at hr
    exact next (escapes_skipLazy f h) hr

/-- Behind the head of a group: its branches, and what follows its closing parenthesis. -/
theorem grouped (next : AlikeBranches n m) {inner : Flags} {taken : List (List Char)}
    (h : Escapes cs es)
    (hr : (match readBranches n inner taken {} cs with
      | some ⟨t, _, names, ')' :: rest⟩ => readBranches n f names (d.push (.group t)) rest
      | _ => none) = some r) :
    ∃ rest, (match readBranches m inner taken {} es with
      | some ⟨t, _, names, ')' :: rest⟩ => readBranches m f names (d.push (.group t)) rest
      | _ => none) = some { r with rest } ∧ Escapes r.rest rest := by
  split at hr
  · rename_i group
    obtain ⟨rest, hg, closed⟩ := next h group
    obtain ⟨rest, rfl, behind⟩ := closed.of_cons (by decide) (by decide)
    rw [hg]
    exact next behind hr
  · cases hr

/-- Behind a backslash that escapes something else than a slash. -/
theorem escaped (next : AlikeBranches n m) {c : Char} (h : Escapes cs es)
    (hr : (match readEscape f (c :: cs) with
      | some (.char c, rest) =>
        readBranches n f names (d.push (.one (f.cased (CharClass.single c)))) rest
      | some (.set s, rest) => readBranches n f names (d.push (.one s)) rest
      | some (.boundary b, rest) => readBranches n f names (d.push (.boundary b)) rest
      | none => none) = some r) :
    ∃ rest, (match readEscape f (c :: es) with
      | some (.char c, rest) =>
        readBranches m f names (d.push (.one (f.cased (CharClass.single c)))) rest
      | some (.set s, rest) => readBranches m f names (d.push (.one s)) rest
      | some (.boundary b, rest) => readBranches m f names (d.push (.boundary b)) rest
      | none => none) = some { r with rest } ∧ Escapes r.rest rest := by
  split at hr
  case h_4 => cases hr
  all_goals
    rename_i read
    obtain ⟨rest, read', behind⟩ := alike_readEscape f c h read
    dsimp only at read'
    rw [read']
    exact next behind hr

/-- One more step, with a case for each sign that a part may start with. -/
theorem succ (classes : ∀ f, Alike (readClass f n) (readClass f m)) (next : AlikeBranches n m) :
    AlikeBranches (n + 1) (m + 1) := by
  intro f names d cs es r h hr
  rw [readBranches] at hr ⊢
  dsimp only at hr ⊢
  replace h := escapes_skipVerbose f h
  generalize skipVerbose f cs = cs at h hr
  generalize skipVerbose f es = es at h ⊢
  cases h with
  | nil =>
    cases hr
    exact ⟨[], rfl, .nil⟩
  | slash h => exact next h hr
  | escape _ h => exact next.escaped h hr
  | backslash => cases hr
  | @other c cs es _ backslash h =>
    split at hr <;> rename_i here
    · cases here
    · -- A closing parenthesis is left where it is.
      cases here
      cases hr
      exact ⟨_, rfl, .other (by decide) (by decide) h⟩
    · cases here
      exact next h hr
    · -- A parenthesis opens a group, or sets flags for what follows.
      cases here
      replace h := escapes_skipVerbose f h
      split at hr
      · cases hr
      · rename_i head
        obtain ⟨rest, head', behind⟩ := alike_readGroupHead f h head
        simp only [head']
        exact next behind hr
      · rename_i head
        obtain ⟨rest, head', behind⟩ := alike_readGroupHead f h head
        split at hr
        · cases hr
        · rename_i untaken
          simp only [head', if_neg untaken]
          exact next.grouped behind hr
    · cases here
      split at hr
      · rename_i items
        obtain ⟨rest, items', behind⟩ := classes f h items
        simp only [items']
        exact next behind hr
      · cases hr
    · cases here
      exact next.repeated h hr
    · cases here
      exact next.repeated h hr
    · cases here
      exact next.repeated h hr
    · cases here
      split at hr
      · cases hr
      · rename_i bounds
        obtain ⟨rest, bounds', behind⟩ := alike_readBounds f h bounds
        simp only [bounds']
        exact next.repeated behind hr
    · cases here
      split at hr
      · rename_i unicode
        simp only [if_pos unicode]
        exact next h hr
      · cases hr
    · cases here
      exact next h hr
    · cases here
      exact next h hr
    · cases here
      exact absurd rfl backslash
    · -- No other character has a meaning of its own.
      cases here
      split
      case h_14 he =>
        cases he
        exact next h hr
      all_goals
        rename_i he
        cases he <;> contradiction

end AlikeBranches

/-- By induction on the steps, of which the longer text may take more. -/
theorem alikeBranches_of_le {n m : Nat} (le : n ≤ m) : AlikeBranches n m := by
  induction n generalizing m with
  | zero =>
    intro f names d cs es r _ hr
    rw [readBranches] at hr
    cases hr
  | succ n ih =>
    obtain ⟨m, rfl⟩ := Nat.exists_eq_add_of_le' le
    have le' : n ≤ m + n := Nat.le_add_left n m
    exact .succ (fun f => (alike_readItems_and_readClass f n (m + n) le').2) (ih le')

/-- A pattern is read alike with its slashes escaped. -/
theorem read?_escaped {cs es : List Char} {p : Pattern} (h : Escapes cs es)
    (hr : read? cs = some p) : read? es = some p := by
  have longer := h.length_le
  rw [read?] at hr
  split at hr
  · rename_i reading
    obtain ⟨rest, reading', left⟩ :=
      alikeBranches_of_le (m := 2 * es.length + 2) (by omega) h reading
    cases left
    rw [read?, reading']
    exact hr
  · cases hr

/-! ### Escaped texts -/

/-- Where the first character is escaped, the texts are compared with the backslash in front. -/
theorem escapes_escapeSlashes {p : LiteralPlace} {cs : List Char}
    (unescaped : p.slashes LiteralPlace.escaped cs = 0) :
    (p.escaped = false → Escapes cs (escapeSlashes cs)) ∧
      (p.escaped = true → Escapes ('\\' :: cs) ('\\' :: escapeSlashes cs)) := by
  induction cs generalizing p with
  | nil => exact ⟨fun _ => .nil, fun _ => .backslash⟩
  | cons c rest ih =>
    rw [LiteralPlace.slashes, Nat.add_eq_zero_iff] at unescaped
    obtain ⟨outside, behind⟩ := ih unescaped.1
    constructor
    · intro start
      by_cases slash : c = '/'
      · subst slash
        exact .slash (outside (by simp))
      rw [escapeSlashes_cons slash]
      by_cases backslash : c = '\\'
      · subst backslash
        exact behind (by simp [start])
      · exact .other slash backslash (outside (by simp [backslash]))
    · intro start
      have slash : c ≠ '/' := by simpa [start] using unescaped.2
      rw [escapeSlashes_cons slash]
      exact .escape slash (outside (by simp [start]))

/-- A pattern in which no slash is escaped is read alike with each slash escaped. -/
theorem read?_escapeSlashes {source : List Char} {p : Pattern}
    (unescaped : LiteralPlace.plain.slashes LiteralPlace.escaped source = 0)
    (hr : read? source = some p) : read? (escapeSlashes source) = some p :=
  read?_escaped ((escapes_escapeSlashes unescaped).1 rfl) hr

end ApiContract.Pattern
