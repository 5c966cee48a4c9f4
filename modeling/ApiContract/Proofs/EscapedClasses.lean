import ApiContract.Proofs.EscapedSlashes

/-!
# Classes whose slashes are escaped

In a class, a name between colons and an operation of sets is told from the members of the class by
what follows. That is the same in a text and in the escaped text, so the class is the same.
-/

namespace ApiContract.Pattern

/-! ### Classes -/

/-- Both readers refuse, or both read the same and leave texts of which one is the other escaped. -/
def SameReading {α : Type} (read read' : Option (α × List Char)) : Prop :=
  read = none ∧ read' = none ∨
    ∃ a rest rest', read = some (a, rest) ∧ read' = some (a, rest') ∧ Escapes rest rest'

theorem SameReading.none {α : Type} {read read' : Option (α × List Char)} (h : read = none)
    (h' : read' = none) : SameReading read read' := .inl ⟨h, h'⟩

/-- A range is told by its hyphen, which is not escaped. -/
theorem alike_readRange (f : Flags) : Alike (readRange f) (readRange f) := by
  intro cs es a rest h hr
  obtain ⟨⟨first, left⟩, hm, hr⟩ := Option.bind_eq_some_iff.mp hr
  obtain ⟨left', hm', h⟩ := alike_readMember f h hm
  simp only [readRange, hm', Option.bind_eq_bind, Option.bind_some] at hr ⊢
  replace h := escapes_skipVerbose f h
  generalize skipVerbose f left = left at h hr
  generalize skipVerbose f left' = left' at h ⊢
  split at hr
  · cases hr
  · rename_i after
    obtain ⟨after', rfl, inner⟩ := h.of_cons (by decide) (by decide)
    replace inner := escapes_skipVerbose f inner
    simp only
    generalize skipVerbose f after = next at inner hr
    generalize skipVerbose f after' = next' at inner ⊢
    split at hr
    · cases hr
    · obtain ⟨_, rfl, -⟩ := inner.of_cons (by decide) (by decide)
      cases hr
      exact ⟨_, rfl, h⟩
    · obtain ⟨_, rfl, -⟩ := inner.of_cons (by decide) (by decide)
      cases hr
      exact ⟨_, rfl, h⟩
    · rename_i notEnd notBracket notHyphen
      obtain ⟨⟨last, behind⟩, hl, hr⟩ := Option.bind_eq_some_iff.mp hr
      obtain ⟨behind', hl', h'⟩ := alike_readMember f inner hl
      split
      · cases inner
        exact absurd rfl notEnd
      · obtain ⟨_, rfl, -⟩ := inner.to_cons (by decide) (by decide)
        exact absurd rfl (notBracket _)
      · obtain ⟨_, rfl, -⟩ := inner.to_cons (by decide) (by decide)
        exact absurd rfl (notHyphen _)
      · simp only [hl', Option.bind_some]
        simp only at hr
        split at hr
        · split at hr
          · cases hr
            exact ⟨behind', by simp [*], h'⟩
          · cases hr
        · cases hr
  · rename_i notEnd notHyphen
    cases hr
    refine ⟨left', ?_, h⟩
    split
    · cases h
      exact absurd rfl notEnd
    · obtain ⟨_, rfl, -⟩ := h.to_cons (by decide) (by decide)
      exact absurd rfl (notHyphen _)
    · rfl

/-- Operations have two signs that are not escaped. -/
theorem sameReading_setOperation? {cs es : List Char} (h : Escapes cs es) :
    SameReading (setOperation? cs) (setOperation? es) := by
  have doubled : ∀ {c : Char} {cs es : List Char}, c ≠ '/' → c ≠ '\\' →
      Escapes (c :: c :: cs) es → ∃ es', es = c :: c :: es' ∧ Escapes cs es' := by
    intro c cs es slash backslash h
    obtain ⟨es, rfl, second⟩ := h.of_cons slash backslash
    obtain ⟨es, rfl, behind⟩ := second.of_cons slash backslash
    exact ⟨es, rfl, behind⟩
  unfold setOperation?
  split
  case h_4 notIn notMinus notXor =>
    split
    case h_4 => exact .none rfl rfl
    all_goals
      obtain ⟨cs, rfl, second⟩ := h.to_cons (by decide) (by decide)
      obtain ⟨cs, rfl, -⟩ := second.to_cons (by decide) (by decide)
      first
        | exact absurd rfl (notIn _)
        | exact absurd rfl (notMinus _)
        | exact absurd rfl (notXor _)
  all_goals
    obtain ⟨es, rfl, behind⟩ := doubled (by decide) (by decide) h
    exact .inr ⟨_, _, _, rfl, rfl, behind⟩

/-- Hyphens or a bracket at the start of a class are the same in both texts. -/
theorem escapes_readLeading (f : Flags) {cs es : List Char} (h : Escapes cs es) :
    (readLeading f es).1 = (readLeading f cs).1 ∧
      Escapes (readLeading f cs).2 (readLeading f es).2 := by
  have skipped := escapes_skipVerbose f h
  simp only [readLeading, drop_takeWhile]
  generalize skipVerbose f cs = cs at skipped ⊢
  generalize skipVerbose f es = es at skipped ⊢
  obtain ⟨taken, left⟩ :=
    skipped.span (p := (· == '-')) (by decide) (isPlain_takeWhile (by decide) (by decide) _)
  rw [taken]
  split
  · generalize cs.dropWhile (· == '-') = cs at left ⊢
    generalize es.dropWhile (· == '-') = es at left ⊢
    split
    · obtain ⟨cs, rfl, behind⟩ := left.to_cons (by decide) (by decide)
      exact ⟨rfl, behind⟩
    · rename_i notBracket
      split
      · obtain ⟨es, rfl, -⟩ := left.of_cons (by decide) (by decide)
        exact absurd rfl (notBracket _)
      · exact ⟨rfl, left⟩
  · exact ⟨rfl, left⟩

/-- The name of a class without its caret, up to the colon and the bracket behind it. -/
def readClassName (negated : Bool) (cs : List Char) : Option ((Bool × CharSet) × List Char) :=
  let name := cs.takeWhile (· != ':')
  match cs.drop name.length with
  | ':' :: ']' :: after => do
    let s ← CharClass.named? (String.ofList name)
    return ((negated, s), after)
  | _ => none

theorem readNamedClass_caret (cs : List Char) :
    readNamedClass (':' :: '^' :: cs) = readClassName true cs := rfl

theorem readNamedClass_bare {cs : List Char} (h : cs.head? ≠ some '^') :
    readNamedClass (':' :: cs) = readClassName false cs := by
  rw [readNamedClass]
  · rfl
  · rintro rest rfl
    exact h rfl

theorem readNamedClass_other {cs : List Char} (h : cs.head? ≠ some ':') :
    readNamedClass cs = none := by
  unfold readNamedClass
  split
  · exact absurd rfl h
  · rfl

theorem readClassName_eq_none (negated : Bool) {cs : List Char}
    (h : CharClass.named? (String.ofList (cs.takeWhile (· != ':'))) = none) :
    readClassName negated cs = none := by
  simp only [readClassName, h]
  split <;> rfl

/-- A name with a slash is none, and neither is the escaped one. -/
theorem sameReading_readClassName (negated : Bool) {cs es : List Char} (h : Escapes cs es) :
    SameReading (readClassName negated cs) (readClassName negated es) := by
  have unnamed : ∀ {cs : List Char}, isPlain (cs.takeWhile (· != ':')) = false →
      CharClass.named? (String.ofList (cs.takeWhile (· != ':'))) = none := fun hs =>
    named?_eq_none (by rw [String.toList_ofList]; exact hs)
  cases plain : isPlain (cs.takeWhile (· != ':')) with
  | false =>
    exact .none (readClassName_eq_none negated (unnamed plain))
      (readClassName_eq_none negated (unnamed (h.span_not_plain (by decide) plain)))
  | true =>
    obtain ⟨taken, left⟩ := h.upTo (by decide) (by decide) plain
    cases found : CharClass.named? (String.ofList (cs.takeWhile (· != ':'))) with
    | none =>
      exact .none (readClassName_eq_none negated found)
        (readClassName_eq_none negated (taken ▸ found))
    | some s =>
      simp only [readClassName, drop_takeWhile]
      simp only [taken, found]
      generalize cs.dropWhile (· != ':') = cs at left ⊢
      generalize es.dropWhile (· != ':') = es at left ⊢
      split
      · obtain ⟨_, rfl, second⟩ := left.of_cons (by decide) (by decide)
        obtain ⟨_, rfl, behind⟩ := second.of_cons (by decide) (by decide)
        exact .inr ⟨_, _, _, rfl, rfl, behind⟩
      · rename_i notEnd
        split
        · obtain ⟨_, rfl, second⟩ := left.to_cons (by decide) (by decide)
          obtain ⟨_, rfl, -⟩ := second.to_cons (by decide) (by decide)
          exact absurd rfl (notEnd _)
        · exact .none rfl rfl

/-- The caret is found alike in both texts. -/
theorem sameReading_readNamedClass {cs es : List Char} (h : Escapes cs es) :
    SameReading (readNamedClass cs) (readNamedClass es) := by
  by_cases colon : cs.head? = some ':'
  · obtain ⟨cs, rfl⟩ := List.head?_eq_some_iff.mp colon
    obtain ⟨es, rfl, name⟩ := h.of_cons (by decide) (by decide)
    by_cases caret : cs.head? = some '^'
    · obtain ⟨cs, rfl⟩ := List.head?_eq_some_iff.mp caret
      obtain ⟨es, rfl, behind⟩ := name.of_cons (by decide) (by decide)
      rw [readNamedClass_caret, readNamedClass_caret]
      exact sameReading_readClassName true behind
    · have caret' := mt (name.head?_eq_iff (by decide) (by decide)).mp caret
      rw [readNamedClass_bare caret, readNamedClass_bare caret']
      exact sameReading_readClassName false name
  · have colon' := mt (h.head?_eq_iff (by decide) (by decide)).mp colon
    exact .none (readNamedClass_other colon) (readNamedClass_other colon')

section

variable {f : Flags} {n m : Nat}

/-- The next part of a class, given that the rest of it is read alike. -/
theorem alike_readItems_succ
    (items : ∀ pending parts, Alike (readItems f n pending parts) (readItems f m pending parts))
    (nested : Alike (readClass f n) (readClass f m)) (pending : Option (ClassTree × SetOperation))
    (parts : List ClassTree) :
    Alike (readItems f (n + 1) pending parts) (readItems f (m + 1) pending parts) := by
  intro cs es a rest h hr
  rw [readItems] at hr ⊢
  replace h := escapes_skipVerbose f h
  generalize skipVerbose f cs = cs at h hr
  generalize skipVerbose f es = es at h ⊢
  split at hr
  · cases hr
  · obtain ⟨es, rfl, behind⟩ := h.of_cons (by decide) (by decide)
    cases hr
    exact ⟨es, rfl, behind⟩
  · rename_i cs
    obtain ⟨es, rfl, behind⟩ := h.of_cons (by decide) (by decide)
    simp only
    rcases sameReading_readNamedClass behind with ⟨hn, hn'⟩ | ⟨s, left, left', hn, hn', named⟩
    · simp only [hn, hn'] at hr ⊢
      obtain ⟨⟨s, left⟩, hs, hr⟩ := Option.bind_eq_some_iff.mp hr
      obtain ⟨left', hs', h'⟩ := nested behind hs
      rw [hs']
      exact items _ _ h' hr
    · simp only [hn, hn'] at hr ⊢
      split at hr
      · exact items _ _ named hr
      · cases hr
  · rename_i notEnd notClosing notOpening
    split
    · cases h
      exact absurd rfl notEnd
    · obtain ⟨_, rfl, -⟩ := h.to_cons (by decide) (by decide)
      exact absurd rfl (notClosing _)
    · obtain ⟨_, rfl, -⟩ := h.to_cons (by decide) (by decide)
      exact absurd rfl (notOpening _)
    · rcases sameReading_setOperation? h with ⟨ho, ho'⟩ | ⟨op, left, left', ho, ho', behind⟩
      · simp only [ho, ho'] at hr ⊢
        obtain ⟨⟨s, left⟩, hs, hr⟩ := Option.bind_eq_some_iff.mp hr
        obtain ⟨left', hs', h'⟩ := alike_readRange f h hs
        rw [hs']
        exact items _ _ h' hr
      · simp only [ho, ho'] at hr ⊢
        exact items _ _ behind hr

/-- A class, given that its parts are read alike. -/
theorem alike_readClass_succ
    (items : ∀ pending parts, Alike (readItems f n pending parts) (readItems f m pending parts)) :
    Alike (readClass f (n + 1)) (readClass f (m + 1)) := by
  intro cs es a rest h hr
  rw [readClass] at hr ⊢
  replace h := escapes_skipVerbose f h
  generalize skipVerbose f cs = cs at h hr
  generalize skipVerbose f es = es at h ⊢
  -- The items of the class, after its caret and the characters that stand for themselves.
  have body : ∀ {cs es s rest}, Escapes cs es →
      readItems f n none (readLeading f cs).1.reverse (readLeading f cs).2 = some (s, rest) →
      ∃ rest', readItems f m none (readLeading f es).1.reverse (readLeading f es).2 =
        some (s, rest') ∧ Escapes rest rest' := by
    intro cs es s rest h hs
    obtain ⟨leading, left⟩ := escapes_readLeading f h
    rw [leading]
    exact items none _ left hs
  by_cases caret : cs.head? = some '^'
  · obtain ⟨cs, rfl⟩ := List.head?_eq_some_iff.mp caret
    obtain ⟨es, rfl, behind⟩ := h.of_cons (by decide) (by decide)
    obtain ⟨⟨inner, left⟩, hs, hr⟩ := Option.bind_eq_some_iff.mp hr
    obtain ⟨left', hs', h'⟩ := body behind hs
    cases unicode : f.unicode with
    | false => simp [unicode] at hr
    | true =>
      have closed : ClassTree.bracketed true inner = a ∧ left = rest := by
        simpa [unicode] using hr
      obtain ⟨rfl, rfl⟩ := closed
      exact ⟨left', by simp only [hs']; rfl, h'⟩
  · have caret' := mt (h.head?_eq_iff (by decide) (by decide)).mp caret
    split at hr
    rename_i found
    split at found
    · exact absurd rfl caret
    cases found
    split
    rename_i found
    split at found
    · exact absurd rfl caret'
    cases found
    obtain ⟨⟨inner, left⟩, hs, hr⟩ := Option.bind_eq_some_iff.mp hr
    obtain ⟨left', hs', h'⟩ := body h hs
    cases hr
    exact ⟨left', by simp only [hs']; rfl, h'⟩

/-- Classes and their parts are read alike, with as many steps or more, by induction on the steps. -/
theorem alike_readItems_and_readClass (f : Flags) (n : Nat) : ∀ m, n ≤ m →
    (∀ pending parts, Alike (readItems f n pending parts) (readItems f m pending parts)) ∧
      Alike (readClass f n) (readClass f m) := by
  induction n with
  | zero =>
    intro m _
    constructor
    · intro pending parts cs es a rest _ hr
      rw [readItems] at hr
      cases hr
    · intro cs es a rest _ hr
      rw [readClass] at hr
      cases hr
  | succ n ih =>
    intro m hm
    obtain ⟨m, rfl⟩ := Nat.exists_eq_add_of_le' hm
    obtain ⟨items, nested⟩ := ih (m + n) (Nat.le_add_left n m)
    exact ⟨alike_readItems_succ items nested, alike_readClass_succ items⟩

end

end ApiContract.Pattern
