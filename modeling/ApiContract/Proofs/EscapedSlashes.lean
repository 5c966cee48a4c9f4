import ApiContract.Proofs.PlainNames

/-!
# Slashes with a backslash in front

A slash means the same in a pattern with a backslash in front of it and without. So a reader of
patterns is to make the same of a text and of that text with its slashes escaped, and to leave two
such texts behind. What the reader of escapes does is no exception, as neither codes nor names have
slashes.
-/

namespace ApiContract.Pattern

/-! ### Escaped slashes -/

/-- A text and the same with a backslash in front of each slash. No slash has one already, and the
first character of the text is not escaped. -/
inductive Escapes : List Char → List Char → Prop
  | nil : Escapes [] []
  | slash {cs es : List Char} : Escapes cs es → Escapes ('/' :: cs) ('\\' :: '/' :: es)
  | escape {c : Char} {cs es : List Char} (slash : c ≠ '/') :
    Escapes cs es → Escapes ('\\' :: c :: cs) ('\\' :: c :: es)
  | backslash : Escapes ['\\'] ['\\']
  | other {c : Char} {cs es : List Char} (slash : c ≠ '/') (backslash : c ≠ '\\') :
    Escapes cs es → Escapes (c :: cs) (c :: es)

namespace Escapes

variable {c : Char} {cs es : List Char} {p : Char → Bool}

theorem of_cons (slash : c ≠ '/') (backslash : c ≠ '\\') (h : Escapes (c :: cs) es) :
    ∃ es', es = c :: es' ∧ Escapes cs es' := by
  cases h with
  | slash => exact absurd rfl slash
  | escape => exact absurd rfl backslash
  | backslash => exact absurd rfl backslash
  | other _ _ h => exact ⟨_, rfl, h⟩

/-- Any other character than a slash or a backslash is found alike in both texts. -/
theorem head?_eq_iff (slash : c ≠ '/') (backslash : c ≠ '\\') (h : Escapes cs es) :
    es.head? = some c ↔ cs.head? = some c := by
  cases h <;> simp [slash.symm, backslash.symm]

theorem to_cons (slash : c ≠ '/') (backslash : c ≠ '\\') (h : Escapes cs (c :: es)) :
    ∃ cs', cs = c :: cs' ∧ Escapes cs' es := by
  cases h with
  | slash => exact absurd rfl backslash
  | escape => exact absurd rfl backslash
  | backslash => exact absurd rfl backslash
  | other _ _ h => exact ⟨_, rfl, h⟩

theorem length_le (h : Escapes cs es) : cs.length ≤ es.length := by
  induction h with
  | nil | backslash => exact Nat.le_refl _
  | slash | escape | other => simp only [List.length_cons]; omega

/-- A plain front of a text is the front of the escaped text, too. -/
theorem take (h : Escapes cs es) {n : Nat} (plain : isPlain (cs.take n) = true) :
    es.take n = cs.take n ∧ Escapes (cs.drop n) (es.drop n) := by
  induction n generalizing cs es with
  | zero => exact ⟨rfl, h⟩
  | succ n ih =>
    cases cs with
    | nil => cases h; exact ⟨rfl, .nil⟩
    | cons c cs =>
      rw [List.take_succ_cons, isPlain_cons] at plain
      obtain ⟨es, rfl, later⟩ := h.of_cons plain.1 plain.2.1
      obtain ⟨taken, left⟩ := ih later plain.2.2
      exact ⟨by rw [List.take_succ_cons, List.take_succ_cons, taken], left⟩

theorem stops_of_plain (special : c = '/' ∨ c = '\\')
    (plain : isPlain ((c :: cs).takeWhile p) = true) : p c = false := by
  by_contra go
  rw [List.takeWhile_cons_of_pos (Bool.not_eq_false _ ▸ go), isPlain_cons] at plain
  exact special.elim plain.1 plain.2.1

/-- A plain text up to the first character of a kind, where slashes and backslashes are of one
kind. -/
theorem span (same : p '/' = p '\\') (h : Escapes cs es) (plain : isPlain (cs.takeWhile p) = true) :
    es.takeWhile p = cs.takeWhile p ∧ Escapes (cs.dropWhile p) (es.dropWhile p) := by
  induction h with
  | nil => exact ⟨rfl, .nil⟩
  | slash h =>
    have stop := stops_of_plain (.inl rfl) plain
    simpa [stop, same ▸ stop] using slash h
  | escape hc h => simpa [stops_of_plain (.inr rfl) plain] using escape hc h
  | backslash => simpa [stops_of_plain (.inr rfl) plain] using backslash
  | @other c cs es hs hb h ih =>
    by_cases go : p c = true
    · simp only [List.takeWhile_cons, List.dropWhile_cons, go, if_true, isPlain_cons] at plain ⊢
      obtain ⟨taken, left⟩ := ih plain.2.2
      exact ⟨by rw [taken], left⟩
    · simpa [go] using other hs hb h

/-- A text up to such a character that is not plain has a backslash once it is escaped. -/
theorem span_not_plain (go : p '\\' = true) (h : Escapes cs es)
    (special : isPlain (cs.takeWhile p) = false) : isPlain (es.takeWhile p) = false := by
  have kept : '\\' ∈ es.takeWhile p := by
    induction h with
    | nil => cases special
    | slash | escape | backslash => simp [go]
    | @other c cs es hs hb h ih =>
      by_cases hc : p c = true
      · rw [List.takeWhile_cons_of_pos hc] at special ⊢
        refine List.mem_cons_of_mem _ (ih ?_)
        by_contra plain
        rw [Bool.not_eq_false] at plain
        rw [(isPlain_cons _ _).mpr ⟨hs, hb, plain⟩] at special
        cases special
      · rw [List.takeWhile_cons_of_neg hc] at special
        cases special
  exact isPlain_eq_false_iff.mpr ⟨'\\', kept, .inr rfl⟩

theorem isEmpty_eq (h : Escapes cs es) : es.isEmpty = cs.isEmpty := by
  cases h <;> rfl

theorem dropWhile_ne_eq_cons {d : Char} {after : List Char}
    (h : cs.dropWhile (· != c) = d :: after) : d = c := by
  have stop := List.head?_dropWhile_not (· != c) cs
  rw [h] at stop
  simpa using stop

/-- The text behind a character that is neither a slash nor a backslash. -/
theorem tail_dropWhile (slash : c ≠ '/') (backslash : c ≠ '\\')
    (h : Escapes (cs.dropWhile (· != c)) es) : Escapes (cs.dropWhile (· != c)).tail es.tail := by
  cases hd : cs.dropWhile (· != c) with
  | nil =>
    rw [hd] at h
    cases h
    exact .nil
  | cons d after =>
    obtain rfl := dropWhile_ne_eq_cons hd
    obtain ⟨es', rfl, behind⟩ := (hd ▸ h).of_cons slash backslash
    exact behind

/-- A plain text in front of such a character, and the text from there on. -/
theorem upTo (slash : c ≠ '/') (backslash : c ≠ '\\') (h : Escapes cs es)
    (plain : isPlain (cs.takeWhile (· != c)) = true) :
    es.takeWhile (· != c) = cs.takeWhile (· != c) ∧
      Escapes (cs.dropWhile (· != c)) (es.dropWhile (· != c)) :=
  h.span (by rw [bne_iff_ne.mpr slash.symm, bne_iff_ne.mpr backslash.symm]) plain

end Escapes

/-! ### Readers -/

abbrev TextReader (α : Type) := List Char → Option (α × List Char)

/-- What a reader makes of a text, another one makes of the escaped text. -/
def Alike {α : Type} (read read' : TextReader α) : Prop :=
  ∀ ⦃cs es : List Char⦄ ⦃a : α⦄ ⦃rest : List Char⦄, Escapes cs es → read cs = some (a, rest) →
    ∃ rest', read' es = some (a, rest') ∧ Escapes rest rest'

theorem Alike.pure {α : Type} (a : α) :
    Alike (fun cs => some (a, cs)) (fun cs => some (a, cs)) := by
  intro cs es b rest h hr
  obtain ⟨rfl, rfl⟩ := hr
  exact ⟨es, rfl, h⟩

theorem Alike.map {α β : Type} {read read' : TextReader α} (h : Alike read read') (g : α → β) :
    Alike (fun cs => (read cs).map fun (a, rest) => (g a, rest))
      (fun cs => (read' cs).map fun (a, rest) => (g a, rest)) := by
  intro cs es b rest he hr
  obtain ⟨⟨a, rest'⟩, ha, hb⟩ := Option.map_eq_some_iff.mp hr
  obtain ⟨rfl, rfl⟩ := hb
  obtain ⟨rest'', hr', he'⟩ := h he ha
  exact ⟨rest'', by simp [hr'], he'⟩

theorem Alike.ite {α : Type} {p : Prop} [Decidable p] {read read' other other' : TextReader α}
    (h : Alike read read') (ho : Alike other other') :
    Alike (fun cs => if p then read cs else other cs)
      (fun cs => if p then read' cs else other' cs) := by
  split
  · exact h
  · exact ho

/-- Nothing is read. -/
theorem Alike.none {α : Type} :
    Alike (fun _ => (Option.none : Option (α × List Char))) (fun _ => Option.none) := by
  intro _ _ _ _ _ hr
  cases hr

/-! ### White space and comments -/

/-- Neither slashes nor backslashes are blanks, and a comment ends with its line in both texts. -/
theorem escapes_skip (f : Flags) {cs es : List Char} (h : Escapes cs es) :
    Escapes (skipVerbose f cs) (skipVerbose f es) ∧
      Escapes (skipVerbose.skipComment f cs) (skipVerbose.skipComment f es) := by
  induction h with
  | nil => exact ⟨.nil, .nil⟩
  | slash h ih =>
    refine ⟨?_, by simpa [skipVerbose.skipComment] using ih.2⟩
    have solid : isBlank '/' = false ∧ isBlank '\\' = false := by decide
    simpa [skipVerbose, solid] using Escapes.slash h
  | @escape c cs es hc h ih =>
    constructor
    · have solid : isBlank '\\' = false := by decide
      simpa [skipVerbose, solid] using Escapes.escape hc h
    · by_cases feed : c = '\n'
      · simpa [skipVerbose.skipComment, feed] using ih.1
      · simpa [skipVerbose.skipComment, feed] using ih.2
  | backslash =>
    have solid : isBlank '\\' = false := by decide
    exact ⟨by simpa [skipVerbose, solid] using Escapes.backslash,
      by simpa [skipVerbose.skipComment] using Escapes.nil⟩
  | @other c cs es hs hb h ih =>
    constructor
    · rw [skipVerbose, skipVerbose]
      split
      · exact .other hs hb h
      split
      · exact ih.1
      split
      · exact ih.2
      · exact .other hs hb h
    · rw [skipVerbose.skipComment, skipVerbose.skipComment]
      split
      · exact ih.1
      · exact ih.2

theorem escapes_skipVerbose (f : Flags) {cs es : List Char} (h : Escapes cs es) :
    Escapes (skipVerbose f cs) (skipVerbose f es) := (escapes_skip f h).1

/-! ### Escapes -/

theorem readHex_brace (count : Nat) (rest : List Char) :
    readHex count ('{' :: rest) =
      match rest.dropWhile (· != '}') with
      | _ :: after => (charOfHex? (rest.takeWhile (· != '}'))).map fun c => (c, after)
      | [] => none := by
  rw [readHex, drop_takeWhile]
  cases rest.dropWhile (· != '}') with
  | nil => rfl
  | cons c after => cases charOfHex? (rest.takeWhile (· != '}')) <;> rfl

theorem readHex_plain (count : Nat) {cs : List Char} (h : cs.head? ≠ some '{') :
    readHex count cs =
      if cs.length < count then none
      else (charOfHex? (cs.take count)).map fun c => (c, cs.drop count) := by
  cases cs with
  | nil => cases count <;> rfl
  | cons c rest =>
    have hc : c ≠ '{' := by simpa using h
    rw [readHex.eq_2 _ _ (by rintro _ he; exact hc (List.cons.inj he).1)]
    split
    · rfl
    · cases charOfHex? ((c :: rest).take count) <;> rfl

/-- Digits of a code are no slashes. -/
theorem alike_readHex (count : Nat) : Alike (readHex count) (readHex count) := by
  intro cs es a rest h hr
  by_cases hb : cs.head? = some '{'
  · obtain ⟨cs, rfl⟩ := List.head?_eq_some_iff.mp hb
    obtain ⟨es, rfl, inner⟩ := h.of_cons (by decide) (by decide)
    rw [readHex_brace] at hr ⊢
    split at hr
    · rename_i c after hd
      obtain ⟨a, ha, hr⟩ := Option.map_eq_some_iff.mp hr
      cases hr
      obtain ⟨taken, left⟩ := inner.upTo (c := '}') (by decide) (by decide)
        (isPlain_of_charOfHex? ha)
      obtain rfl := Escapes.dropWhile_ne_eq_cons hd
      obtain ⟨es', he, left⟩ := (hd ▸ left).of_cons (by decide) (by decide)
      exact ⟨es', by rw [he, taken, ha]; rfl, left⟩
    · cases hr
  · have hb' := mt (h.head?_eq_iff (by decide) (by decide)).mp hb
    rw [readHex_plain count hb] at hr
    rw [readHex_plain count hb']
    split at hr
    · cases hr
    · rename_i long
      obtain ⟨a, ha, hr⟩ := Option.map_eq_some_iff.mp hr
      cases hr
      obtain ⟨taken, left⟩ := h.take (isPlain_of_charOfHex? ha)
      have longer := h.length_le
      exact ⟨_, by rw [if_neg (by omega), taken, ha]; rfl, left⟩

/-- A name of a property that is plain is taken out of either text. -/
theorem readPropertyName_escaped {cs es name rest : List Char} (h : Escapes cs es)
    (hr : readPropertyName cs = some (name, rest)) (plain : isPlain name = true) :
    ∃ rest', readPropertyName es = some (name, rest') ∧ Escapes rest rest' := by
  by_cases hb : cs.head? = some '{'
  · obtain ⟨cs, rfl⟩ := List.head?_eq_some_iff.mp hb
    obtain ⟨es, rfl, inner⟩ := h.of_cons (by decide) (by decide)
    simp only [readPropertyName, drop_takeWhile, List.drop_one] at hr ⊢
    split at hr
    · cases hr
    · rename_i closed
      cases hr
      obtain ⟨taken, left⟩ := inner.upTo (c := '}') (by decide) (by decide) plain
      exact ⟨_, by rw [taken, left.isEmpty_eq, if_neg closed],
        left.tail_dropWhile (by decide) (by decide)⟩
  · cases cs with
    | nil => cases hr
    | cons c cs =>
      have single (es : List Char) : readPropertyName (c :: es) = some ([c], es) := by
        rw [readPropertyName]
        rintro rfl
        exact hb rfl
      rw [single] at hr
      cases hr
      obtain ⟨slash, backslash, -⟩ := (isPlain_cons _ _).mp plain
      obtain ⟨es, rfl, behind⟩ := h.of_cons slash backslash
      exact ⟨es, single es, behind⟩

theorem alike_readProperty (f : Flags) (negated : Bool) :
    Alike (readProperty f negated) (readProperty f negated) := by
  intro cs es a rest h hr
  obtain ⟨⟨name, left⟩, hn, hr⟩ := Option.bind_eq_some_iff.mp hr
  obtain ⟨s, hs, hr⟩ := Option.bind_eq_some_iff.mp hr
  cases hr
  obtain ⟨found, hf, -⟩ := Option.bind_eq_some_iff.mp hs
  obtain ⟨rest', hn', behind⟩ := readPropertyName_escaped h hn (isPlain_of_property? hf)
  exact ⟨rest', by simp [readProperty, hn', hs], behind⟩

theorem alike_readCode (f : Flags) : Alike (readCode f) (readCode f) := by
  intro cs es a rest h hr
  obtain ⟨⟨c, left⟩, hc, hr⟩ := Option.bind_eq_some_iff.mp hr
  obtain ⟨left', hc', behind⟩ := alike_readHex 2 h hc
  have brace : (es.head? == some '{') = (cs.head? == some '{') := by
    rw [Bool.eq_iff_iff, beq_iff_eq, beq_iff_eq, h.head?_eq_iff (by decide) (by decide)]
  simp only at hr
  split at hr
  · rename_i allowed
    cases hr
    exact ⟨left', by simp only [readCode, hc', Option.bind_eq_bind, Option.bind_some, brace,
      if_pos allowed], behind⟩
  · cases hr

/-- A class that is there, or is not, whatever follows. -/
theorem Alike.given {α β : Type} (found : Option α) (g : α → β) :
    Alike (fun cs => found.map fun a => (g a, cs)) (fun cs => found.map fun a => (g a, cs)) := by
  cases found with
  | none => exact .none
  | some a => exact .pure (g a)

/-- A brace and the letter behind it are the same in both texts. -/
theorem startsCount_eq {cs es : List Char} (h : Escapes cs es) :
    startsCount es = startsCount cs := by
  cases h with
  | nil | slash | escape | backslash => rfl
  | @other c cs es hs hb h =>
    by_cases hc : c = '{'
    · subst hc
      cases h with
      | nil | slash | escape | backslash | other => rfl
    · unfold startsCount
      split <;> split <;> simp_all

/-- Names of boundaries are known ones, without slashes. -/
theorem alike_readBoundaryName (unicode : Bool) :
    Alike (readBoundaryName unicode) (readBoundaryName unicode) := by
  intro cs es a rest h hr
  by_cases hb : cs.head? = some '{'
  · obtain ⟨cs, rfl⟩ := List.head?_eq_some_iff.mp hb
    obtain ⟨es, rfl, inner⟩ := h.of_cons (by decide) (by decide)
    simp only [readBoundaryName, drop_takeWhile_succ] at hr ⊢
    have plain : isPlain (cs.takeWhile (· != '}')) = true := by
      by_contra special
      have ne : ∀ known : String, isPlain known.toList = true →
          String.ofList (cs.takeWhile (· != '}')) ≠ known := fun _ =>
        ne_of_not_plain (by rw [String.toList_ofList]; simpa using special)
      iterate 4 rw [if_neg (ne _ (by decide))] at hr
      cases hr
    obtain ⟨taken, left⟩ := inner.upTo (c := '}') (by decide) (by decide) plain
    have behind := left.tail_dropWhile (by decide) (by decide)
    rw [taken]
    split_ifs at hr ⊢ <;> (cases hr; exact ⟨_, rfl, behind⟩)
  · have hb' := mt (h.head?_eq_iff (by decide) (by decide)).mp hb
    have bare : ∀ {cs : List Char}, cs.head? ≠ some '{' →
        readBoundaryName unicode cs = some (wordBoundary unicode, cs) := by
      intro cs hb
      unfold readBoundaryName
      split
      · exact absurd rfl hb
      · rfl
    rw [bare hb] at hr
    cases hr
    exact ⟨es, bare hb', h⟩

/-- A word boundary, whose name is told from a repetition by what follows. -/
theorem alike_wordBoundary (f : Flags) :
    Alike
      (fun cs => if startsCount cs then some (Escape.boundary (wordBoundary f.unicode), cs)
        else (readBoundaryName f.unicode cs).map fun (b, rest) => (.boundary b, rest))
      (fun cs => if startsCount cs then some (Escape.boundary (wordBoundary f.unicode), cs)
        else (readBoundaryName f.unicode cs).map fun (b, rest) => (.boundary b, rest)) := by
  intro cs es a rest h
  simp only [startsCount_eq h]
  exact (Alike.ite (.pure _) ((alike_readBoundaryName f.unicode).map Escape.boundary)) h

/-- What an escape stands for is settled by its letter and by a code or a name. -/
theorem alike_readEscape (f : Flags) (c : Char) :
    Alike (fun cs => readEscape f (c :: cs)) (fun cs => readEscape f (c :: cs)) := by
  simp only [readEscape]
  repeat' apply Alike.ite
  all_goals first
    | exact .pure _
    | exact .none
    | exact alike_wordBoundary f
    | exact .given _ Escape.set
    | exact (alike_readCode f).map Escape.char
    | exact (alike_readHex _).map Escape.char
    | exact (alike_readProperty f _).map Escape.set

/-- A slash in a class is a member with or without its backslash. -/
theorem alike_readMember (f : Flags) : Alike (readMember f) (readMember f) := by
  intro cs es a rest h hr
  cases h with
  | nil => cases hr
  | slash h =>
    have byte : (f.unicode || '/'.toNat < 128) = true := by simp
    rw [readMember, if_pos byte] at hr
    · cases hr
      exact ⟨_, by simp [readMember, readEscape, isEscapable], h⟩
    · decide
  | escape hs h =>
    obtain ⟨⟨escape, left⟩, he, hr⟩ := Option.bind_eq_some_iff.mp hr
    obtain ⟨es', he', h⟩ := alike_readEscape f _ h he
    simp only [readMember, he', Option.bind_eq_bind, Option.bind_some]
    cases escape with
    | char c =>
      simp only at hr
      split at hr
      · cases hr
        exact ⟨_, if_pos ‹_›, h⟩
      · cases hr
    | set s => cases hr; exact ⟨_, rfl, h⟩
    | boundary b => cases hr
  | backslash => cases hr
  | @other c cs es hs hb h =>
    have single : ∀ es, readMember f (c :: es) =
        if f.unicode || c.toNat < 128 then some (.inl c, es) else none := by
      intro es
      rw [readMember]
      exact hb
    rw [single] at hr
    split at hr
    · cases hr
      exact ⟨_, by rw [single, if_pos ‹_›], h⟩
    · cases hr

end ApiContract.Pattern
