import ApiContract.Proofs.NumberTexts
import ApiContract.Proofs.RereadValues

/-!
# Values read from their own texts

Reading the text of a value in key order gives what `reread?` says, for every limit on the nesting.
The induction is on the value, with any text behind it at which a number ends. No more is needed to
tell the parts of a value, as a number that is not read to its end is followed by no comma and no
bracket.
-/

namespace ApiContract

/-- Entries that stand in key order are a table already. -/
theorem Keyed.Sorted.ofList_eq {α : Type} {t : Keyed α} (h : t.Sorted) : ofList t = t :=
  (sorted_ofList t).ext h (get?_ofList_of_nodup h.nodup)

namespace Json

/-! ### Texts behind numbers -/

/-- No number goes on with this text. -/
def Ends (cs : List Char) : Prop := ∀ c, cs.head? = some c → inNumber c = false ∧ c ≠ 'E'

theorem ends_nil : Ends [] := nofun

theorem ends_cons {c : Char} (h : inNumber c = false ∧ c ≠ 'E') (rest : List Char) :
    Ends (c :: rest) := by
  rintro _ ⟨⟩
  exact h

variable {α : Type} {cs rest left : List Char} {n : Nat}

theorem Ends.head_ne (h : Ends rest) {c : Char} (number : inNumber c = true) :
    rest.head? ≠ some c := by
  intro he
  rw [(h c he).1] at number
  cases number

/-- A run of characters that the text behind does not go on with. -/
theorem span_append {p : Char → Bool} (stop : ∀ c, rest.head? = some c → p c = false)
    (cs : List Char) : (cs ++ rest).takeWhile p = cs.takeWhile p ∧
      (cs ++ rest).dropWhile p = cs.dropWhile p ++ rest := by
  induction cs with
  | nil =>
    cases rest with
    | nil => exact ⟨rfl, rfl⟩
    | cons c rest => simp [stop c rfl]
  | cons c cs ih => by_cases h : p c = true <;> simp [h, ih]

theorem Ends.digits_append (h : Ends rest) (cs : List Char) :
    (cs ++ rest).takeWhile Char.isDigit = cs.takeWhile Char.isDigit ∧
      (cs ++ rest).dropWhile Char.isDigit = cs.dropWhile Char.isDigit ++ rest := by
  refine span_append (fun c hc => ?_) cs
  by_contra digit
  exact h.head_ne (by simp [inNumber, digit]) hc

def leaving (rest : List Char) : Option (α × List Char) → Option (α × List Char) :=
  Option.map fun (a, left) => (a, left ++ rest)

/-! ### Numbers -/

theorem readMinus_append (ends : Ends rest) (cs : List Char) :
    readMinus (cs ++ rest) = ((readMinus cs).1, (readMinus cs).2 ++ rest) := by
  cases cs with
  | nil =>
    have minus := ends.head_ne (c := '-') rfl
    rw [List.nil_append, readMinus]
    · rfl
    · rintro _ rfl
      exact minus rfl
  | cons c cs => by_cases minus : c = '-' <;> simp [readMinus, minus]

theorem readSign_append (ends : Ends rest) (cs : List Char) :
    readSign (cs ++ rest) = ((readSign cs).1, (readSign cs).2 ++ rest) := by
  cases cs with
  | nil =>
    have minus := ends.head_ne (c := '-') rfl
    have plus := ends.head_ne (c := '+') rfl
    rw [List.nil_append, readSign]
    · rfl
    · rintro _ rfl
      exact minus rfl
    · rintro _ rfl
      exact plus rfl
  | cons c cs =>
    by_cases minus : c = '-' <;> by_cases plus : c = '+' <;> simp_all [readSign]

theorem readWhole_append (ends : Ends rest) (cs : List Char) :
    readWhole (cs ++ rest) = leaving rest (readWhole cs) := by
  obtain ⟨digits, behind⟩ := ends.digits_append cs
  simp only [readWhole, digits, behind, leaving]
  split <;> rfl

theorem readFraction_append (ends : Ends rest) (cs : List Char) :
    readFraction (cs ++ rest) = leaving rest (readFraction cs) := by
  cases cs with
  | nil =>
    have point := ends.head_ne (c := '.') rfl
    rw [List.nil_append, readFraction]
    · rfl
    · rintro _ rfl
      exact point rfl
  | cons c cs =>
    by_cases h : c = '.'
    · obtain ⟨digits, behind⟩ := ends.digits_append cs
      subst h
      simp only [List.cons_append, readFraction, digits, behind, leaving]
      split <;> rfl
    · simp [readFraction, h, leaving]

/-- An exponent ends at its last digit; a text without one does not go on with its mark. -/
theorem readExponent_append (ends : Ends rest) (cs : List Char) :
    readExponent (cs ++ rest) = leaving rest (readExponent cs) := by
  cases cs with
  | nil =>
    cases rest with
    | nil => rfl
    | cons c rest =>
      obtain ⟨number, capital⟩ := ends c rfl
      have mark : ¬ (c = 'e' ∨ c = 'E') := by
        rintro (rfl | he)
        · cases number
        · exact capital he
      simp [readExponent, mark, leaving]
  | cons c cs =>
    by_cases mark : c = 'e' ∨ c = 'E'
    · obtain ⟨digits, behind⟩ := ends.digits_append (readSign cs).2
      simp only [List.cons_append, readExponent, if_pos mark, readSign_append ends, digits, behind,
        leaving]
      split <;> rfl
    · simp [readExponent, mark, leaving]

theorem readLiteral_append (ends : Ends rest) (cs : List Char) :
    readLiteral (cs ++ rest) = leaving rest (readLiteral cs) := by
  simp only [readLiteral, readMinus_append ends, readWhole_append ends]
  rcases readWhole (readMinus cs).2 with _ | ⟨whole, cs⟩
  · rfl
  simp only [leaving, Option.map_some, Option.bind_eq_bind, Option.bind_some,
    readFraction_append ends]
  rcases readFraction cs with _ | ⟨fraction, cs⟩
  · rfl
  simp only [leaving, Option.map_some, Option.bind_some, readExponent_append ends]
  rcases readExponent cs with _ | ⟨exponent, cs⟩ <;> rfl

/-- A number is read alike with a text behind it at which it ends. -/
theorem readNumber_append (ends : Ends rest) (cs : List Char) :
    readNumber (cs ++ rest) = leaving rest (readNumber cs) := by
  simp only [readNumber, readLiteral_append ends]
  rcases readLiteral cs with _ | ⟨l, cs⟩
  · rfl
  · cases hv : l.value? <;> simp [leaving, hv]

theorem suffix_readMinus (cs : List Char) : (readMinus cs).2 <:+ cs := by
  unfold readMinus
  split
  · exact List.suffix_cons _ _
  · exact List.suffix_rfl

theorem suffix_readSign (cs : List Char) : (readSign cs).2 <:+ cs := by
  unfold readSign
  split
  · exact List.suffix_cons _ _
  · exact List.suffix_cons _ _
  · exact List.suffix_rfl

theorem suffix_of_readWhole {digits : List Char} (h : readWhole cs = some (digits, left)) :
    left <:+ cs := by
  simp only [readWhole] at h
  split at h
  · cases h
  · cases h
    exact List.dropWhile_suffix _

theorem suffix_of_readFraction {digits : Option (List Char)}
    (h : readFraction cs = some (digits, left)) : left <:+ cs := by
  unfold readFraction at h
  split at h
  · simp only at h
    split at h
    · cases h
    · cases h
      exact (List.dropWhile_suffix _).trans (List.suffix_cons _ _)
  · cases h
    exact List.suffix_rfl

theorem suffix_of_readExponent {exponent : Option Int}
    (h : readExponent cs = some (exponent, left)) : left <:+ cs := by
  unfold readExponent at h
  split at h
  · cases h
    exact List.suffix_rfl
  · split at h
    · simp only at h
      split at h
      · cases h
      · cases h
        exact (List.dropWhile_suffix _).trans
          ((suffix_readSign _).trans (List.suffix_cons _ _))
    · cases h
      exact List.suffix_rfl

/-- What is left of a number that is not read to its end is an end of it. -/
theorem suffix_of_readNumber {v : Json} (h : readNumber cs = some (v, left)) : left <:+ cs := by
  obtain ⟨⟨l, behind⟩, hl, h⟩ := Option.bind_eq_some_iff.mp h
  obtain ⟨_, -, h⟩ := Option.bind_eq_some_iff.mp h
  cases h
  obtain ⟨⟨whole, afterWhole⟩, hw, hl⟩ := Option.bind_eq_some_iff.mp hl
  obtain ⟨⟨fraction, afterFraction⟩, hf, hl⟩ := Option.bind_eq_some_iff.mp hl
  obtain ⟨⟨exponent, afterExponent⟩, he, hl⟩ := Option.bind_eq_some_iff.mp hl
  cases hl
  exact (suffix_of_readExponent he).trans ((suffix_of_readFraction hf).trans
    ((suffix_of_readWhole hw).trans (suffix_readMinus cs)))

/-! ### Strings -/

/-- The code of a control character is read as that character. -/
theorem readString_code {c : Char} (control : c.toNat < 32) (cs : List Char) :
    readString ('\\' :: 'u' :: '0' :: '0' :: hexDigit (c.toNat / 16) :: hexDigit (c.toNat % 16) ::
      cs) = (readString cs).map fun (s, after) => (c :: s, after) := by
  have value : ∀ n < 32, hexQuad? '0' '0' (hexDigit (n / 16)) (hexDigit (n % 16)) = some n := by
    decide
  have high : ¬ (0xD800 ≤ c.toNat ∧ c.toNat < 0xDC00) := by omega
  have low : ¬ (0xDC00 ≤ c.toNat ∧ c.toNat < 0xE000) := by omega
  simp only [readString, value _ control, Option.bind_eq_bind, Option.bind_some, if_neg high,
    if_neg low, Char.ofNat_toNat]
  cases readString cs <;> rfl

/-- Each character is read back from what is written for it, and nothing more is read. -/
theorem readString_escapeChar (c : Char) (cs : List Char) :
    readString (escapeChar c ++ cs) = (readString cs).map fun (s, after) => (c :: s, after) := by
  have simple (e : Char) (short : simpleEscape? e = some c) (notCode : e ≠ 'u') :
      readString ('\\' :: e :: cs) = (readString cs).map fun (s, after) => (c :: s, after) := by
    rw [readString]
    · simp only [short, Option.bind_eq_bind, Option.bind_some]
      cases readString cs <;> rfl
    · intro _ _ _ _ _ he
      exact absurd he notCode
  have code {n : Nat} (he : c.toNat = n) : c = Char.ofNat n := by rw [← he, Char.ofNat_toNat]
  unfold escapeChar
  iterate 5
    split
    · subst_vars
      exact simple _ rfl (by decide)
  split
  · rw [code ‹_›] at simple ⊢
    exact simple 'b' rfl (by decide)
  split
  · rw [code ‹_›] at simple ⊢
    exact simple 'f' rfl (by decide)
  split
  · exact readString_code ‹_› cs
  · rename_i quote backslash _ _ _ _ _ control
    rw [List.singleton_append, readString, if_neg control]
    · cases readString cs <;> rfl
    · exact quote
    · rintro _ _ _ _ _ rfl
      exact absurd rfl backslash
    · rintro _ _ rfl
      exact absurd rfl backslash

theorem readString_quoted (cs rest : List Char) :
    readString (cs.flatMap escapeChar ++ '"' :: rest) = some (cs, rest) := by
  induction cs with
  | nil => rfl
  | cons c cs ih =>
    rw [List.flatMap_cons, List.append_assoc, readString_escapeChar, ih]
    rfl

/-! ### Values -/

theorem skipBlank_cons {c : Char} (solid : isBlank c = false) (cs : List Char) :
    skipBlank (c :: cs) = c :: cs := by
  simp [skipBlank, solid]

theorem not_isBlank_of_inNumber {c : Char} (h : inNumber c = true) : isBlank c = false := by
  by_contra blank
  simp only [isBlank, Bool.not_eq_false, Bool.or_eq_true, beq_iff_eq] at blank
  rcases blank with ((rfl | rfl) | rfl) | rfl <;> cases h

def joined (texts : List String) : List Char := (String.intercalate "," texts).toList

theorem joined_singleton (s : String) : joined [s] = s.toList := by
  rw [joined, String.intercalate_singleton]

theorem joined_cons_cons (s t : String) (texts : List String) :
    joined (s :: t :: texts) = s.toList ++ ',' :: joined (t :: texts) := by
  simp [joined, String.intercalate_cons_cons]

theorem toList_text_array (xs : List Json) :
    (text (array xs)).toList = '[' :: joined (elementTexts xs) ++ [']'] := by
  simp [text, joined]

theorem toList_text_object (ms : List (String × Json)) :
    (text (object ms)).toList = '\x7b' :: joined (memberTexts ms) ++ ['\x7d'] := by
  simp [text, joined]

theorem toList_quote (s : String) :
    (quote s).toList = '"' :: s.toList.flatMap escapeChar ++ ['"'] := by
  rw [quote, String.toList_ofList]

/-- A value is read and the text behind it is left. Where there is no value nothing is read, or only
the front of a number. -/
def ReadsBack (found : Option (Json × List Char)) (value : Option Json) (rest : List Char) : Prop :=
  found = value.map (·, rest) ∨
    value = none ∧ ∃ v c left, found = some (v, c :: left) ∧ inNumber c = true

theorem readValue_number {fuel : Nat} {c : Char} (number : inNumber c = true) (cs : List Char) :
    readValue (fuel + 1) n (c :: cs) = readNumber (c :: cs) := by
  unfold readValue
  rw [skipBlank_cons (not_isBlank_of_inNumber number)]
  split <;> rename_i he <;> first | rfl | (cases he; cases number)

/-- The text of a number is read alike with another text behind it. -/
theorem readsBack_number {text : String} {c : Char} {cs : List Char} (shape : text.toList = c :: cs)
    (number : ∀ c ∈ text.toList, inNumber c = true) (ends : Ends rest) {fuel : Nat}
    (enough : 0 < fuel) :
    ReadsBack (readValue fuel n (text.toList ++ rest)) (readAsNumber? text) rest := by
  obtain ⟨fuel, rfl⟩ := Nat.exists_eq_add_of_le' enough
  have read : readValue (fuel + 1) n (text.toList ++ rest) =
      leaving rest (readNumber text.toList) := by
    rw [← readNumber_append ends, shape]
    exact readValue_number (number c (by simp [shape])) _
  rw [read, readAsNumber?]
  cases h : readNumber text.toList with
  | none => exact .inl rfl
  | some found =>
    obtain ⟨v, left⟩ := found
    cases left with
    | nil => exact .inl rfl
    | cons c left =>
      have inside : c ∈ text.toList := (suffix_of_readNumber h).subset List.mem_cons_self
      exact .inr ⟨rfl, v, c, left ++ rest, rfl, number c inside⟩

theorem intText_eq_cons (m : Int) : ∃ c cs, (intText m).toList = c :: cs := by
  obtain ⟨c, cs, digits, -⟩ := digitsOfNat_eq_cons m.natAbs
  rw [toList_intText, digits]
  split
  · exact ⟨_, _, rfl⟩
  · exact ⟨_, _, rfl⟩

theorem floatText_eq_cons (x : Binary64) : ∃ c cs, x.text.toList = c :: cs := by
  have placed (d : Decimal) : Binary64.positional d 1 ≠ [] := by
    unfold Binary64.positional
    split
    · simp
    · intro none
      simp only at none
      split at none
      · rename_i short
        obtain ⟨digits, filled⟩ := List.append_eq_nil_iff.mp (List.isEmpty_iff.mp short)
        simp [digits, Binary64.zeros] at filled
      · simp at none
  have scaled (d : Decimal) : Binary64.scientific d ≠ [] := by simp [Binary64.scientific]
  unfold Binary64.text Binary64.signed
  rw [String.toList_ofList]
  split
  · exact ⟨_, _, rfl⟩
  · refine List.exists_cons_of_ne_nil ?_
    split
    · exact placed _
    · exact scaled _

/-- No value starts with a blank or a closing bracket. -/
theorem text_eq_cons (j : Json) :
    ∃ c cs, j.text.toList = c :: cs ∧ isBlank c = false ∧ c ≠ ']' := by
  have number {c : Char} (h : inNumber c = true) : isBlank c = false ∧ c ≠ ']' := by
    refine ⟨not_isBlank_of_inNumber h, ?_⟩
    rintro rfl
    cases h
  cases j with
  | null => exact ⟨'n', _, rfl, by decide⟩
  | bool b => cases b <;> exact ⟨_, _, rfl, by decide⟩
  | int m =>
    obtain ⟨c, cs, shape⟩ := intText_eq_cons m
    exact ⟨c, cs, shape, number (inNumber_of_mem_intText (shape ▸ List.mem_cons_self))⟩
  | float x =>
    obtain ⟨c, cs, shape⟩ := floatText_eq_cons x
    exact ⟨c, cs, shape, number (Binary64.inNumber_of_mem_text (shape ▸ List.mem_cons_self))⟩
  | string s => exact ⟨_, _, toList_quote s, by decide⟩
  | array xs => exact ⟨_, _, toList_text_array xs, by decide⟩
  | object ms => exact ⟨_, _, toList_text_object ms, by decide⟩

/-! ### Lists and objects -/

section

variable {fuel : Nat} {v : Json} {c : Char}

/-- After a number that breaks off no element follows. -/
theorem readElements_broken (read : readValue fuel n cs = some (v, c :: left))
    (number : inNumber c = true) : readElements (fuel + 1) n cs = none := by
  have comma : c ≠ ',' := by rintro rfl; cases number
  have bracket : c ≠ ']' := by rintro rfl; cases number
  simp [readElements, read, skipBlank_cons (not_isBlank_of_inNumber number), comma, bracket]

def memberHead (key : String) : List Char :=
  '"' :: (key.toList.flatMap escapeChar ++ ['"', ':'])

/-- A member is told by its key, and read on from the colon. -/
theorem readMembers_head (key : String) (cs : List Char) :
    readMembers (fuel + 1) n (memberHead key ++ cs) = (do
      let (v, rest) ← readValue fuel n cs
      match skipBlank rest with
      | ',' :: rest =>
        let (fs, rest) ← readMembers fuel n rest
        some ((key, v) :: fs, rest)
      | '\x7d' :: rest => some ([(key, v)], rest)
      | _ => none) := by
  have quoted : memberHead key ++ cs =
      '"' :: (key.toList.flatMap escapeChar ++ '"' :: ':' :: cs) := by simp [memberHead]
  rw [quoted, readMembers, skipBlank_cons (by decide)]
  simp only [readString_quoted, Option.bind_eq_bind, Option.bind_some]
  rw [skipBlank_cons (by decide), String.ofList_toList]
  rfl

theorem readMembers_broken {key : String} (read : readValue fuel n cs = some (v, c :: left))
    (number : inNumber c = true) : readMembers (fuel + 1) n (memberHead key ++ cs) = none := by
  have comma : c ≠ ',' := by rintro rfl; cases number
  have brace : c ≠ '\x7d' := by rintro rfl; cases number
  simp [readMembers_head, read, skipBlank_cons (not_isBlank_of_inNumber number), comma, brace]

end

theorem toList_memberText (key : String) (x : Json) :
    (quote key ++ ":" ++ x.text).toList = memberHead key ++ x.text.toList := by
  simp [toList_quote, memberHead]

/-- Reading again changes no key. -/
theorem keys_rereadMembers? {ms ns : Keyed Json} (h : rereadMembers? n ms = some ns) :
    ns.keys = ms.keys := by
  induction ms generalizing ns with
  | nil =>
    cases h
    rfl
  | cons p ms ih =>
    obtain ⟨key, x⟩ := p
    obtain ⟨y, -, h⟩ := Option.bind_eq_some_iff.mp h
    obtain ⟨ns', hms, h⟩ := Option.bind_eq_some_iff.mp h
    cases h
    exact congrArg (key :: ·) (ih hms)

theorem ends_comma (rest : List Char) : Ends (',' :: rest) := ends_cons (by decide) rest

theorem exists_joined_members (key : String) (x : Json) (ms : List (String × Json)) :
    ∃ cs, joined (memberTexts ((key, x) :: ms)) = '"' :: cs := by
  cases ms with
  | nil =>
    rw [memberTexts, memberTexts, joined_singleton, toList_memberText]
    exact ⟨_, rfl⟩
  | cons p ms =>
    rw [memberTexts, memberTexts, joined_cons_cons, toList_memberText]
    exact ⟨_, rfl⟩

theorem exists_joined_elements (x : Json) (xs : List Json) :
    ∃ c cs, joined (elementTexts (x :: xs)) = c :: cs ∧ isBlank c = false ∧ c ≠ ']' := by
  obtain ⟨c, cs, shape, solid, bracket⟩ := text_eq_cons x
  cases xs with
  | nil => exact ⟨c, cs, (joined_singleton _).trans shape, solid, bracket⟩
  | cons y ys =>
    refine ⟨c, cs ++ ',' :: joined (elementTexts (y :: ys)), ?_, solid, bracket⟩
    rw [elementTexts, elementTexts, joined_cons_cons, shape]
    rfl

variable {fuel : Nat}

/-- A list is read back if its elements are, up to the closing bracket. -/
theorem readsBack_array (x : Json) (xs : List Json)
    (items : ∀ fuel n, 2 * (joined (elementTexts (x :: xs))).length + 1 < fuel →
      readElements fuel n (joined (elementTexts (x :: xs)) ++ ']' :: rest) =
        (rereadElements? n (x :: xs)).map (·, rest))
    (enough : 2 * (array (x :: xs)).text.toList.length < fuel) :
    ReadsBack (readValue fuel n ((array (x :: xs)).text.toList ++ rest))
      (reread? n (array (x :: xs))) rest := by
  left
  obtain ⟨c, cs, shape, solid, bracket⟩ := exists_joined_elements x xs
  rw [toList_text_array] at enough ⊢
  simp only [List.length_cons, List.length_append, List.length_nil] at enough
  obtain ⟨fuel, rfl⟩ : ∃ m, fuel = m + 1 := ⟨fuel - 1, by omega⟩
  rw [List.append_assoc, List.cons_append, readValue, skipBlank_cons (by decide)]
  cases n with
  | zero => simp [reread?]
  | succ n =>
    have items := items fuel n (by omega)
    simp only [shape, List.cons_append, List.nil_append] at items ⊢
    cases h : rereadElements? n (x :: xs) <;>
      simp [skipBlank_cons solid, bracket, items, reread?, h]

/-- An object in key order is read back if its members are, up to the closing brace. -/
theorem readsBack_object (key : String) (x : Json) (ms : List (String × Json))
    (sorted : Keyed.Sorted ((key, x) :: ms))
    (members : ∀ fuel n, 2 * (joined (memberTexts ((key, x) :: ms))).length + 1 < fuel →
      readMembers fuel n (joined (memberTexts ((key, x) :: ms)) ++ '\x7d' :: rest) =
        (rereadMembers? n ((key, x) :: ms)).map (·, rest))
    (enough : 2 * (object ((key, x) :: ms)).text.toList.length < fuel) :
    ReadsBack (readValue fuel n ((object ((key, x) :: ms)).text.toList ++ rest))
      (reread? n (object ((key, x) :: ms))) rest := by
  left
  obtain ⟨cs, shape⟩ := exists_joined_members key x ms
  rw [toList_text_object] at enough ⊢
  simp only [List.length_cons, List.length_append, List.length_nil] at enough
  obtain ⟨fuel, rfl⟩ : ∃ m, fuel = m + 1 := ⟨fuel - 1, by omega⟩
  rw [List.append_assoc, List.cons_append, readValue, skipBlank_cons (by decide)]
  cases n with
  | zero => simp [reread?]
  | succ n =>
    have members := members fuel n (by omega)
    simp only [shape, List.cons_append, List.nil_append] at members ⊢
    cases h : rereadMembers? n ((key, x) :: ms) with
    | none => simp [skipBlank_cons, isBlank, members, reread?, h]
    | some ns =>
      have kept : Keyed.Sorted ns := by
        rw [Keyed.Sorted, keys_rereadMembers? h]
        exact sorted
      simp [skipBlank_cons, isBlank, members, reread?, h, ofMembers, kept.ofList_eq]

mutual

/-- A value in key order is read back from its text, with any text behind it at which a number
ends. -/
theorem readValue_text : (j : Json) → j.Ordered → (fuel n : Nat) → (rest : List Char) →
    2 * j.text.toList.length < fuel → Ends rest →
      ReadsBack (readValue fuel n (j.text.toList ++ rest)) (reread? n j) rest
  | null, _, fuel, n, rest, enough, _ | bool true, _, fuel, n, rest, enough, _
  | bool false, _, fuel, n, rest, enough, _ => by
    obtain ⟨fuel, rfl⟩ := Nat.exists_eq_add_of_lt enough
    left
    simp [text, readValue, skipBlank, isBlank, reread?]
  | int m, _, fuel, n, rest, enough, ends => by
    obtain ⟨c, cs, shape⟩ := intText_eq_cons m
    exact readsBack_number shape (fun _ => inNumber_of_mem_intText) ends (by omega)
  | float x, _, fuel, n, rest, enough, ends => by
    obtain ⟨c, cs, shape⟩ := floatText_eq_cons x
    exact readsBack_number shape (fun _ => Binary64.inNumber_of_mem_text) ends (by omega)
  | string s, _, fuel, n, rest, enough, _ => by
    obtain ⟨fuel, rfl⟩ := Nat.exists_eq_add_of_lt enough
    left
    have quoted : (string s).text.toList ++ rest =
        '"' :: (s.toList.flatMap escapeChar ++ '"' :: rest) := by
      simp [text, toList_quote]
    rw [quoted, readValue, skipBlank_cons (by decide)]
    simp [readString_quoted, reread?]
  | array [], _, fuel, n, rest, enough, _ => by
    obtain ⟨fuel, rfl⟩ := Nat.exists_eq_add_of_lt enough
    left
    cases n <;> simp [text, elementTexts, readValue, skipBlank, isBlank, reread?, rereadElements?]
  | array (x :: xs), ordered, fuel, n, rest, enough, _ =>
    readsBack_array x xs (fun fuel n => readElements_joined (x :: xs) (List.cons_ne_nil x xs)
      (fun _ => ordered.of_mem) fuel n rest) enough
  | object [], _, fuel, n, rest, enough, _ => by
    obtain ⟨fuel, rfl⟩ := Nat.exists_eq_add_of_lt enough
    left
    cases n <;> simp [text, memberTexts, readValue, skipBlank, isBlank, reread?, rereadMembers?]
  | object ((key, x) :: ms), ordered, fuel, n, rest, enough, _ =>
    readsBack_object key x ms ordered.sorted
      (fun fuel n => readMembers_joined ((key, x) :: ms) (List.cons_ne_nil _ ms)
        (fun _ => ordered.of_mem_members) fuel n rest) enough

/-- Elements in key order are read back up to the closing bracket. -/
theorem readElements_joined : (xs : List Json) → xs ≠ [] → (∀ x ∈ xs, x.Ordered) →
    (fuel n : Nat) → (rest : List Char) → 2 * (joined (elementTexts xs)).length + 1 < fuel →
      readElements fuel n (joined (elementTexts xs) ++ ']' :: rest) =
        (rereadElements? n xs).map (·, rest)
  | [], filled => absurd rfl filled
  | [x], _ => by
    intro ordered fuel n rest enough
    obtain ⟨fuel, rfl⟩ : ∃ m, fuel = m + 1 := ⟨fuel - 1, by omega⟩
    rw [elementTexts, elementTexts, joined_singleton] at enough ⊢
    rcases readValue_text x (ordered x List.mem_cons_self) fuel n (']' :: rest) (by omega)
      (ends_cons (by decide) rest) with read | ⟨absent, v, c, left, read, number⟩
    · cases h : reread? n x <;> simp [readElements, read, rereadElements?, h, skipBlank, isBlank]
    · simp [readElements_broken read number, rereadElements?, absent]
  | x :: y :: ys, _ => by
    intro ordered fuel n rest enough
    obtain ⟨fuel, rfl⟩ : ∃ m, fuel = m + 1 := ⟨fuel - 1, by omega⟩
    have texts : joined (elementTexts (x :: y :: ys)) =
        x.text.toList ++ ',' :: joined (elementTexts (y :: ys)) := joined_cons_cons _ _ _
    rw [texts, List.length_append, List.length_cons] at enough
    rw [texts, List.append_assoc, List.cons_append]
    have elements := readElements_joined (y :: ys) (List.cons_ne_nil y ys)
      (fun z hz => ordered z (List.mem_cons_of_mem x hz)) fuel n rest (by omega)
    rcases readValue_text x (ordered x List.mem_cons_self) fuel n _ (by omega)
      (ends_comma (joined (elementTexts (y :: ys)) ++ ']' :: rest)) with
      read | ⟨absent, v, c, left, read, number⟩
    · cases h : reread? n x with
      | none => simp [readElements, read, rereadElements?, h]
      | some z =>
        rw [rereadElements?, h]
        rw [h, Option.map_some] at read
        cases hs : rereadElements? n (y :: ys) <;>
          simp [readElements, read, elements, hs, skipBlank, isBlank]
    · simp [readElements_broken read number, rereadElements?, absent]

/-- Members in key order are read back up to the closing brace. -/
theorem readMembers_joined : (ms : List (String × Json)) → ms ≠ [] →
    (∀ p ∈ ms, p.2.Ordered) → (fuel n : Nat) → (rest : List Char) →
    2 * (joined (memberTexts ms)).length + 1 < fuel →
      readMembers fuel n (joined (memberTexts ms) ++ '\x7d' :: rest) =
        (rereadMembers? n ms).map (·, rest)
  | [], filled => absurd rfl filled
  | [(key, x)], _ => by
    intro ordered fuel n rest enough
    obtain ⟨fuel, rfl⟩ : ∃ m, fuel = m + 1 := ⟨fuel - 1, by omega⟩
    have head : 0 < (memberHead key).length := Nat.succ_pos _
    rw [memberTexts, memberTexts, joined_singleton, toList_memberText] at enough ⊢
    rw [List.length_append] at enough
    rw [List.append_assoc]
    rcases readValue_text x (ordered (key, x) List.mem_cons_self) fuel n ('\x7d' :: rest)
      (by omega) (ends_cons (by decide) rest) with read | ⟨absent, v, c, left, read, number⟩
    · cases h : reread? n x <;>
        simp [readMembers_head, read, rereadMembers?, h, skipBlank, isBlank]
    · simp [readMembers_broken read number, rereadMembers?, absent]
  | (key, x) :: (key', y) :: ms, _ => by
    intro ordered fuel n rest enough
    obtain ⟨fuel, rfl⟩ : ∃ m, fuel = m + 1 := ⟨fuel - 1, by omega⟩
    have texts : joined (memberTexts ((key, x) :: (key', y) :: ms)) =
        memberHead key ++ (x.text.toList ++ ',' :: joined (memberTexts ((key', y) :: ms))) := by
      rw [memberTexts, memberTexts, joined_cons_cons, toList_memberText, List.append_assoc]
    rw [texts, List.length_append, List.length_append, List.length_cons] at enough
    rw [texts, List.append_assoc, List.append_assoc, List.cons_append]
    have members := readMembers_joined ((key', y) :: ms) (List.cons_ne_nil _ ms)
      (fun p hp => ordered p (List.mem_cons_of_mem (key, x) hp)) fuel n rest (by omega)
    rcases readValue_text x (ordered (key, x) List.mem_cons_self) fuel n _ (by omega)
      (ends_comma (joined (memberTexts ((key', y) :: ms)) ++ '\x7d' :: rest)) with
      read | ⟨absent, v, c, left, read, number⟩
    · cases h : reread? n x with
      | none => simp [readMembers_head, read, rereadMembers?, h]
      | some z =>
        rw [rereadMembers?, h]
        rw [h, Option.map_some] at read
        cases hs : rereadMembers? n ((key', y) :: ms) <;>
          simp [readMembers_head, read, members, hs, skipBlank, isBlank]
    · simp [readMembers_broken read number, rereadMembers?, absent]

end

/-- Reading the text of a value in key order is reading the value again. -/
theorem read?_text {j : Json} (ordered : j.Ordered) (n : Nat) : read? n j.text = j.reread? n := by
  have whole := readValue_text j ordered (2 * j.text.toList.length + 2) n [] (by omega) ends_nil
  rw [List.append_nil] at whole
  rw [read?]
  rcases whole with read | ⟨absent, v, c, left, read, number⟩
  · rw [read]
    cases j.reread? n <;> rfl
  · rw [read, absent]
    simp [skipBlank_cons (not_isBlank_of_inNumber number)]

/-- What is read from a text can be printed and read again, and all but its numbers stays. -/
theorem read?_text_of_read? {m n : Nat} {text : String} {j : Json} (h : read? m text = some j) :
    read? n j.text = j.reread? n :=
  read?_text (ordered_of_read? h) n

end Json

end ApiContract
