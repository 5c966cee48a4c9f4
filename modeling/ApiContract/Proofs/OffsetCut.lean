import ApiContract.Payload.Interruption
import ApiContract.Proofs.IssueLocation

/-!
# Where reading a datetime breaks off

The offset of a datetime is cut after three bytes when it takes five. That is after the hours when
all digits are ASCII, but digits of any script pass, and a sign with one digit of one byte and one of
three takes five bytes as well. Exactly these offsets break the reading off.
-/

namespace ApiContract

namespace Temporal

structure DecimalDigits (n : Nat) (cs : List Char) : Prop where
  length : cs.length = n
  decimal : ∀ c ∈ cs, isDecimal c = true

inductive IsFraction : List Char → Prop where
  | none : IsFraction []
  | some {c : Char} {ds : List Char} (decimal : ∀ d ∈ c :: ds, isDecimal d = true) :
      IsFraction ('.' :: c :: ds)

/-- A date and a time of day in digits of any script, without an offset. -/
inductive Outlined : List Char → Prop where
  | intro {y m d h n s f : List Char} (hy : DecimalDigits 4 y) (hm : DecimalDigits 2 m)
      (hd : DecimalDigits 2 d) (hh : DecimalDigits 2 h) (hn : DecimalDigits 2 n)
      (hs : DecimalDigits 2 s) (hf : IsFraction f) :
      Outlined (y ++ '-' :: m ++ '-' :: d ++ 'T' :: h ++ ':' :: n ++ ':' :: s ++ f)

/-! ### The outline -/

theorem mark_eq_some_iff (c : Char) (cs rest : List Char) :
    mark c cs = some rest ↔ cs = c :: rest := by
  cases cs with
  | nil => simp [mark]
  | cons d cs =>
    simp only [mark, Option.ite_none_right_eq_some, Option.some.injEq, List.cons.injEq]
    constructor
    · rintro ⟨rfl, rfl⟩
      exact ⟨rfl, rfl⟩
    · rintro ⟨rfl, rfl⟩
      exact ⟨rfl, rfl⟩

/-- So many digits of any script are read, and no more is said of them. -/
theorem anyDigits_eq_some_iff (n : Nat) (cs ds rest : List Char) :
    anyDigits n cs = some (ds, rest) ↔ DecimalDigits n ds ∧ cs = ds ++ rest := by
  induction n generalizing cs ds with
  | zero =>
    simp only [anyDigits, Option.some.injEq, Prod.mk.injEq]
    constructor
    · rintro ⟨rfl, rfl⟩
      exact ⟨⟨rfl, by simp⟩, rfl⟩
    · rintro ⟨h, rfl⟩
      obtain rfl := List.length_eq_zero_iff.mp h.length
      exact ⟨rfl, rfl⟩
  | succ n ih =>
    cases cs with
    | nil =>
      simp only [anyDigits, reduceCtorEq, false_iff]
      rintro ⟨h, he⟩
      have hl := h.length
      rw [(List.append_eq_nil_iff.mp he.symm).1] at hl
      cases hl
    | cons c cs =>
      simp only [anyDigits, Option.ite_none_right_eq_some]
      constructor
      · rintro ⟨hc, hm⟩
        obtain ⟨⟨ds', rest'⟩, hr, he⟩ := Option.map_eq_some_iff.mp hm
        obtain ⟨rfl, rfl⟩ : c :: ds' = ds ∧ rest' = rest := Prod.mk.inj he
        obtain ⟨h, rfl⟩ := (ih cs ds').mp hr
        refine ⟨⟨by simp [h.length], ?_⟩, rfl⟩
        intro d hd
        rcases List.mem_cons.mp hd with rfl | hd
        · exact hc
        · exact h.decimal d hd
      · rintro ⟨h, he⟩
        cases ds with
        | nil => cases h.length
        | cons d ds =>
          obtain ⟨rfl, rfl⟩ : c = d ∧ cs = ds ++ rest := List.cons.inj he
          have hl := h.length
          rw [List.length_cons] at hl
          have hds : DecimalDigits n ds :=
            ⟨by omega, fun d hd => h.decimal d (List.mem_cons_of_mem c hd)⟩
          refine ⟨h.decimal c List.mem_cons_self, ?_⟩
          rw [(ih (ds ++ rest) ds).mpr ⟨hds, rfl⟩]
          rfl

/-- A fraction is read up to the first character that is no digit. -/
theorem anyFraction_append {f : List Char} (hf : IsFraction f) {c : Char} (rest : List Char)
    (hp : c ≠ '.') (hc : isDecimal c = false) :
    anyFraction (f ++ c :: rest) = some (f, c :: rest) := by
  cases hf with
  | none => simp [anyFraction, hp]
  | @some d ds decimal =>
    have ht : (d :: ds ++ c :: rest).takeWhile isDecimal = d :: ds := by
      rw [List.takeWhile_append_of_pos decimal]
      simp [hc]
    simp only [List.cons_append] at ht
    simp [anyFraction, ht]

/-- What is read as a fraction is one. -/
theorem isFraction_of_anyFraction {cs f rest : List Char} (h : anyFraction cs = some (f, rest)) :
    IsFraction f ∧ cs = f ++ rest := by
  unfold anyFraction at h
  split at h
  · rename_i digits
    simp only at h
    cases hd : digits.takeWhile isDecimal with
    | nil => simp [hd] at h
    | cons c ds =>
      simp only [hd, List.isEmpty_cons, Bool.false_eq_true, if_false, Option.some.injEq,
        Prod.mk.injEq] at h
      obtain ⟨rfl, rfl⟩ := h
      have ha : (c :: ds) ++ digits.drop (c :: ds).length = digits :=
        List.prefix_iff_eq_append.mp (hd ▸ List.takeWhile_prefix isDecimal)
      refine ⟨.some ?_, by rw [List.cons_append, ha]⟩
      rw [← hd]
      exact List.all_eq_true.mp List.all_takeWhile
  · cases h
    exact ⟨.none, rfl⟩

/-- An outline is read up to the offset. -/
theorem outline_append {body : List Char} (hb : Outlined body) {c : Char} (rest : List Char)
    (hp : c ≠ '.') (hc : isDecimal c = false) :
    outline (body ++ c :: rest) = some (body, c :: rest) := by
  cases hb with
  | @intro y m d h n s f hy hm hd hh hn hs hf =>
    have read : ∀ {k : Nat} {ds : List Char} (back : List Char), DecimalDigits k ds →
        anyDigits k (ds ++ back) = some (ds, back) :=
      fun back hds => (anyDigits_eq_some_iff ..).mpr ⟨hds, rfl⟩
    have pass : ∀ (x : Char) (back : List Char), mark x (x :: back) = some back :=
      fun x back => (mark_eq_some_iff ..).mpr rfl
    simp only [outline, List.append_assoc, List.cons_append, read _ hy, read _ hm, read _ hd,
      read _ hh, read _ hn, read _ hs, pass, anyFraction_append hf rest hp hc,
      Option.bind_eq_bind, Option.bind_some]

theorem outlined_of_outline {cs body rest : List Char} (h : outline cs = some (body, rest)) :
    Outlined body ∧ cs = body ++ rest := by
  simp only [outline, Option.bind_eq_bind, Option.bind_eq_some_iff, Prod.exists,
    anyDigits_eq_some_iff, mark_eq_some_iff] at h
  obtain ⟨y, _, ⟨hy, rfl⟩, _, rfl, m, _, ⟨hm, rfl⟩, _, rfl, d, _, ⟨hd, rfl⟩, _, rfl, h', _,
    ⟨hh, rfl⟩, _, rfl, n, _, ⟨hn, rfl⟩, _, rfl, s, _, ⟨hs, rfl⟩, f, _, hr, he⟩ := h
  obtain ⟨hf, rfl⟩ := isFraction_of_anyFraction hr
  obtain ⟨rfl, rfl⟩ := Prod.mk.inj (Option.some.inj he)
  exact ⟨.intro hy hm hd hh hn hs hf, by simp⟩

/-! ### The cut -/

/-- A sign and two digits of which one takes one byte and the other three. -/
structure SplitOffset (sign a b : Char) : Prop where
  sign : sign = '+' ∨ sign = '-'
  decimal : isDecimal a = true ∧ isDecimal b = true
  sizes : a.utf8Size = 1 ∧ b.utf8Size = 3 ∨ a.utf8Size = 3 ∧ b.utf8Size = 1

theorem spellOffset_eq_error_iff_cut (offset : List Char) :
    (∃ e, spellOffset offset = .error e) ↔ byteLength offset = 5 ∧ cutAt? 3 offset = none := by
  unfold spellOffset
  by_cases h3 : byteLength offset = 3
  · simp [h3]
  · by_cases h5 : byteLength offset = 5
    · cases hc : cutAt? 3 offset <;> simp [h5]
    · simp [h3, h5]

/-- A sign and two digits cannot be cut after three bytes if the first digit ends behind it, or if
it ends in front of it and the second does not end there. -/
theorem cut_hours_iff {sign a b : Char} (hs : sign.utf8Size = 1) :
    byteLength [sign, a, b] = 5 ∧ cutAt? 3 [sign, a, b] = none ↔
      a.utf8Size = 1 ∧ b.utf8Size = 3 ∨ a.utf8Size = 3 ∧ b.utf8Size = 1 := by
  have hl : byteLength [sign, a, b] = 1 + (a.utf8Size + b.utf8Size) := by
    simp [byteLength, hs]
  rw [hl]
  rcases Char.utf8Size_eq a with ha | ha | ha | ha <;>
    rcases Char.utf8Size_eq b with hb | hb | hb | hb <;>
    simp [cutAt?, hs, ha, hb]

/-- Four digits take five bytes with the sign only as one byte each, which can be cut anywhere. -/
theorem cut_minutes {sign a b c d : Char} (h : byteLength [sign, a, b, c, d] = 5) :
    cutAt? 3 [sign, a, b, c, d] ≠ none := by
  have hl : byteLength [sign, a, b, c, d] =
      sign.utf8Size + (a.utf8Size + (b.utf8Size + (c.utf8Size + d.utf8Size))) := rfl
  have h0 := sign.utf8Size_pos
  have h1 := a.utf8Size_pos
  have h2 := b.utf8Size_pos
  have h3 := c.utf8Size_pos
  have h4 := d.utf8Size_pos
  have hs : sign.utf8Size = 1 := by omega
  have ha : a.utf8Size = 1 := by omega
  have hb : b.utf8Size = 1 := by omega
  simp [cutAt?, hs, ha, hb]

/-- With a colon four digits take more than five bytes. -/
theorem byteLength_of_minutes (sign a b c d : Char) :
    6 ≤ byteLength [sign, a, b, ':', c, d] := by
  have hl : byteLength [sign, a, b, ':', c, d] =
      sign.utf8Size + (a.utf8Size + (b.utf8Size + (1 + (c.utf8Size + d.utf8Size)))) := rfl
  have h0 := sign.utf8Size_pos
  have h1 := a.utf8Size_pos
  have h2 := b.utf8Size_pos
  have h3 := c.utf8Size_pos
  have h4 := d.utf8Size_pos
  omega

theorem utf8Size_of_sign {sign : Char} (h : sign = '+' ∨ sign = '-') : sign.utf8Size = 1 := by
  rcases h with rfl | rfl <;> rfl

/-- Spelling an offset out breaks off exactly at a sign with two digits that split. -/
theorem spellOffset_eq_error_iff {offset : List Char} (ho : isOffsetOutline offset = true) :
    (∃ e, spellOffset offset = .error e) ↔
      ∃ sign a b, offset = [sign, a, b] ∧ SplitOffset sign a b := by
  rw [spellOffset_eq_error_iff_cut]
  constructor
  · rintro ⟨h5, hc⟩
    unfold isOffsetOutline at ho
    split at ho
    · have h1 : byteLength ['Z'] = 1 := rfl
      omega
    · rename_i sign a b rest
      simp only [Bool.and_eq_true, Bool.or_eq_true, beq_iff_eq] at ho
      obtain ⟨⟨⟨hs, ha⟩, hb⟩, hr⟩ := ho
      have h1 := utf8Size_of_sign hs
      split at hr
      · exact ⟨sign, a, b, rfl, hs, ⟨ha, hb⟩, (cut_hours_iff h1).mp ⟨h5, hc⟩⟩
      · exact absurd hc (cut_minutes h5)
      · rename_i c d
        have h6 := byteLength_of_minutes sign a b c d
        omega
      · cases hr
    · cases ho
  · rintro ⟨sign, a, b, rfl, h⟩
    exact (cut_hours_iff (utf8Size_of_sign h.sign)).mpr h.sizes

end Temporal

open Temporal

/-- A text with the outline of a datetime whose offset splits. -/
def SplitDatetime (s : String) : Prop :=
  ∃ body sign a b, s.toList = body ++ [sign, a, b] ∧ Outlined body ∧ SplitOffset sign a b

/-- Reading a text as a datetime breaks off exactly if its offset splits. -/
theorem breaksOff_iff (s : String) : breaksOff s = true ↔ SplitDatetime s := by
  have hb : breaksOff s = true ↔ ∃ e, readDatetime s = .error e := by
    unfold breaksOff
    cases readDatetime s <;> simp
  rw [hb]
  constructor
  · rintro ⟨e, he⟩
    unfold readDatetime at he
    split at he
    · rename_i body offset ho
      split at he
      · rename_i hoff
        have hs : ∃ e, spellOffset offset = .error e := by
          cases hs : spellOffset offset with
          | ok spelled => simp [hs, Except.map] at he
          | error e => exact ⟨e, rfl⟩
        obtain ⟨sign, a, b, rfl, h⟩ := (spellOffset_eq_error_iff hoff).mp hs
        obtain ⟨hbody, hcs⟩ := outlined_of_outline ho
        exact ⟨body, sign, a, b, hcs, hbody, h⟩
      · cases he
    · cases he
  · rintro ⟨body, sign, a, b, hs, hbody, h⟩
    have hsign : sign ≠ '.' ∧ isDecimal sign = false := by
      rcases h.sign with rfl | rfl <;> decide +kernel
    have ho : outline s.toList = some (body, [sign, a, b]) := by
      rw [hs]
      exact outline_append hbody [a, b] hsign.1 hsign.2
    have hoff : isOffsetOutline [sign, a, b] = true := by
      simp [isOffsetOutline, h.sign, h.decimal.1, h.decimal.2]
    obtain ⟨e, he⟩ := (spellOffset_eq_error_iff hoff).mpr ⟨sign, a, b, rfl, h⟩
    refine ⟨e, ?_⟩
    simp [readDatetime, ho, hoff, he, Except.map]

end ApiContract
