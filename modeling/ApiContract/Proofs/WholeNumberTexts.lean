import ApiContract.Proofs.CompletedTexts
import ApiContract.Schema.ScalarCoercion
import Mathlib.Data.List.TakeWhile

/-!
# Whole numbers in texts

A whole number as a text is read back as the number if it has 63 bits and a sign. Beyond that range
the text is no integer, and for the other numeric kinds it is the nearest binary fraction, while the
number itself is kept.
-/

namespace ApiContract

open Temporal Json

/-! ### The text of a number -/

/-- The characters of a number's text are digits and perhaps a minus sign. -/
theorem toList_intText (n : Int) :
    (intText n).toList =
      if n < 0 then '-' :: Decimal.digitsOfNat n.natAbs else Decimal.digitsOfNat n.natAbs := by
  rw [intText, String.toList_ofList]

theorem not_isBlank_of_mem_intText {n : Int} {c : Char} (h : c ∈ (intText n).toList) :
    isBlank c = false := by
  have digit : ∀ c ∈ Decimal.digitsOfNat n.natAbs, isBlank c = false := fun c hc =>
    not_isBlank_of_isDecimal (isDecimal_of_isDigit (isDigit_of_mem_digitsOfNat hc))
  rw [toList_intText] at h
  split at h
  · rcases List.mem_cons.mp h with rfl | h
    · rfl
    · exact digit c h
  · exact digit c h

/-- A text without blanks is trimmed to itself. -/
theorem trimChars_of_not_blank {cs : List Char} (h : ∀ c ∈ cs, isBlank c = false) :
    trimChars cs = cs := by
  have keeps : ∀ ds : List Char, (∀ c ∈ ds, isBlank c = false) → ds.dropWhile isBlank = ds := by
    intro ds hd
    cases ds with
    | nil => rfl
    | cons c rest => rw [List.dropWhile_cons, if_neg (by simp [hd c List.mem_cons_self])]
  rw [trimChars, keeps cs h, keeps _ fun c hc => h c (List.mem_reverse.mp hc), List.reverse_reverse]

/-- The digits of a number start with no sign. -/
theorem digitsOfNat_eq_cons (n : Nat) : ∃ c rest, Decimal.digitsOfNat n = c :: rest ∧
    c ≠ '-' ∧ c ≠ '+' ∧ (c :: rest).all Char.isDigit = true := by
  have digit : (Decimal.digitsOfNat n).all Char.isDigit = true :=
    List.all_eq_true.mpr fun _ => isDigit_of_mem_digitsOfNat
  cases h : Decimal.digitsOfNat n with
  | nil => exact absurd h Nat.toDigits_ne_nil
  | cons c rest =>
    rw [h] at digit
    have hc : c.isDigit = true := List.all_eq_true.mp digit c List.mem_cons_self
    refine ⟨c, rest, rfl, ?_, ?_, digit⟩
    · rintro rfl
      cases hc
    · rintro rfl
      cases hc

/-! ### Reading it -/

namespace ScalarKind

/-- A text is a whole number where the number has 63 bits and a sign. -/
theorem wholeOfText?_intText (n : Int) :
    wholeOfText? (intText n).toList =
      if -(signedEnd : Int) ≤ n ∧ n < signedEnd then some n else none := by
  obtain ⟨c, rest, hd, minus, -, digits⟩ := digitsOfNat_eq_cons n.natAbs
  have value := Pointer.natOfDigits_digitsOfNat n.natAbs
  rw [hd] at value
  rw [toList_intText, hd]
  split
  · obtain ⟨k, hk, hn⟩ : ∃ k : Nat, n.natAbs = k ∧ n = -k := ⟨n.natAbs, rfl, by omega⟩
    rw [hk] at value
    simp [wholeOfText?, -List.all_cons, digits, value, hn]
  · obtain ⟨k, hk, hn⟩ : ∃ k : Nat, n.natAbs = k ∧ n = k := ⟨n.natAbs, rfl, by omega⟩
    rw [hk] at value
    simp [wholeOfText?, -List.all_cons, digits, value, hn, minus]

end ScalarKind

/-- The text of a whole number is read as that number, without a fraction. -/
theorem Decimal.readLiteral_intText (n : Int) :
    Decimal.readLiteral (intText n).toList = some ⟨decide (n < 0), n.natAbs, 0⟩ := by
  obtain ⟨c, rest, hd, minus, plus, digits⟩ := digitsOfNat_eq_cons n.natAbs
  have value := Pointer.natOfDigits_digitsOfNat n.natAbs
  have digit : ∀ d ∈ c :: rest, d.isDigit = true := List.all_eq_true.mp digits
  have taken : (c :: rest).takeWhile Char.isDigit = c :: rest :=
    List.takeWhile_eq_self_iff.mpr digit
  have dropped : (c :: rest).dropWhile Char.isDigit = [] :=
    List.dropWhile_eq_nil_iff.mpr digit
  rw [hd] at value
  rw [toList_intText, hd]
  split
  · rename_i hn
    simp [readLiteral, taken, dropped, readExponent, value, hn]
  · rename_i hn
    simp [readLiteral, minus, plus, taken, dropped, readExponent, value, hn]

/-- A number's text as a literal is the nearest binary fraction. -/
theorem Decimal.toBinary64?_intText (n : Int) :
    (Decimal.readLiteral (intText n).toList).bind (·.toBinary64?) = Binary64.ofInt? n := by
  rw [readLiteral_intText, Option.bind_some, Literal.toBinary64?, Binary64.ofDecimal?,
    Binary64.ofInt?]
  have power : n.natAbs * Nat.pow 10 (0 : Int).toNat = n.natAbs := Nat.mul_one _
  have near : ¬ (n.natAbs.log2 : Int) + 3 * 0 < -1100 := by omega
  by_cases zero : n.natAbs = 0
  · rw [if_pos zero, zero]
  · rw [if_neg zero, if_neg (show ¬ (400 : Int) < 0 by decide), if_neg near,
      if_pos (show (0 : Int) ≤ 0 by decide), power]

/-- A whole number is kept by every numeric kind. Its text is read as the number itself where it has
63 bits and a sign; beyond that it is no integer, and the nearest binary fraction otherwise. -/
theorem whole_numbers_read (kind : ScalarKind) (numeric : kind.isNumeric = true) (n : Int) :
    kind.coerce? (.int n) = some (.int n) ∧
      kind.coerce? (.string (Json.int n).text) =
        if -(signedEnd : Int) ≤ n ∧ n < signedEnd then some (.int n)
        else if kind = .integer then none
        else (Binary64.ofInt? n).map .float := by
  have whole := ScalarKind.wholeOfText?_intText n
  have trimmed := trimChars_of_not_blank fun c => not_isBlank_of_mem_intText (n := n) (c := c)
  have text : (Json.int n).text = intText n := by rw [Json.text]
  have integer : ScalarKind.toInteger? (.string (intText n)) =
      if -(signedEnd : Int) ≤ n ∧ n < signedEnd then some (.int n) else none := by
    rw [ScalarKind.toInteger?, whole]
    split <;> rfl
  have number : ScalarKind.toNumber? (.string (intText n)) =
      if -(signedEnd : Int) ≤ n ∧ n < signedEnd then some (.int n)
      else (Binary64.ofInt? n).map .float := by
    simp only [ScalarKind.toNumber?, trimmed, whole]
    split
    · rename_i m hm
      split at hm <;> cases hm
      simp [*]
    · rename_i hm
      split at hm <;> cases hm
      simp [*, Decimal.toBinary64?_intText]
  have kept : kind.coerce? (.int n) = some (.int n) := by cases kind <;> cases numeric <;> rfl
  have read : ∀ s : String, kind.coerce? (.string s) =
      if kind = .integer then ScalarKind.toInteger? (.string s)
      else ScalarKind.toNumber? (.string s) := by
    intro s
    cases kind <;> cases numeric <;> rfl
  refine ⟨kept, ?_⟩
  rw [text, read]
  by_cases integral : kind = .integer
  · rw [if_pos integral, if_pos integral, integer]
  · rw [if_neg integral, if_neg integral, number]

/-- The least and the greatest number with a sign are read from their texts. -/
theorem signed_ends_read :
    ScalarKind.decimal.isNumeric = true ∧
      ScalarKind.decimal.coerce? (.string "-9223372036854775808") =
        some (.int (-9223372036854775808)) ∧
      ScalarKind.decimal.coerce? (.string "9223372036854775807") =
        some (.int 9223372036854775807) := by
  have low := (whole_numbers_read .decimal rfl (-9223372036854775808)).2
  have high := (whole_numbers_read .decimal rfl 9223372036854775807).2
  have lowText : (Json.int (-9223372036854775808)).text = "-9223372036854775808" := by
    decide +kernel
  have highText : (Json.int 9223372036854775807).text = "9223372036854775807" := by
    decide +kernel
  rw [lowText, if_pos (by decide)] at low
  rw [highText, if_pos (by decide)] at high
  exact ⟨rfl, low, high⟩

/-- Numbers without a sign that are past those with one stay as numbers. As a text the first of them
is no integer, and the last one is the fraction `2 ^ 64`, which is one too many. -/
theorem unsigned_texts_misread :
    (∀ kind ∈ [ScalarKind.integer, .float, .decimal],
      kind.coerce? (.int 9223372036854775808) = some (.int 9223372036854775808) ∧
        kind.coerce? (.int 18446744073709551615) = some (.int 18446744073709551615)) ∧
    ScalarKind.integer.coerce? (.string "9223372036854775808") = none ∧
    ∀ kind ∈ [ScalarKind.float, .decimal],
      kind.coerce? (.string "18446744073709551615") =
        (Binary64.ofDyadic? false 1 64).map .float := by
  decide +kernel

end ApiContract
