import ApiContract.Proofs.PointerTokens
import ApiContract.Proofs.TemporalTexts

/-!
# Dates and times that completion writes

What is read leniently is written anew in digits of full width. A time of day is then one of the
strict grammar, and a day is if its year takes four digits and no sign. A datetime in any other year
is written with a sign, which no reader of complete datetimes takes.
-/

namespace ApiContract

namespace Temporal

/-! ### Digits of full width -/

theorem isDigit_of_mem_digitsOfNat {n : Nat} {c : Char} (h : c ∈ Decimal.digitsOfNat n) :
    c.isDigit = true :=
  Nat.isDigit_of_mem_toDigits (by decide) (by decide) h

theorem isDigit_of_mem_padded {width n : Nat} {c : Char} (h : c ∈ padded width n) :
    c.isDigit = true := by
  rcases List.mem_append.mp h with h | h
  · obtain ⟨-, rfl⟩ := List.mem_replicate.mp h
    rfl
  · exact isDigit_of_mem_digitsOfNat h

theorem padded_ne_nil (width n : Nat) : padded width n ≠ [] := by
  intro h
  exact Nat.toDigits_ne_nil (List.append_eq_nil_iff.mp h).2

theorem digitRun_padded (width n : Nat) : DigitRun (padded width n).length (padded width n) :=
  ⟨padded_ne_nil width n, Nat.le_refl _, fun _ => isDigit_of_mem_padded⟩

theorem asciiDigits_padded {width n : Nat} (hw : 0 < width) (h : n < Nat.pow 10 width) :
    AsciiDigits width (padded width n) where
  length := by
    have hl : (Decimal.digitsOfNat n).length ≤ width :=
      (Nat.length_toDigits_le_iff (by decide) hw).mpr h
    rw [padded, List.length_append, List.length_replicate]
    omega
  ascii := fun _ => isDigit_of_mem_padded

/-- Zeros in front do not change a number. -/
@[simp] theorem natOfDigits_padded (width n : Nat) :
    Decimal.natOfDigits (padded width n) = n := by
  have zeros : ∀ k, (List.replicate k '0').foldl
      (fun n c => 10 * n + Decimal.digitValue c) 0 = 0 := by
    intro k
    induction k with
    | zero => rfl
    | succ k ih => rw [List.replicate_succ, List.foldl_cons]; exact ih
  rw [padded, Decimal.natOfDigits, List.foldl_append, zeros]
  exact Pointer.natOfDigits_digitsOfNat n

/-! ### Days and times as they are written -/

/-- Years are written with four digits, or with a sign where four are not enough. -/
theorem lenientYear_yearText (y : Int) : LenientYear y (yearText y) := by
  have value := natOfDigits_padded 4 y.natAbs
  unfold yearText
  split
  · rename_i h
    have digits : AsciiDigits 4 (padded 4 y.toNat) :=
      asciiDigits_padded (by decide) (show y.toNat < 10000 by omega)
    have read := LenientYear.unsigned digits.lenientNumber
    rwa [natOfDigits_padded, Int.toNat_of_nonneg h.1] at read
  · split
    · have read := LenientYear.minus blank_nil (digitRun_padded 4 y.natAbs)
      rwa [value, show (-(y.natAbs : Int)) = y by omega] at read
    · have read := LenientYear.plus blank_nil (digitRun_padded 4 y.natAbs)
      rwa [value, show (y.natAbs : Int) = y by omega] at read

variable {d : Date} {t : TimeOfDay}

/-- A month or a day takes two digits. -/
theorem asciiDigits_of_valid (h : d.Valid) :
    AsciiDigits 2 (padded 2 d.month) ∧ AsciiDigits 2 (padded 2 d.day) := by
  obtain ⟨-, -, -, month, -, day⟩ := h
  have month_le : daysInMonth d.year d.month ≤ 31 := by
    unfold daysInMonth
    split
    · split <;> decide
    · split <;> decide
  exact ⟨asciiDigits_padded (by decide) (show d.month < 100 by omega),
    asciiDigits_padded (by decide) (show d.day < 100 by omega)⟩

theorem lenientDate_dateText (h : d.Valid) : LenientDate d (dateText d) := by
  obtain ⟨month, day⟩ := asciiDigits_of_valid h
  have hm := month.lenientNumber
  have hd := day.lenientNumber
  rw [natOfDigits_padded] at hm hd
  exact .intro (lenientYear_yearText d.year) hm hd h

theorem isoDate_dateText (h : d.Valid) (four : 0 ≤ d.year ∧ d.year ≤ 9999) :
    IsoDate (dateText d) := by
  obtain ⟨month, day⟩ := asciiDigits_of_valid h
  have year : AsciiDigits 4 (padded 4 d.year.toNat) :=
    asciiDigits_padded (by decide) (show d.year.toNat < 10000 by omega)
  rw [dateText, yearText, if_pos four]
  refine .intro year month day ?_
  rwa [natOfDigits_padded, natOfDigits_padded, natOfDigits_padded, Int.toNat_of_nonneg four.1]

/-- Fractions of a second are written in groups of three digits, or not at all. -/
theorem asciiFraction_fractionText (nanosecond : Nat) :
    AsciiFraction (fractionText nanosecond) := by
  unfold fractionText
  split
  · exact .none
  · split
    · exact .some (digitRun_padded 3 _)
    · split
      · exact .some (digitRun_padded 6 _)
      · exact .some (digitRun_padded 9 _)

theorem isoTime_clockText (h : t.Valid) {f : List Char} (hf : AsciiFraction f) :
    IsoTime t.second (clockText t ++ f) := by
  obtain ⟨hour, minute, second, -⟩ := h
  have two : ∀ {n : Nat}, n ≤ 60 → AsciiDigits 2 (padded 2 n) := fun {n} hn =>
    asciiDigits_padded (by decide) (show n < 100 by omega)
  exact .intro (two (by omega)) (two (by omega)) (two second) hf (by simpa using hour)
    (by simpa using minute) (natOfDigits_padded 2 t.second)

/-! ### What is read before it is written -/

theorem valid_of_hourMinute {cs rest : List Char} (h : hourMinute cs = some (t, rest)) :
    t.Valid := by
  simp only [hourMinute, Option.bind_eq_bind, Option.bind_eq_some_iff, Prod.exists,
    Option.ite_none_right_eq_some, Option.some.injEq, Prod.mk.injEq] at h
  obtain ⟨_, _, -, _, -, _, _, -, valid, rfl, -⟩ := h
  exact valid

theorem valid_of_timeOfDay {cs rest : List Char} (h : timeOfDay cs = some (t, rest)) :
    t.Valid := by
  simp only [timeOfDay, Option.bind_eq_bind, Option.bind_eq_some_iff, Prod.exists,
    Option.ite_none_right_eq_some, Option.some.injEq, Prod.mk.injEq] at h
  obtain ⟨_, _, -, _, -, _, _, -, _, _, -, valid, rfl, -⟩ := h
  exact valid

theorem whole_eq_some_iff {α : Type} {r : Option (α × List Char)} {a : α} :
    whole r = some a ↔ r = some (a, []) := by
  unfold whole
  split <;> simp_all

/-- A datetime without offset starts with a day and ends in a time of day. -/
theorem date_of_localDatetime {spaced : Bool} {cs : List Char}
    (h : localDatetime spaced cs = some (d, t)) :
    ∃ rest rest', date cs = some (d, rest) ∧ timeOfDay rest' = some (t, []) := by
  cases spaced <;>
    simp only [localDatetime, Option.bind_eq_bind, Option.bind_eq_some_iff, Prod.exists,
      if_true, Bool.false_eq_true, if_false, Option.some.injEq, Prod.mk.injEq,
      whole_eq_some_iff] at h <;>
    obtain ⟨_, _, hd, _, -, _, ht, rfl, rfl⟩ := h <;>
    exact ⟨_, _, hd, ht⟩

theorem valid_of_localDatetime {spaced : Bool} {cs : List Char}
    (h : localDatetime spaced cs = some (d, t)) : d.Valid ∧ t.Valid := by
  obtain ⟨rest, rest', hd, ht⟩ := date_of_localDatetime h
  obtain ⟨_, read, -⟩ := lenientDate_of_date hd
  cases read with
  | intro _ _ _ valid => exact ⟨valid, valid_of_timeOfDay ht⟩

/-- Both readings of a datetime without offset find the same day. -/
theorem day_of_localDatetime {spaced spaced' : Bool} {cs : List Char} {d' : Date} {t' : TimeOfDay}
    (h : localDatetime spaced cs = some (d, t)) (h' : localDatetime spaced' cs = some (d', t')) :
    d = d' := by
  obtain ⟨_, _, hd, -⟩ := date_of_localDatetime h
  obtain ⟨_, _, hd', -⟩ := date_of_localDatetime h'
  rw [hd] at hd'
  cases hd'
  rfl

/-- A day and a time of day with something behind them are no datetime without offset. -/
theorem localDatetime_eq_none {date time offset : List Char} {second : Nat}
    (hd : LenientDate d date) (ht : IsoTime second time) (hs : second ≤ 60) (stops : Stops offset)
    (point : offset.head? ≠ some '.') (filled : offset ≠ []) (spaced : Bool) :
    localDatetime spaced (date ++ 'T' :: time ++ offset) = none := by
  have readDate : Temporal.date (date ++ ('T' :: (time ++ offset))) =
      some (d, 'T' :: (time ++ offset)) :=
    date_append hd (stops_mark _ (by decide)).not_digit
  obtain ⟨t, readTime⟩ := timeOfDay_append ht hs stops point
  rw [List.append_assoc, List.cons_append, localDatetime, readDate]
  cases spaced with
  | true =>
    -- the `T` is no blank, and no hour starts with it
    have blank : skipBlanks ('T' :: (time ++ offset)) = 'T' :: (time ++ offset) := rfl
    have none : timeOfDay ('T' :: (time ++ offset)) = none := rfl
    simp [blank, none, whole]
  | false => simp [mark, readTime, whole, filled]

/-! ### Complete and completed -/

def FarLocal (s : String) : Prop :=
  ∃ spaced d t, localDatetime spaced s.toList = some (d, t) ∧ ¬ (0 ≤ d.year ∧ d.year ≤ 9999)

theorem isDatetime_eq_true_iff (s : String) :
    isDatetime s = true ↔ ∃ second ≤ 60, IsoDatetime second s.toList := by
  rw [← readDatetime_iff, isDatetime]
  split <;> simp_all

/-- The first character of a complete datetime is a digit. -/
theorem isDigit_head_of_isoDatetime {second : Nat} {cs : List Char} (h : IsoDatetime second cs) :
    ∃ c ∈ cs.head?, c.isDigit = true := by
  cases h with
  | intro hd ht ho =>
    cases hd with
    | @intro y m d hy hm hd valid =>
      cases y with
      | nil => cases hy.length
      | cons c rest => exact ⟨c, rfl, hy.ascii c List.mem_cons_self⟩

/-- A datetime as it is written in UTC is complete if its year takes four digits and no sign. -/
theorem isDatetime_utcText_iff (hd : d.Valid) (ht : t.Valid) :
    isDatetime (String.ofList (utcText d t)) = true ↔ 0 ≤ d.year ∧ d.year ≤ 9999 := by
  rw [isDatetime_eq_true_iff, String.toList_ofList]
  constructor
  · rintro ⟨second, -, h⟩
    obtain ⟨c, hc, digit⟩ := isDigit_head_of_isoDatetime h
    refine Decidable.byContradiction fun far => ?_
    rw [utcText, dateText, yearText, if_neg far] at hc
    obtain rfl : (if d.year < 0 then '-' else '+') = c := Option.some.inj hc
    split at digit <;> cases digit
  · intro four
    have time := isoTime_clockText ht (asciiFraction_fractionText t.nanosecond)
    have whole := IsoDatetime.intro (isoDate_dateText hd four) time .utc
    refine ⟨t.second, ht.2.2.1, ?_⟩
    simpa [utcText] using whole

/-- What is written in UTC has an offset, whatever its year. -/
theorem localDatetime_utcText (hd : d.Valid) (ht : t.Valid) (spaced : Bool) :
    localDatetime spaced (utcText d t) = none := by
  have time := isoTime_clockText ht (asciiFraction_fractionText t.nanosecond)
  have stops : Stops ['Z'] := stops_mark _ (by decide)
  have none := localDatetime_eq_none (lenientDate_dateText hd) time ht.2.2.1 stops (by decide)
    (by decide) spaced
  simpa [utcText] using none

/-- A complete datetime has an offset. -/
theorem localDatetime_of_isDatetime {s : String} (h : isDatetime s = true) (spaced : Bool) :
    localDatetime spaced s.toList = none := by
  obtain ⟨second, hs, h⟩ := (isDatetime_eq_true_iff s).mp h
  generalize s.toList = cs at h ⊢
  cases h with
  | intro hd ht ho =>
    obtain ⟨day, hday⟩ := hd.lenientDate
    obtain ⟨c, rest, rfl, point, decimal⟩ := head_of_isOffsetOutline (spellOffset_of_isoOffset ho).1
    exact localDatetime_eq_none hday ht hs (stops_cons decimal) (by simpa using point) (by simp)
      spaced

end Temporal

end ApiContract
