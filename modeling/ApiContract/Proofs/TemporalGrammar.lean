import ApiContract.Proofs.OffsetCut

/-!
# The grammar of dates and times

Dates are read by numbers alone: blanks may stand before each number, a number may have fewer digits
than its place, and the year a sign and any length. Where the outline is checked first, in digits of
any script, the same reading comes down to ASCII digits in their places.
-/

namespace ApiContract

namespace Temporal

structure AsciiDigits (n : Nat) (ds : List Char) : Prop where
  length : ds.length = n
  ascii : ∀ d ∈ ds, d.isDigit = true

structure DigitRun (most : Nat) (ds : List Char) : Prop where
  filled : ds ≠ []
  short : ds.length ≤ most
  ascii : ∀ d ∈ ds, d.isDigit = true

/-- A number of up to `most` digits, with blanks before it. -/
inductive LenientNumber (most : Nat) : Nat → List Char → Prop where
  | intro {bs ds : List Char} (blank : ∀ b ∈ bs, isBlank b = true) (run : DigitRun most ds) :
      LenientNumber most (Decimal.natOfDigits ds) (bs ++ ds)

/-- A year of up to four digits, or of a sign and any number of them, with blanks before it. -/
inductive LenientYear : Int → List Char → Prop where
  | unsigned {n : Nat} {cs : List Char} (number : LenientNumber 4 n cs) : LenientYear n cs
  | plus {bs ds : List Char} (blank : ∀ b ∈ bs, isBlank b = true) (run : DigitRun ds.length ds) :
      LenientYear (Decimal.natOfDigits ds) (bs ++ '+' :: ds)
  | minus {bs ds : List Char} (blank : ∀ b ∈ bs, isBlank b = true) (run : DigitRun ds.length ds) :
      LenientYear (-(Decimal.natOfDigits ds : Int)) (bs ++ '-' :: ds)

/-- A day of the calendar as it is read. -/
inductive LenientDate : Date → List Char → Prop where
  | intro {year : Int} {month day : Nat} {y m d : List Char} (hy : LenientYear year y)
      (hm : LenientNumber 2 month m) (hd : LenientNumber 2 day d)
      (valid : Date.Valid ⟨year, month, day⟩) :
      LenientDate ⟨year, month, day⟩ (y ++ '-' :: m ++ '-' :: d)

/-- A day of the calendar in four, two and two digits. -/
inductive IsoDate : List Char → Prop where
  | intro {y m d : List Char} (hy : AsciiDigits 4 y) (hm : AsciiDigits 2 m) (hd : AsciiDigits 2 d)
      (valid : Date.Valid
        ⟨Decimal.natOfDigits y, Decimal.natOfDigits m, Decimal.natOfDigits d⟩) :
      IsoDate (y ++ '-' :: m ++ '-' :: d)

inductive AsciiFraction : List Char → Prop where
  | none : AsciiFraction []
  | some {ds : List Char} (run : DigitRun ds.length ds) : AsciiFraction ('.' :: ds)

/-- A time of day in two digits each for hour, minute and second, with an optional fraction. -/
inductive IsoTime (second : Nat) : List Char → Prop where
  | intro {h m s f : List Char} (hh : AsciiDigits 2 h) (hm : AsciiDigits 2 m)
      (hs : AsciiDigits 2 s) (hf : AsciiFraction f) (hour : Decimal.natOfDigits h ≤ 23)
      (minute : Decimal.natOfDigits m ≤ 59) (value : Decimal.natOfDigits s = second) :
      IsoTime second (h ++ ':' :: m ++ ':' :: s ++ f)

/-- The outline of a day, in digits of any script. -/
inductive DateLayout : List Char → Prop where
  | intro {y m d : List Char} (hy : DecimalDigits 4 y) (hm : DecimalDigits 2 m)
      (hd : DecimalDigits 2 d) : DateLayout (y ++ '-' :: m ++ '-' :: d)

/-- `Z`, or a sign with hours and perhaps minutes, with or without a colon between them. -/
inductive IsoOffset : List Char → Prop where
  | utc : IsoOffset ['Z']
  | hours {sign : Char} {h : List Char} (signed : sign = '+' ∨ sign = '-') (hh : AsciiDigits 2 h)
      (hour : Decimal.natOfDigits h ≤ 23) : IsoOffset (sign :: h)
  | minutes {sign : Char} {h colon m : List Char} (signed : sign = '+' ∨ sign = '-')
      (hh : AsciiDigits 2 h) (hc : colon = [] ∨ colon = [':']) (hm : AsciiDigits 2 m)
      (hour : Decimal.natOfDigits h ≤ 23) (minute : Decimal.natOfDigits m ≤ 59) :
      IsoOffset (sign :: h ++ colon ++ m)

/-- A date, `T`, a time of day and an offset. -/
inductive IsoDatetime (second : Nat) : List Char → Prop where
  | intro {date time offset : List Char} (hd : IsoDate date) (ht : IsoTime second time)
      (ho : IsoOffset offset) : IsoDatetime second (date ++ 'T' :: time ++ offset)

def Stops (rest : List Char) : Prop := ∀ c ∈ rest.head?, isDecimal c = false

/-! ### Characters -/

theorem isDecimal_of_isDigit {c : Char} (h : c.isDigit = true) : isDecimal c = true := by
  simp [isDecimal, h]

theorem not_isBlank_of_zero : ∀ z ∈ 0x30 :: decimalZeros, ∀ k < 10,
    isBlank (Char.ofNat (z + k)) = false := by
  decide +kernel

theorem not_isBlank_of_isDecimal {c : Char} (h : isDecimal c = true) : isBlank c = false := by
  have hz : ∃ z ∈ 0x30 :: decimalZeros, z ≤ c.toNat ∧ c.toNat < z + 10 := by
    rcases Bool.or_eq_true_iff.mp h with h | h
    · have hd := Char.isDigit_iff_toNat.mp h
      have h0 : '0'.toNat = 48 := rfl
      have h9 : '9'.toNat = 57 := rfl
      exact ⟨0x30, List.mem_cons_self, by omega, by omega⟩
    · obtain ⟨z, hz, hc⟩ := List.any_eq_true.mp h
      simp only [Bool.and_eq_true, decide_eq_true_eq] at hc
      exact ⟨z, List.mem_cons_of_mem _ hz, hc⟩
  obtain ⟨z, hz, hle, hlt⟩ := hz
  have hc := not_isBlank_of_zero z hz (c.toNat - z) (by omega)
  rwa [Nat.add_sub_cancel' hle, Char.ofNat_toNat] at hc

theorem not_isDigit_of_not_isDecimal {c : Char} (h : isDecimal c = false) : c.isDigit = false :=
  Bool.eq_false_iff.mpr fun hd => by simp [isDecimal_of_isDigit hd] at h

theorem stops_nil : Stops [] := by simp [Stops]

theorem stops_cons {c : Char} {rest : List Char} (h : isDecimal c = false) : Stops (c :: rest) := by
  simp [Stops, h]

def marks : List Char := ['-', '+', ':', '.', 'T', 'Z']

theorem not_isDecimal_of_mem_marks {c : Char} (h : c ∈ marks) : isDecimal c = false := by
  have none : (marks.all fun c => !isDecimal c) = true := by decide +kernel
  simpa using List.all_eq_true.mp none c h

theorem stops_mark {c : Char} (rest : List Char) (h : c ∈ marks) : Stops (c :: rest) :=
  stops_cons (not_isDecimal_of_mem_marks h)

theorem Stops.not_digit {rest : List Char} (h : Stops rest) :
    ∀ c ∈ rest.head?, c.isDigit = false :=
  fun c hc => not_isDigit_of_not_isDecimal (h c hc)

/-! ### Digits -/

section Digits

variable {most n : Nat} {ds rest cs r : List Char}

theorem AsciiDigits.decimalDigits (h : AsciiDigits n ds) : DecimalDigits n ds :=
  ⟨h.length, fun d hd => isDecimal_of_isDigit (h.ascii d hd)⟩

theorem AsciiDigits.digitRun (h : AsciiDigits (n + 1) ds) : DigitRun (n + 1) ds :=
  ⟨fun hn => by simpa [hn] using h.length, Nat.le_of_eq h.length, h.ascii⟩

theorem takeWhile_append_of_head {p : Char → Bool} (hd : ∀ d ∈ ds, p d = true)
    (hr : ∀ c ∈ rest.head?, p c = false) : (ds ++ rest).takeWhile p = ds := by
  rw [List.takeWhile_append_of_pos hd]
  cases rest with
  | nil => simp
  | cons c rest => simp [hr c (by simp)]

/-- Digits of any script are told apart from a rest that does not go on with one. -/
theorem eq_of_append_eq_append {es : List Char} (hd : ∀ d ∈ ds, isDecimal d = true)
    (he : ∀ e ∈ es, isDecimal e = true) (hrest : Stops rest) (hr : Stops r)
    (h : ds ++ rest = es ++ r) : ds = es ∧ rest = r := by
  have hds : ds = es := by
    rw [← takeWhile_append_of_head hd hrest, h, takeWhile_append_of_head he hr]
  subst hds
  exact ⟨rfl, List.append_cancel_left h⟩

/-- A run is read whole if no digit follows it. -/
theorem digits_append (h : DigitRun most ds) (hr : ∀ c ∈ rest.head?, c.isDigit = false) :
    digits most (ds ++ rest) = some (Decimal.natOfDigits ds, rest) := by
  have hhead : ∀ c ∈ (rest.take (most - ds.length)).head?, c.isDigit = false := by
    cases rest with
    | nil => simp
    | cons c rest =>
      cases most - ds.length with
      | zero => simp
      | succ k => simpa using hr
  have ht : ((ds ++ rest).take most).takeWhile Char.isDigit = ds := by
    rw [List.take_append, List.take_of_length_le h.short]
    exact takeWhile_append_of_head h.ascii hhead
  simp [digits, ht, h.filled]

/-- Digits that are read make up a run. -/
theorem run_of_digits (h : digits most cs = some (n, rest)) :
    ∃ ds, DigitRun most ds ∧ cs = ds ++ rest ∧ n = Decimal.natOfDigits ds := by
  simp only [digits, List.isEmpty_iff, Option.ite_none_left_eq_some, Option.some.injEq,
    Prod.mk.injEq] at h
  obtain ⟨hne, rfl, rfl⟩ := h
  have hp : (cs.take most).takeWhile Char.isDigit <+: cs :=
    (List.takeWhile_prefix _).trans (List.take_prefix most cs)
  refine ⟨_, ⟨hne, ?_, ?_⟩, (List.prefix_iff_eq_append.mp hp).symm, rfl⟩
  · exact Nat.le_trans (List.takeWhile_prefix _).length_le (List.length_take_le most cs)
  · exact fun d hd => List.all_eq_true.mp List.all_takeWhile d hd

/-- Digits of any script are read up to their end only if all of them are ASCII. -/
theorem ascii_of_digits (hd : DecimalDigits n ds) {k : Nat}
    (h : digits most (ds ++ rest) = some (k, r)) (hrest : Stops rest) (hr : Stops r) :
    AsciiDigits n ds ∧ r = rest ∧ k = Decimal.natOfDigits ds := by
  obtain ⟨es, run, he, rfl⟩ := run_of_digits h
  have hes : ∀ e ∈ es, isDecimal e = true := fun e he => isDecimal_of_isDigit (run.ascii e he)
  obtain ⟨rfl, rfl⟩ := eq_of_append_eq_append hd.decimal hes hrest hr he
  exact ⟨⟨hd.length, run.ascii⟩, rfl, rfl⟩

theorem skipBlanks_append (hb : ∀ b ∈ ds, isBlank b = true)
    (hr : ∀ c ∈ rest.head?, isBlank c = false) : skipBlanks (ds ++ rest) = rest := by
  rw [skipBlanks, List.dropWhile_append_of_pos hb]
  cases rest with
  | nil => rfl
  | cons c rest => simp [hr c (by simp)]

theorem blank_nil : ∀ b ∈ ([] : List Char), isBlank b = true := by
  simp

theorem blanks_of_skipBlanks (cs : List Char) :
    ∃ bs, (∀ b ∈ bs, isBlank b = true) ∧ cs = bs ++ skipBlanks cs :=
  ⟨cs.takeWhile isBlank, List.all_eq_true.mp List.all_takeWhile,
    List.takeWhile_append_dropWhile.symm⟩

theorem DigitRun.not_blank (h : DigitRun most ds) :
    ∀ c ∈ (ds ++ rest).head?, isBlank c = false := by
  cases ds with
  | nil => exact absurd rfl h.filled
  | cons d ds =>
    simpa using not_isBlank_of_isDecimal (isDecimal_of_isDigit (h.ascii d List.mem_cons_self))

theorem DecimalDigits.not_blank (h : DecimalDigits (n + 1) ds) :
    ∀ c ∈ (ds ++ rest).head?, isBlank c = false := by
  cases ds with
  | nil => cases h.length
  | cons d ds => simpa using not_isBlank_of_isDecimal (h.decimal d List.mem_cons_self)

end Digits

/-! ### Numbers, years and fractions -/

section Numbers

variable {most n : Nat} {ds text rest cs r : List Char}

theorem AsciiDigits.pair (h : AsciiDigits 2 ds) :
    ∃ a b, ds = [a, b] ∧ a.isDigit = true ∧ b.isDigit = true := by
  match ds, h.length with
  | [a, b], _ => exact ⟨a, b, rfl, h.ascii a (by simp), h.ascii b (by simp)⟩

theorem DigitRun.mono {k : Nat} (h : DigitRun most ds) (hk : most ≤ k) : DigitRun k ds :=
  ⟨h.filled, Nat.le_trans h.short hk, h.ascii⟩

theorem DigitRun.tight (h : DigitRun most ds) : DigitRun ds.length ds :=
  ⟨h.filled, Nat.le_refl _, h.ascii⟩

theorem AsciiDigits.lenientNumber (h : AsciiDigits (n + 1) ds) :
    LenientNumber (n + 1) (Decimal.natOfDigits ds) ds :=
  .intro blank_nil h.digitRun

/-- Blanks and as many digits as may stand: what `pair` reads with two of them. -/
theorem lenientNumber_append (h : LenientNumber most n text)
    (hr : ∀ c ∈ rest.head?, c.isDigit = false) :
    digits most (skipBlanks (text ++ rest)) = some (n, rest) := by
  cases h with
  | intro blank run =>
    rw [List.append_assoc, skipBlanks_append blank run.not_blank]
    exact digits_append run hr

theorem lenientNumber_of_digits (h : digits most (skipBlanks cs) = some (n, rest)) :
    ∃ text, LenientNumber most n text ∧ cs = text ++ rest := by
  obtain ⟨bs, hb, hcs⟩ := blanks_of_skipBlanks cs
  obtain ⟨ds, run, he, rfl⟩ := run_of_digits h
  exact ⟨bs ++ ds, .intro hb run, by rw [hcs, he, List.append_assoc]⟩

theorem ascii_of_lenient (hd : DecimalDigits (n + 1) ds) {k : Nat}
    (h : digits most (skipBlanks (ds ++ rest)) = some (k, r)) (hrest : Stops rest) (hr : Stops r) :
    AsciiDigits (n + 1) ds ∧ r = rest ∧ k = Decimal.natOfDigits ds := by
  have hs : skipBlanks (ds ++ rest) = ds ++ rest :=
    skipBlanks_append blank_nil hd.not_blank
  rw [hs] at h
  exact ascii_of_digits hd h hrest hr

/-- A year is read to its end. -/
theorem year_append {y : Int} (h : LenientYear y text)
    (hr : ∀ c ∈ rest.head?, c.isDigit = false) : year (text ++ rest) = some (y, rest) := by
  cases h with
  | unsigned number =>
    have hread := lenientNumber_append number hr
    unfold year
    split
    · rename_i he
      rw [he] at hread
      simp [digits] at hread
    · rename_i he
      rw [he] at hread
      simp [digits] at hread
    · rw [hread]
      rfl
  | @plus bs ds blank run =>
    have hs : skipBlanks (bs ++ '+' :: (ds ++ rest)) = '+' :: (ds ++ rest) :=
      skipBlanks_append blank (by simp [isBlank])
    have hread := digits_append (run.mono (Nat.le_add_right ds.length rest.length)) hr
    rw [← List.length_append] at hread
    simp only [year, List.append_assoc, List.cons_append, hs, hread, Option.map_some]
  | @minus bs ds blank run =>
    have hs : skipBlanks (bs ++ '-' :: (ds ++ rest)) = '-' :: (ds ++ rest) :=
      skipBlanks_append blank (by simp [isBlank])
    have hread := digits_append (run.mono (Nat.le_add_right ds.length rest.length)) hr
    rw [← List.length_append] at hread
    simp only [year, List.append_assoc, List.cons_append, hs, hread, Option.map_some]

/-- What is read as a year is one. -/
theorem lenientYear_of_year {y : Int} (h : year cs = some (y, rest)) :
    ∃ text, LenientYear y text ∧ cs = text ++ rest := by
  obtain ⟨bs, hb, hcs⟩ := blanks_of_skipBlanks cs
  unfold year at h
  split at h
  · rename_i hds
    obtain ⟨⟨n, r⟩, hread, he⟩ := Option.map_eq_some_iff.mp h
    obtain ⟨ds, run, rfl, rfl⟩ := run_of_digits hread
    cases he
    refine ⟨bs ++ '-' :: ds, .minus hb run.tight, ?_⟩
    rw [List.append_assoc, List.cons_append, ← hds]
    exact hcs
  · rename_i hds
    obtain ⟨⟨n, r⟩, hread, he⟩ := Option.map_eq_some_iff.mp h
    obtain ⟨ds, run, rfl, rfl⟩ := run_of_digits hread
    cases he
    refine ⟨bs ++ '+' :: ds, .plus hb run.tight, ?_⟩
    rw [List.append_assoc, List.cons_append, ← hds]
    exact hcs
  · obtain ⟨⟨n, r⟩, hread, he⟩ := Option.map_eq_some_iff.mp h
    cases he
    obtain ⟨text, number, hc⟩ := lenientNumber_of_digits hread
    exact ⟨text, .unsigned number, hc⟩

/-- Of four digits of any script that are read as a year all are ASCII ones. -/
theorem ascii_of_year {y : Int} (hd : DecimalDigits 4 ds) (h : year (ds ++ rest) = some (y, r))
    (hrest : Stops rest) (hr : Stops r) :
    AsciiDigits 4 ds ∧ r = rest ∧ y = Decimal.natOfDigits ds := by
  have hs : skipBlanks (ds ++ rest) = ds ++ rest :=
    skipBlanks_append blank_nil hd.not_blank
  have hsign : ∀ c ∈ (ds ++ rest).head?, isDecimal c = true := by
    cases ds with
    | nil => cases hd.length
    | cons c ds => simpa using hd.decimal c List.mem_cons_self
  have hread : (digits 4 (ds ++ rest)).map (fun x => ((x.1 : Int), x.2)) = some (y, r) := by
    unfold year at h
    rw [hs] at h
    split at h
    · rename_i he
      rw [he] at hsign
      exact absurd (hsign '-' rfl) (by decide)
    · rename_i he
      rw [he] at hsign
      exact absurd (hsign '+' rfl) (by decide)
    · exact h
  obtain ⟨⟨n, r'⟩, hdigits, he⟩ := Option.map_eq_some_iff.mp hread
  obtain ⟨rfl, rfl⟩ : (n : Int) = y ∧ r' = r := Prod.mk.inj he
  obtain ⟨hascii, hrest, rfl⟩ := ascii_of_digits hd hdigits hrest hr
  exact ⟨hascii, hrest, rfl⟩

theorem digitValue_le {c : Char} (h : c.isDigit = true) : Decimal.digitValue c ≤ 9 := by
  have hd := Char.isDigit_iff_toNat.mp h
  have h0 : '0'.toNat = 48 := rfl
  have h9 : '9'.toNat = 57 := rfl
  unfold Decimal.digitValue
  omega

/-- So many digits make no greater number. -/
theorem natOfDigits_lt (h : ∀ d ∈ ds, d.isDigit = true) :
    Decimal.natOfDigits ds < Nat.pow 10 ds.length := by
  have key : ∀ a, ds.foldl (fun n c => 10 * n + Decimal.digitValue c) a <
      (a + 1) * 10 ^ ds.length := by
    induction ds with
    | nil => simp
    | cons d ds ih =>
      intro a
      have hd := digitValue_le (h d List.mem_cons_self)
      calc (d :: ds).foldl (fun n c => 10 * n + Decimal.digitValue c) a
          < (10 * a + Decimal.digitValue d + 1) * 10 ^ ds.length :=
            ih (fun c hc => h c (List.mem_cons_of_mem d hc)) _
        _ ≤ (10 * (a + 1)) * 10 ^ ds.length := Nat.mul_le_mul_right _ (by omega)
        _ = (a + 1) * 10 ^ (d :: ds).length := by
            rw [List.length_cons, Nat.pow_succ, Nat.mul_comm 10, Nat.mul_assoc,
              Nat.mul_comm 10]
  simpa [Decimal.natOfDigits] using key 0

/-- At most nine digits count, so that a fraction stays below a second. -/
theorem fraction_append (h : AsciiFraction text) (hr : Stops rest) (hp : rest.head? ≠ some '.') :
    ∃ ns < 1000000000, fraction (text ++ rest) = some (ns, rest) := by
  cases h with
  | none =>
    refine ⟨0, by decide, ?_⟩
    cases rest with
    | nil => rfl
    | cons c rest =>
      have hc : c ≠ '.' := by simpa using hp
      simp [fraction, hc]
  | @some ds run =>
    have ht : (ds ++ rest).takeWhile Char.isDigit = ds :=
      takeWhile_append_of_head run.ascii hr.not_digit
    refine ⟨Decimal.natOfDigits (ds.take 9) * 10 ^ (9 - (ds.take 9).length), ?_, ?_⟩
    · have hlen : (ds.take 9).length ≤ 9 := List.length_take_le 9 ds
      calc Decimal.natOfDigits (ds.take 9) * 10 ^ (9 - (ds.take 9).length)
          < 10 ^ (ds.take 9).length * 10 ^ (9 - (ds.take 9).length) :=
            Nat.mul_lt_mul_of_pos_right
              (natOfDigits_lt fun d hd => run.ascii d (List.mem_of_mem_take hd))
              (Nat.pow_pos (by decide))
        _ = 1000000000 := by rw [← Nat.pow_add, Nat.add_sub_cancel' hlen]
    · simp [fraction, ht, run.filled]

/-- Nor may a fraction have other digits. -/
theorem ascii_of_fraction {ns : Nat} (hf : IsFraction text)
    (h : fraction (text ++ rest) = some (ns, r)) (hrest : Stops rest) (hp : rest.head? ≠ some '.')
    (hr : Stops r) : AsciiFraction text ∧ r = rest := by
  cases hf with
  | none =>
    obtain ⟨n, -, hn⟩ := fraction_append .none hrest hp
    rw [h] at hn
    exact ⟨.none, (Prod.mk.inj (Option.some.inj hn)).2⟩
  | @some c ds decimal =>
    simp only [fraction, List.cons_append, List.isEmpty_iff, Option.ite_none_left_eq_some,
      Option.some.injEq, Prod.mk.injEq] at h
    obtain ⟨hne, -, rfl⟩ := h
    have hes : ∀ e ∈ (c :: (ds ++ rest)).takeWhile Char.isDigit, e.isDigit = true :=
      List.all_eq_true.mp List.all_takeWhile
    have he : c :: ds ++ rest = (c :: (ds ++ rest)).takeWhile Char.isDigit ++
        (c :: (ds ++ rest)).drop ((c :: (ds ++ rest)).takeWhile Char.isDigit).length :=
      (List.prefix_iff_eq_append.mp (List.takeWhile_prefix _)).symm
    obtain ⟨hds, hrr⟩ := eq_of_append_eq_append decimal
      (fun e he => isDecimal_of_isDigit (hes e he)) hrest hr he
    refine ⟨.some ⟨by simp, Nat.le_refl _, ?_⟩, hrr.symm⟩
    rw [hds]
    exact hes

end Numbers

/-! ### Days and times of day -/

section Readings

variable {text rest cs r : List Char}

theorem hyphen_stops (cs : List Char) : Stops ('-' :: cs) := stops_mark cs (by decide)

theorem colon_stops (cs : List Char) : Stops (':' :: cs) := stops_mark cs (by decide)

theorem date_append {day : Date} (h : LenientDate day text)
    (hr : ∀ c ∈ rest.head?, c.isDigit = false) : date (text ++ rest) = some (day, rest) := by
  cases h with
  | @intro y m d ys ms ds hy hm hd valid =>
    have readYear := year_append hy (hyphen_stops (ms ++ '-' :: (ds ++ rest))).not_digit
    have readMonth : pair (ms ++ '-' :: (ds ++ rest)) = some (m, '-' :: (ds ++ rest)) :=
      lenientNumber_append hm (hyphen_stops (ds ++ rest)).not_digit
    have readDay : pair (ds ++ rest) = some (d, rest) := lenientNumber_append hd hr
    simp [date, readYear, readMonth, readDay, mark, valid]

theorem lenientDate_of_date {day : Date} (h : date cs = some (day, rest)) :
    ∃ text, LenientDate day text ∧ cs = text ++ rest := by
  simp only [date, Option.bind_eq_bind, Option.bind_eq_some_iff, Prod.exists, mark_eq_some_iff,
    Option.ite_none_right_eq_some, Option.some.injEq, Prod.mk.injEq] at h
  obtain ⟨y, _, hy, _, rfl, m, _, hm, _, rfl, d, _, hd, valid, rfl, rfl⟩ := h
  obtain ⟨ys, hys, rfl⟩ := lenientYear_of_year hy
  obtain ⟨ms, hms, rfl⟩ := lenientNumber_of_digits hm
  obtain ⟨ds, hds, rfl⟩ := lenientNumber_of_digits hd
  exact ⟨_, .intro hys hms hds valid, by simp⟩

/-- With four, two and two digits of any script a day is read only if they are ASCII. -/
theorem isoDate_of_date {y m d : List Char} {day : Date} (hy : DecimalDigits 4 y)
    (hm : DecimalDigits 2 m) (hd : DecimalDigits 2 d)
    (h : date (y ++ '-' :: m ++ '-' :: d ++ rest) = some (day, r)) (hrest : Stops rest)
    (hr : Stops r) : IsoDate (y ++ '-' :: m ++ '-' :: d) ∧ r = rest := by
  simp only [date, Option.bind_eq_bind, Option.bind_eq_some_iff, Prod.exists, mark_eq_some_iff,
    Option.ite_none_right_eq_some, Option.some.injEq, Prod.mk.injEq, List.append_assoc,
    List.cons_append] at h
  obtain ⟨yn, _, readYear, _, rfl, mn, _, readMonth, _, rfl, dn, _, readDay, valid, rfl, rfl⟩ := h
  obtain ⟨hy', he, rfl⟩ := ascii_of_year hy readYear (hyphen_stops _) (hyphen_stops _)
  obtain rfl := List.tail_eq_of_cons_eq he
  obtain ⟨hm', he, rfl⟩ := ascii_of_lenient hm readMonth (hyphen_stops _) (hyphen_stops _)
  obtain rfl := List.tail_eq_of_cons_eq he
  obtain ⟨hd', he, rfl⟩ := ascii_of_lenient hd readDay hrest hr
  exact ⟨.intro hy' hm' hd' valid, he⟩

theorem IsoDate.lenientDate (h : IsoDate text) : ∃ day, LenientDate day text := by
  cases h with
  | intro hy hm hd valid =>
    exact ⟨_, .intro (.unsigned hy.lenientNumber) hm.lenientNumber hd.lenientNumber valid⟩

theorem IsoDate.dateLayout (h : IsoDate text) : DateLayout text := by
  cases h with
  | intro hy hm hd valid => exact .intro hy.decimalDigits hm.decimalDigits hd.decimalDigits

/-- A time of day is read to its end. -/
theorem timeOfDay_append {second : Nat} (h : IsoTime second text) (hs : second ≤ 60)
    (hr : Stops rest) (hp : rest.head? ≠ some '.') :
    ∃ t, timeOfDay (text ++ rest) = some (t, rest) := by
  cases h with
  | @intro h m s f hh hm hs' hf hour minute value =>
    have hfs : Stops (f ++ rest) := by
      cases hf with
      | none => exact hr
      | some run => exact stops_mark _ (by decide)
    obtain ⟨ns, hns, readFraction⟩ := fraction_append hf hr hp
    have readHour : pair (h ++ ':' :: (m ++ ':' :: (s ++ (f ++ rest)))) =
        some (Decimal.natOfDigits h, ':' :: (m ++ ':' :: (s ++ (f ++ rest)))) :=
      lenientNumber_append hh.lenientNumber (colon_stops _).not_digit
    have readMinute : pair (m ++ ':' :: (s ++ (f ++ rest))) =
        some (Decimal.natOfDigits m, ':' :: (s ++ (f ++ rest))) :=
      lenientNumber_append hm.lenientNumber (colon_stops _).not_digit
    have readSecond : pair (s ++ (f ++ rest)) = some (Decimal.natOfDigits s, f ++ rest) :=
      lenientNumber_append hs'.lenientNumber hfs.not_digit
    subst value
    refine ⟨⟨Decimal.natOfDigits h, Decimal.natOfDigits m, Decimal.natOfDigits s, ns⟩, ?_⟩
    simp [timeOfDay, hourMinute, readHour, readMinute, readSecond, readFraction, mark,
      TimeOfDay.Valid, hour, minute, hs, hns]

theorem stops_of_fraction {ns : Nat} (h : fraction cs = some (ns, r)) (hr : Stops r) :
    Stops cs := by
  unfold fraction at h
  split at h
  · exact stops_mark _ (by decide)
  · cases h
    exact hr

/-- In its outline a time of day is read only if its digits are ASCII. -/
theorem isoTime_of_timeOfDay {h m s f : List Char} {t : TimeOfDay} (hh : DecimalDigits 2 h)
    (hm : DecimalDigits 2 m) (hs : DecimalDigits 2 s) (hf : IsFraction f)
    (ht : timeOfDay (h ++ ':' :: m ++ ':' :: s ++ f ++ rest) = some (t, r)) (hrest : Stops rest)
    (hp : rest.head? ≠ some '.') (hr : Stops r) :
    (∃ second ≤ 60, IsoTime second (h ++ ':' :: m ++ ':' :: s ++ f)) ∧ r = rest := by
  simp only [timeOfDay, hourMinute, Option.bind_eq_bind, Option.bind_eq_some_iff, Prod.exists,
    mark_eq_some_iff, Option.ite_none_right_eq_some, Option.some.injEq, Prod.mk.injEq,
    List.append_assoc, List.cons_append] at ht
  obtain ⟨_, _, ⟨hn, _, readHour, _, rfl, mn, _, readMinute, -, rfl, rfl⟩, _, rfl, sn, rf,
    readSecond, ns, _, readFraction, valid, rfl, rfl⟩ := ht
  obtain ⟨hh', he, rfl⟩ := ascii_of_lenient hh readHour (colon_stops _) (colon_stops _)
  obtain rfl := List.tail_eq_of_cons_eq he
  obtain ⟨hm', he, rfl⟩ := ascii_of_lenient hm readMinute (colon_stops _) (colon_stops _)
  obtain rfl := List.tail_eq_of_cons_eq he
  have hfs : Stops (f ++ rest) := by
    cases hf with
    | none => exact hrest
    | some decimal => exact stops_mark _ (by decide)
  obtain ⟨hs', rfl, rfl⟩ := ascii_of_lenient hs readSecond hfs (stops_of_fraction readFraction hr)
  obtain ⟨hf', he⟩ := ascii_of_fraction hf readFraction hrest hp hr
  obtain ⟨hour, minute, second, -⟩ := valid
  exact ⟨⟨_, second, .intro hh' hm' hs' hf' hour minute rfl⟩, he⟩

end Readings

end Temporal

end ApiContract
