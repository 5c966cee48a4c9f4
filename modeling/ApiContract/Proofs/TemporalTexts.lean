import ApiContract.Proofs.TemporalGrammar

/-!
# Which texts are dates and times

A date follows the lenient grammar. Times and datetimes must have their outline and so follow the
strict one, except that the second 60 passes in both.
-/

namespace ApiContract

namespace Temporal

/-! ### Offsets -/

section Offsets

variable {offset spelled : List Char}

/-- A cut divides the text. -/
theorem append_of_cutAt {n : Nat} {cs front back : List Char}
    (h : cutAt? n cs = some (front, back)) : cs = front ++ back := by
  induction cs generalizing n front with
  | nil =>
    cases n with
    | zero =>
      cases h
      rfl
    | succ n => cases h
  | cons c cs ih =>
    cases n with
    | zero =>
      cases h
      rfl
    | succ n =>
      simp only [cutAt?, Option.ite_none_right_eq_some] at h
      obtain ⟨⟨front', back'⟩, hcut, he⟩ := Option.map_eq_some_iff.mp h.2
      cases he
      rw [ih hcut]
      rfl

theorem length_le_byteLength (cs : List Char) : cs.length ≤ byteLength cs := by
  induction cs with
  | nil => exact Nat.le_refl 0
  | cons c cs ih =>
    have hc := c.utf8Size_pos
    have he : byteLength (c :: cs) = c.utf8Size + byteLength cs := rfl
    rw [List.length_cons]
    omega

/-- A text takes as many bytes as characters exactly if each of them takes one. -/
theorem byteLength_eq_length_iff (cs : List Char) :
    byteLength cs = cs.length ↔ ∀ c ∈ cs, c.utf8Size = 1 := by
  induction cs with
  | nil => simp [byteLength]
  | cons c cs ih =>
    have hc := c.utf8Size_pos
    have he : byteLength (c :: cs) = c.utf8Size + byteLength cs := rfl
    have hle := length_le_byteLength cs
    rw [List.forall_mem_cons, ← ih, he, List.length_cons]
    omega

/-- Where characters have one byte each, bytes are counted as characters. -/
theorem cutAt_of_single {n : Nat} {cs : List Char} (h : ∀ c ∈ cs, c.utf8Size = 1)
    (hn : n ≤ cs.length) : cutAt? n cs = some (cs.take n, cs.drop n) := by
  induction cs generalizing n with
  | nil =>
    obtain rfl : n = 0 := by simpa using hn
    rfl
  | cons c cs ih =>
    cases n with
    | zero => rfl
    | succ n =>
      have hc := h c List.mem_cons_self
      have hrest := ih (fun d hd => h d (List.mem_cons_of_mem c hd)) (Nat.le_of_succ_le_succ hn)
      simp [cutAt?, hc, hrest]

/-- How an offset is spelled out, by its length in bytes. -/
theorem spelled_of_spellOffset (h : spellOffset offset = .ok spelled) :
    byteLength offset = 3 ∧ spelled = offset ++ [':', '0', '0'] ∨
      (byteLength offset = 5 ∧ ∃ hours minutes,
        cutAt? 3 offset = some (hours, minutes) ∧ spelled = hours ++ ':' :: minutes) ∨
      (byteLength offset ≠ 3 ∧ byteLength offset ≠ 5 ∧ spelled = offset) := by
  unfold spellOffset at h
  split at h
  · rename_i h3
    cases h
    exact .inl ⟨h3, rfl⟩
  · rename_i h3
    split at h
    · rename_i h5
      split at h
      · rename_i hours minutes hcut
        cases h
        exact .inr (.inl ⟨h5, hours, minutes, hcut, rfl⟩)
      · cases h
    · rename_i h5
      cases h
      exact .inr (.inr ⟨h3, h5, rfl⟩)

/-- What an offset is once its hours and minutes are spelled out. -/
theorem isOffset_iff (cs : List Char) :
    isOffset cs = true ↔ cs = ['Z'] ∨
      ∃ sign a b c d, cs = [sign, a, b, ':', c, d] ∧ (sign = '+' ∨ sign = '-') ∧
        AsciiDigits 2 [a, b] ∧ AsciiDigits 2 [c, d] ∧ Decimal.natOfDigits [a, b] ≤ 23 ∧
        Decimal.natOfDigits [c, d] ≤ 59 := by
  unfold isOffset
  constructor
  · intro h
    split at h
    · exact .inl rfl
    · rename_i sign a b c d
      simp only [Bool.and_eq_true, Bool.or_eq_true, beq_iff_eq, List.all_cons, List.all_nil,
        decide_eq_true_eq] at h
      obtain ⟨⟨⟨signed, ha, hb, hc, hd, -⟩, hour⟩, minute⟩ := h
      exact .inr ⟨sign, a, b, c, d, rfl, signed, ⟨rfl, by simp [ha, hb]⟩, ⟨rfl, by simp [hc, hd]⟩,
        hour, minute⟩
    · cases h
  · rintro (rfl | ⟨sign, a, b, c, d, rfl, signed, hab, hcd, hour, minute⟩)
    · rfl
    · have h1 := hab.ascii
      have h2 := hcd.ascii
      simp only [List.mem_cons, List.not_mem_nil, or_false, forall_eq_or_imp, forall_eq] at h1 h2
      simp [signed, h1, h2, hour, minute]

theorem length_of_isOffset {cs : List Char} (h : isOffset cs = true) :
    cs = ['Z'] ∨ cs.length = 6 := by
  rcases (isOffset_iff cs).mp h with rfl | ⟨_, _, _, _, _, rfl, _⟩
  · exact .inl rfl
  · exact .inr rfl

theorem stops_of_isOffset {cs : List Char} (h : isOffset cs = true) :
    Stops cs ∧ cs.head? ≠ some '.' := by
  rcases (isOffset_iff cs).mp h with rfl | ⟨sign, _, _, _, _, rfl, rfl | rfl, _⟩
  · exact ⟨stops_mark _ (by decide), by decide⟩
  · exact ⟨stops_mark _ (by decide), by simp⟩
  · exact ⟨stops_mark _ (by decide), by simp⟩

theorem head_of_isOffsetOutline (h : isOffsetOutline offset = true) :
    ∃ c rest, offset = c :: rest ∧ c ≠ '.' ∧ isDecimal c = false := by
  unfold isOffsetOutline at h
  split at h
  · exact ⟨'Z', [], rfl, by decide, not_isDecimal_of_mem_marks (by decide)⟩
  · rename_i sign a b rest
    simp only [Bool.and_eq_true, Bool.or_eq_true, beq_iff_eq] at h
    rcases h.1.1.1 with rfl | rfl
    · exact ⟨'+', _, rfl, by decide, not_isDecimal_of_mem_marks (by decide)⟩
    · exact ⟨'-', _, rfl, by decide, not_isDecimal_of_mem_marks (by decide)⟩
  · cases h

theorem head_of_spellOffset {c : Char} {rest : List Char}
    (h : spellOffset (c :: rest) = .ok spelled) : ∃ rest', spelled = c :: rest' := by
  rcases spelled_of_spellOffset h with ⟨-, rfl⟩ | ⟨-, hours, minutes, hcut, rfl⟩ | ⟨-, -, rfl⟩
  · exact ⟨_, rfl⟩
  · simp only [cutAt?, Option.ite_none_right_eq_some] at hcut
    obtain ⟨⟨front, back⟩, -, he⟩ := Option.map_eq_some_iff.mp hcut.2
    cases he
    exact ⟨_, rfl⟩
  · exact ⟨_, rfl⟩

/-- An offset whose spelling is read is one in hours and minutes. -/
theorem isoOffset_of_spellOffset (ho : isOffsetOutline offset = true)
    (hs : spellOffset offset = .ok spelled) (hi : isOffset spelled = true) : IsoOffset offset := by
  have hlen := length_le_byteLength offset
  unfold isOffsetOutline at ho
  split at ho
  · exact .utc
  · rename_i sign a b rest
    simp only [Bool.and_eq_true, Bool.or_eq_true, beq_iff_eq] at ho
    obtain ⟨⟨⟨signed, -⟩, -⟩, hrest⟩ := ho
    split at hrest
    · -- A sign and two digits are an offset only with the minutes that three bytes get.
      rcases spelled_of_spellOffset hs with ⟨-, rfl⟩ | ⟨-, hours, minutes, hcut, rfl⟩ | ⟨-, -, rfl⟩
      · rcases (isOffset_iff _).mp hi with he | ⟨_, _, _, _, _, he, -, hab, -, hour, -⟩
        · cases he
        · cases he
          exact .hours signed hab hour
      · have hl := congrArg List.length (append_of_cutAt hcut)
        rcases length_of_isOffset hi with he | he
        · have hsub := congrArg List.length he
          simp at hl hsub
          omega
        · simp at hl he
          omega
      · rcases length_of_isOffset hi with he | he <;> simp at he
    · rename_i c d
      rcases spelled_of_spellOffset hs with ⟨h3, -⟩ | ⟨h5, hours, minutes, hcut, rfl⟩ | ⟨-, -, rfl⟩
      · simp [h3] at hlen
      · have hsingle := (byteLength_eq_length_iff [sign, a, b, c, d]).mp h5
        cases hcut.symm.trans (cutAt_of_single hsingle (by simp))
        rcases (isOffset_iff _).mp hi with he | ⟨_, _, _, _, _, he, -, hab, hcd, hour, minute⟩
        · cases he
        · cases he
          exact .minutes (h := [a, b]) signed hab (.inl rfl) hcd hour minute
      · rcases length_of_isOffset hi with he | he <;> simp at he
    · rename_i c d
      have h6 := byteLength_of_minutes sign a b c d
      rcases spelled_of_spellOffset hs with ⟨h3, -⟩ | ⟨h5, -⟩ | ⟨-, -, rfl⟩
      · omega
      · omega
      · rcases (isOffset_iff _).mp hi with he | ⟨_, _, _, _, _, he, -, hab, hcd, hour, minute⟩
        · cases he
        · cases he
          exact .minutes (h := [a, b]) signed hab (.inr rfl) hcd hour minute
    · cases hrest
  · cases ho

theorem utf8Size_of_isDigit {c : Char} (h : c.isDigit = true) : c.utf8Size = 1 := by
  have hd := Char.isDigit_iff_toNat.mp h
  have h9 : '9'.toNat = 57 := rfl
  refine Char.utf8Size_eq_one_iff.mpr ?_
  rw [UInt32.le_iff_toNat_le]
  exact Nat.le_trans hd.2 (by decide)

/-- An offset in hours and minutes has a spelling that is read. -/
theorem spellOffset_of_isoOffset (h : IsoOffset offset) :
    isOffsetOutline offset = true ∧
      ∃ spelled, spellOffset offset = .ok spelled ∧ isOffset spelled = true := by
  cases h with
  | utc => exact ⟨rfl, ['Z'], rfl, rfl⟩
  | @hours sign h signed hh hour =>
    obtain ⟨a, b, rfl, ha, hb⟩ := hh.pair
    have hlen : byteLength [sign, a, b] = 3 := by
      simp [byteLength, utf8Size_of_sign signed, utf8Size_of_isDigit ha, utf8Size_of_isDigit hb]
    refine ⟨by simp [isOffsetOutline, signed, isDecimal_of_isDigit, ha, hb],
      [sign, a, b, ':', '0', '0'], by simp [spellOffset, hlen], ?_⟩
    exact (isOffset_iff _).mpr
      (.inr ⟨sign, a, b, '0', '0', rfl, signed, hh, ⟨rfl, by simp⟩, hour, by decide⟩)
  | @minutes sign h colon m signed hh hc hm hour minute =>
    obtain ⟨a, b, rfl, ha, hb⟩ := hh.pair
    obtain ⟨c, d, rfl, hc', hd⟩ := hm.pair
    have hsingle : ∀ x ∈ [sign, a, b, c, d], x.utf8Size = 1 := by
      simp [utf8Size_of_sign signed, utf8Size_of_isDigit, ha, hb, hc', hd]
    have hi : isOffset [sign, a, b, ':', c, d] = true :=
      (isOffset_iff _).mpr (.inr ⟨sign, a, b, c, d, rfl, signed, hh, hm, hour, minute⟩)
    refine ⟨?_, [sign, a, b, ':', c, d], ?_, hi⟩
    · rcases hc with rfl | rfl <;>
        simp [isOffsetOutline, signed, isDecimal_of_isDigit, ha, hb, hc', hd]
    · rcases hc with rfl | rfl
      · have hlen := (byteLength_eq_length_iff _).mpr hsingle
        have hcut := cutAt_of_single (n := 3) hsingle (by simp)
        simp only [List.length_cons, List.length_nil] at hlen
        simp [spellOffset, hlen, hcut]
      · have h6 := byteLength_of_minutes sign a b c d
        have h3 : byteLength [sign, a, b, ':', c, d] ≠ 3 := by omega
        have h5 : byteLength [sign, a, b, ':', c, d] ≠ 5 := by omega
        simp [spellOffset, h3, h5]

end Offsets

/-! ### Texts as a whole -/

section Texts

variable {cs : List Char}

theorem IsoTime.second_eq {second : Nat} (h : IsoTime second cs) :
    second = Decimal.natOfDigits ((cs.drop 6).take 2) := by
  cases h with
  | @intro h m s f hh hm hs hf hour minute value =>
    obtain ⟨a, b, rfl, -⟩ := hh.pair
    obtain ⟨c, d, rfl, -⟩ := hm.pair
    obtain ⟨e, g, rfl, -⟩ := hs.pair
    exact value.symm

theorem IsoDate.length (h : IsoDate cs) : cs.length = 10 := by
  cases h with
  | intro hy hm hd valid => simp [hy.length, hm.length, hd.length]

/-- The seconds stand at a fixed place. -/
theorem IsoDatetime.second_eq {second : Nat} (h : IsoDatetime second cs) :
    second = Decimal.natOfDigits ((cs.drop 17).take 2) := by
  cases h with
  | @intro date time offset hd ht ho =>
    have hdate : (date ++ 'T' :: time ++ offset).drop 17 = (time ++ offset).drop 6 := by
      rw [List.append_assoc, List.drop_append, hd.length,
        List.drop_of_length_le (by simp [hd.length])]
      rfl
    have htime : 8 ≤ time.length := by
      cases ht with
      | intro hh hm hs hf hour minute value =>
        simp only [List.length_append, List.length_cons, hh.length, hm.length, hs.length]
        omega
    rw [hdate, List.drop_append_of_le_length (by omega),
      List.take_append_of_le_length (by simp only [List.length_drop]; omega)]
    exact ht.second_eq

theorem whole_isSome_iff {α : Type} (r : Option (α × List Char)) :
    (whole r).isSome = true ↔ ∃ a, r = some (a, []) := by
  unfold whole
  split <;> simp_all

theorem AsciiFraction.isFraction (h : AsciiFraction cs) : IsFraction cs := by
  cases h with
  | none => exact .none
  | @some ds run =>
    cases ds with
    | nil => exact absurd rfl run.filled
    | cons c ds => exact .some fun d hd => isDecimal_of_isDigit (run.ascii d hd)

theorem outlined_of_iso {date time : List Char} {second : Nat} (hd : IsoDate date)
    (ht : IsoTime second time) : Outlined (date ++ 'T' :: time) := by
  cases hd with
  | intro hy hm hd valid =>
    cases ht with
    | intro hh hn hs hf hour minute value =>
      have := Outlined.intro hy.decimalDigits hm.decimalDigits hd.decimalDigits hh.decimalDigits
        hn.decimalDigits hs.decimalDigits hf.isFraction
      simpa using this

theorem anyFraction_of_ascii (h : AsciiFraction cs) : anyFraction cs = some (cs, []) := by
  cases h with
  | none => rfl
  | @some ds run =>
    have ht : ds.takeWhile isDecimal = ds := by
      have whole := takeWhile_append_of_head
        (fun d hd => isDecimal_of_isDigit (run.ascii d hd)) stops_nil
      rwa [List.append_nil] at whole
    simp [anyFraction, ht, run.filled]

end Texts

end Temporal

open Temporal

variable (s : String)

/-- Dates are read leniently. -/
theorem isDate_iff : isDate s = true ↔ ∃ day, LenientDate day s.toList := by
  rw [isDate, whole_isSome_iff]
  constructor
  · rintro ⟨day, h⟩
    obtain ⟨text, hl, he⟩ := lenientDate_of_date h
    rw [List.append_nil] at he
    exact ⟨day, he ▸ hl⟩
  · rintro ⟨day, h⟩
    refine ⟨day, ?_⟩
    have whole : date (s.toList ++ []) = some (day, []) := date_append h (by simp)
    rwa [List.append_nil] at whole

/-- The lenient reading keeps to the grammar on the texts with its layout. -/
theorem isoDate_iff : IsoDate s.toList ↔ isDate s = true ∧ DateLayout s.toList := by
  constructor
  · intro h
    exact ⟨(isDate_iff s).mpr h.lenientDate, h.dateLayout⟩
  · rintro ⟨h, hl⟩
    rw [isDate, whole_isSome_iff] at h
    obtain ⟨day, hread⟩ := h
    generalize s.toList = cs at hread hl ⊢
    cases hl with
    | intro hy hm hd =>
      exact (isoDate_of_date hy hm hd (by simpa using hread) stops_nil stops_nil).1

/-- Times have seconds, up to a leap second. -/
theorem isTime_iff : isTime s = true ↔ ∃ second ≤ 60, IsoTime second s.toList := by
  unfold isTime
  constructor
  · intro h
    split at h
    · rename_i a b c d e f rest hs
      simp only [List.all_cons, List.all_nil, Bool.and_true, Bool.and_eq_true,
        whole_isSome_iff] at h
      obtain ⟨⟨⟨ha, hb, hc, hd, he, hf⟩, hfraction⟩, t, hread⟩ := h
      split at hfraction
      · rename_i f' hany
        obtain ⟨hfr, hrest⟩ := isFraction_of_anyFraction hany
        rw [List.append_nil] at hrest
        subst hrest
        rw [hs] at hread ⊢
        have two : ∀ {x y : Char}, isDecimal x = true → isDecimal y = true →
            DecimalDigits 2 [x, y] := fun hx hy => ⟨rfl, by simp [hx, hy]⟩
        exact (isoTime_of_timeOfDay (two ha hb) (two hc hd) (two he hf) hfr
          (by simpa using hread) stops_nil (by simp) stops_nil).1
      · cases hfraction
    · cases h
  · rintro ⟨second, hle, h⟩
    obtain ⟨t, hread⟩ := timeOfDay_append h hle stops_nil (by simp)
    rw [List.append_nil] at hread
    generalize s.toList = cs at hread h ⊢
    cases h with
    | @intro h m s f hh hm hs hf hour minute value =>
      obtain ⟨a, b, rfl, ha, hb⟩ := hh.pair
      obtain ⟨c, d, rfl, hc, hd⟩ := hm.pair
      obtain ⟨e, g, rfl, he, hg⟩ := hs.pair
      simp only [List.cons_append, List.nil_append] at hread ⊢
      simp [isDecimal_of_isDigit, ha, hb, hc, hd, he, hg, anyFraction_of_ascii hf, whole_isSome_iff,
        hread]

/-- A datetime has an outline, an offset that can be spelled, and is complete with it. -/
theorem readDatetime_eq_ok_true :
    readDatetime s = .ok true ↔ ∃ body offset spelled, outline s.toList = some (body, offset) ∧
      isOffsetOutline offset = true ∧ spellOffset offset = .ok spelled ∧
      isComplete (body ++ spelled) = true := by
  unfold readDatetime
  constructor
  · intro h
    split at h
    · rename_i body offset hout
      split at h
      · rename_i hoff
        cases hs : spellOffset offset with
        | error e => simp [hs, Except.map] at h
        | ok spelled =>
          simp only [hs, Except.map, Except.ok.injEq] at h
          exact ⟨body, offset, spelled, hout, hoff, hs, h⟩
      · cases h
    · cases h
  · rintro ⟨body, offset, spelled, hout, hoff, hs, hc⟩
    simp [hout, hoff, hs, hc, Except.map]

/-- A complete datetime is a date, a time of day and an offset. -/
theorem isComplete_iff (cs : List Char) :
    isComplete cs = true ↔ ∃ day t offset rest, date cs = some (day, 'T' :: rest) ∧
      timeOfDay rest = some (t, offset) ∧ isOffset offset = true := by
  unfold isComplete
  constructor
  · intro h
    split at h
    · rename_i day back hd
      split at h
      · rename_i t offset ht
        obtain ⟨rest, hm, ht⟩ := Option.bind_eq_some_iff.mp ht
        obtain rfl := (mark_eq_some_iff ..).mp hm
        exact ⟨day, t, offset, rest, hd, ht, h⟩
      · cases h
    · cases h
  · rintro ⟨day, t, offset, rest, hd, ht, ho⟩
    simp [hd, mark, ht, ho]

/-- What is read as a datetime is one in the strict layout, as the outline leaves no other. -/
theorem readDatetime_iff :
    readDatetime s = .ok true ↔ ∃ second ≤ 60, IsoDatetime second s.toList := by
  have htee : ∀ cs, Stops ('T' :: cs) := fun cs => stops_mark cs (by decide)
  rw [readDatetime_eq_ok_true]
  constructor
  · rintro ⟨body, offset, spelled, hout, hoff, hspell, hcomplete⟩
    obtain ⟨hbody, hs⟩ := outlined_of_outline hout
    obtain ⟨day, t, offset', rest, hd, ht, ho⟩ := (isComplete_iff _).mp hcomplete
    have hstop := (stops_of_isOffset ho).1
    rw [hs]
    cases hbody with
    | @intro y m d h n sec f hy hm hdd hh hn hsec hf =>
      rw [List.append_assoc, List.append_assoc, List.append_assoc, List.append_assoc] at hd
      obtain ⟨hdate, he⟩ := isoDate_of_date hy hm hdd hd (htee _) (htee _)
      have hrest : rest = h ++ ':' :: n ++ ':' :: sec ++ f ++ spelled := by simpa using he
      rw [hrest] at ht
      obtain ⟨c, back, rfl, hpoint, hdecimal⟩ := head_of_isOffsetOutline hoff
      obtain ⟨back', rfl⟩ := head_of_spellOffset hspell
      obtain ⟨⟨second, hle, htime⟩, rfl⟩ := isoTime_of_timeOfDay hh hn hsec hf ht
        (stops_cons hdecimal) (by simpa using hpoint) hstop
      have hoffset := isoOffset_of_spellOffset hoff hspell ho
      refine ⟨second, hle, ?_⟩
      have := IsoDatetime.intro hdate htime hoffset
      simpa using this
  · rintro ⟨second, hle, h⟩
    generalize s.toList = cs at h ⊢
    cases h with
    | @intro date time offset hdate ht ho =>
      obtain ⟨hoff, spelled, hspell, hi⟩ := spellOffset_of_isoOffset ho
      obtain ⟨hstop, hnopoint⟩ := stops_of_isOffset hi
      obtain ⟨day, hday⟩ := hdate.lenientDate
      obtain ⟨t, htime⟩ := timeOfDay_append ht hle hstop hnopoint
      have hcomplete : isComplete (date ++ 'T' :: time ++ spelled) = true := by
        refine (isComplete_iff _).mpr ⟨day, t, spelled, time ++ spelled, ?_, htime, hi⟩
        rw [List.append_assoc]
        exact date_append hday (htee _).not_digit
      obtain ⟨c, rest, rfl, hpoint, hdecimal⟩ := head_of_isOffsetOutline hoff
      exact ⟨date ++ 'T' :: time, c :: rest, spelled,
        outline_append (outlined_of_iso hdate ht) rest hpoint hdecimal, hoff, hspell, hcomplete⟩

/-- The grammar up to the second 59 leaves out of the accepted texts those at the second 60. -/
theorem exists_short_of_leap_iff {Says : Nat → Prop} {accepted : Prop}
    (unique : ∀ {m n}, Says m → Says n → m = n) (h : accepted ↔ ∃ second ≤ 60, Says second) :
    (∃ second ≤ 59, Says second) ↔ accepted ∧ ¬ Says 60 := by
  rw [h]
  constructor
  · rintro ⟨n, hn, told⟩
    refine ⟨⟨n, by omega, told⟩, fun leap => ?_⟩
    have := unique told leap
    omega
  · rintro ⟨⟨n, hn, told⟩, hleap⟩
    have hne : n ≠ 60 := fun he => hleap (he ▸ told)
    exact ⟨n, by omega, told⟩

/-- Which texts are taken as a day, a time of day and a datetime. A day follows the lenient grammar
and the strict one exactly in its layout; the others follow the strict one, which ends at the second
59, and go on to the second 60. -/
theorem temporal_texts_accepted (s : String) :
    ((isDate s = true ↔ ∃ day, LenientDate day s.toList) ∧
      (IsoDate s.toList ↔ isDate s = true ∧ DateLayout s.toList)) ∧
    ((isTime s = true ↔ ∃ second ≤ 60, IsoTime second s.toList) ∧
      ((∃ second ≤ 59, IsoTime second s.toList) ↔ isTime s = true ∧ ¬ IsoTime 60 s.toList)) ∧
    (readDatetime s = .ok true ↔ ∃ second ≤ 60, IsoDatetime second s.toList) ∧
      ((∃ second ≤ 59, IsoDatetime second s.toList) ↔
        readDatetime s = .ok true ∧ ¬ IsoDatetime 60 s.toList) :=
  ⟨⟨isDate_iff s, isoDate_iff s⟩,
    ⟨isTime_iff s,
      exists_short_of_leap_iff (fun hm hn => hm.second_eq.trans hn.second_eq.symm) (isTime_iff s)⟩,
    readDatetime_iff s,
    exists_short_of_leap_iff (fun hm hn => hm.second_eq.trans hn.second_eq.symm)
      (readDatetime_iff s)⟩

/-- A month and a day of one digit and a leap second are accepted, outside the strict grammar. -/
theorem shortNumbers_and_leapSeconds_accepted :
    (isDate "2024-1-5" = true ∧ ¬ IsoDate "2024-1-5".toList) ∧
    (isTime "12:30:60" = true ∧ ¬ ∃ second ≤ 59, IsoTime second "12:30:60".toList) ∧
    (isDatetime "2024-12-31T12:30:60Z" = true ∧
      ¬ ∃ second ≤ 59, IsoDatetime second "2024-12-31T12:30:60Z".toList) := by
  refine ⟨⟨by decide +kernel, fun h => ?_⟩, ⟨by decide +kernel, ?_⟩, by decide +kernel, ?_⟩
  · exact absurd h.length (by decide +kernel)
  · rintro ⟨second, hle, h⟩
    have he : second = 60 := h.second_eq.trans (by decide +kernel)
    omega
  · rintro ⟨second, hle, h⟩
    have he : second = 60 := h.second_eq.trans (by decide +kernel)
    omega

end ApiContract
