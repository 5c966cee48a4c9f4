import ApiContract.Proofs.CompletedTexts
import ApiContract.Proofs.PayloadPlaces
import ApiContract.Proofs.SettledPayload

/-!
# What a conversion to a scalar kind comes to

A converted value is of the kind that it was converted to, and a second conversion leaves it alone.
Only a datetime without offset in a far year is written as a text that is no datetime, and that text
is converted no further either.
-/

namespace ApiContract

open Validation

namespace ScalarKind

open Temporal

/-- A value that is converted to a text which is not of the kind: a far datetime without offset. -/
def Misses (kind : ScalarKind) (j : Json) : Prop :=
  kind = .datetime ∧ ∃ s, j = .string s ∧ FarLocal s

variable {kind : ScalarKind} {j k : Json}

/-! ### Dates and times -/

/-- A completed datetime is one itself, or it was made of a datetime without offset. -/
theorem completeDatetime?_cases {s r : String} (h : completeDatetime? s = some r) :
    (isDatetime s = true ∧ r = s) ∨
      ∃ spaced d t, localDatetime spaced s.toList = some (d, t) ∧
        r = String.ofList (utcText d t) := by
  unfold completeDatetime? at h
  split at h
  · rename_i complete
    exact .inl ⟨complete, (Option.some.inj h).symm⟩
  · obtain ⟨⟨d, t⟩, hl, rfl⟩ := Option.map_eq_some_iff.mp h
    cases hs : localDatetime false s.toList with
    | some p =>
      rw [hs] at hl
      cases hl
      exact .inr ⟨false, d, t, hs, rfl⟩
    | none =>
      rw [hs] at hl
      exact .inr ⟨true, d, t, hl, rfl⟩

theorem isDatetime_of_completeDatetime? {s r : String} (h : completeDatetime? s = some r)
    (near : ¬ FarLocal s) : isDatetime r = true := by
  rcases completeDatetime?_cases h with ⟨complete, rfl⟩ | ⟨spaced, d, t, hl, rfl⟩
  · exact complete
  · obtain ⟨day, time⟩ := valid_of_localDatetime hl
    refine (isDatetime_utcText_iff day time).mpr (Decidable.byContradiction fun far => ?_)
    exact near ⟨spaced, d, t, hl, far⟩

/-- A far datetime is completed to a text that no reader of datetimes takes. -/
theorem completeDatetime?_of_far {s r : String} (h : completeDatetime? s = some r)
    (far : FarLocal s) : isDatetime r = false ∧ completeDatetime? r = none := by
  obtain ⟨spaced', d', t', hl', hy⟩ := far
  rcases completeDatetime?_cases h with ⟨complete, rfl⟩ | ⟨spaced, d, t, hl, rfl⟩
  · rw [localDatetime_of_isDatetime complete] at hl'
    cases hl'
  · obtain ⟨day, time⟩ := valid_of_localDatetime hl
    obtain rfl := day_of_localDatetime hl hl'
    have refused : isDatetime (String.ofList (utcText d t)) = false :=
      Bool.eq_false_iff.mpr fun complete => hy ((isDatetime_utcText_iff day time).mp complete)
    refine ⟨refused, ?_⟩
    simp [completeDatetime?, refused, localDatetime_utcText day time]

/-- A time without seconds is completed by some, and is a time then. -/
theorem isTime_of_completeTime? {s r : String} (h : completeTime? s = some r) :
    isTime r = true := by
  unfold completeTime? at h
  split at h
  · rename_i complete
    rwa [← Option.some.inj h]
  · obtain ⟨t, ht, rfl⟩ := Option.map_eq_some_iff.mp h
    have valid := valid_of_hourMinute (whole_eq_some_iff.mp ht)
    have time := isoTime_clockText valid .none
    rw [List.append_nil] at time
    rw [isTime_iff, String.toList_ofList]
    exact ⟨t.second, valid.2.2.1, time⟩

/-! ### All kinds -/

/-- A converted value is of its kind unless it misses it. -/
theorem hasKind_of_coerce? (h : kind.coerce? j = some k) (near : ¬ kind.Misses j) :
    hasKind kind k = true := by
  unfold coerce? at h
  split at h
  · cases h
  cases kind with
  | string =>
    obtain rfl := Option.some.inj h
    cases j <;> rfl
  | integer =>
    obtain ⟨n, rfl⟩ := int_of_toInteger? h
    rfl
  | float | decimal => obtain ⟨n, rfl⟩ | ⟨x, rfl⟩ := number_of_toNumber? h <;> rfl
  | boolean =>
    obtain ⟨b, rfl⟩ := bool_of_toBoolean? h
    rfl
  | date | uuid =>
    obtain ⟨s, hs, ht⟩ := Option.bind_eq_some_iff.mp h
    obtain rfl : j = .string s := by cases j <;> cases hs; rfl
    split at ht <;> cases ht
    assumption
  | datetime =>
    obtain ⟨r, hr, rfl⟩ := Option.map_eq_some_iff.mp h
    obtain ⟨s, hs, hc⟩ := Option.bind_eq_some_iff.mp hr
    obtain rfl : j = .string s := by cases j <;> cases hs; rfl
    exact isDatetime_of_completeDatetime? hc fun far => near ⟨rfl, s, rfl, far⟩
  | time =>
    obtain ⟨r, hr, rfl⟩ := Option.map_eq_some_iff.mp h
    obtain ⟨s, -, hc⟩ := Option.bind_eq_some_iff.mp hr
    exact isTime_of_completeTime? hc
  | unknown => rfl

theorem misses_of_coerce? (h : kind.coerce? j = some k) (far : kind.Misses j) :
    hasKind kind k = false ∧ kind.coerce? k = none := by
  obtain ⟨rfl, s, rfl, far⟩ := far
  obtain ⟨r, hr, rfl⟩ := Option.map_eq_some_iff.mp h
  obtain ⟨refused, failed⟩ := completeDatetime?_of_far hr far
  exact ⟨refused, by simp [coerce?, Json.isNull, Json.string?, failed]⟩

/-- What is of a kind is converted to itself; `null` is converted to nothing. -/
theorem coerce?_eq_self (h : hasKind kind j = true) (hj : j ≠ .null) : kind.coerce? j = some j := by
  cases kind <;> cases j <;> first
    | exact absurd rfl hj
    | rfl
    | cases h
    | simp_all [hasKind, coerce?, Json.isNull, completeDatetime?, completeTime?, Json.string?]

theorem ne_null_of_coerce? (h : kind.coerce? j = some k) : k ≠ .null := by
  rintro rfl
  by_cases far : kind.Misses j
  · obtain ⟨rfl, s, rfl, -⟩ := far
    obtain ⟨r, -, he⟩ := Option.map_eq_some_iff.mp h
    cases he
  · have ofKind := hasKind_of_coerce? h far
    cases kind <;> cases ofKind
    cases j <;> cases h

/-- A second conversion gives the value again, or fails and leaves it alone. -/
theorem coerce?_getD_again (kind : ScalarKind) (j : Json) :
    (kind.coerce? ((kind.coerce? j).getD j)).getD ((kind.coerce? j).getD j) =
      (kind.coerce? j).getD j := by
  cases h : kind.coerce? j with
  | none => simp [h]
  | some k =>
    simp only [Option.getD_some]
    by_cases far : kind.Misses j
    · rw [(misses_of_coerce? h far).2, Option.getD_none]
    · exact coerce?_of_hasKind (hasKind_of_coerce? h far)

end ScalarKind

/-- A plain definition of a scalar kind accepts the values of the kind other than `null`. -/
theorem accepts_scalar_iff (c : Context) (kind : ScalarKind) (j : Json) :
    c.accepts (.scalar kind) j = true ↔ hasKind kind j = true ∧ j ≠ .null := by
  have hn : (j.isNull && takesNull (.scalar kind)) = false := by
    simp [takesNull, Definition.scalar]
  rw [accepts_iff_meetsScalar rfl hn]
  constructor
  · rintro ⟨hj, meets⟩
    exact ⟨meets.ofKind, hj⟩
  · rintro ⟨ofKind, hj⟩
    have unbounded : ∀ x, (Definition.scalar kind).Bounds x := by
      intro x
      constructor <;> simp [Definition.scalar]
    exact ⟨hj, ofKind, fun _ x _ => unbounded x, fun _ _ _ x _ => unbounded x,
      by simp [Definition.scalar], by simp [allowedValues?, Definition.scalar]⟩

/-- A value converted to a kind is accepted by the plain definition of the kind and converted to
itself, unless it was made of a far datetime: that one is refused and not converted at all. -/
theorem coerce?_lands (c : Context) {kind : ScalarKind} {j k : Json}
    (h : kind.coerce? j = some k) :
    (¬ kind.Misses j → c.accepts (.scalar kind) k = true ∧ kind.coerce? k = some k) ∧
      (kind.Misses j → c.accepts (.scalar kind) k = false ∧ kind.coerce? k = none) := by
  constructor
  · intro near
    have ofKind := ScalarKind.hasKind_of_coerce? h near
    have hk := ScalarKind.ne_null_of_coerce? h
    exact ⟨(accepts_scalar_iff c kind k).mpr ⟨ofKind, hk⟩, ScalarKind.coerce?_eq_self ofKind hk⟩
  · intro far
    obtain ⟨refused, failed⟩ := ScalarKind.misses_of_coerce? h far
    refine ⟨Bool.eq_false_iff.mpr fun accepted => ?_, failed⟩
    rw [((accepts_scalar_iff c kind k).mp accepted).1] at refused
    cases refused

/-- A leap second and a fraction of two digits, with blanks and short numbers, are written in full,
and the result stays. -/
theorem leapSecond_lands :
    ScalarKind.datetime.coerce? (.string " 2016-12-31  23:59:60.25") =
        some (.string "2016-12-31T23:59:60.250Z") ∧
      shop.accepts (.scalar .datetime) (.string "2016-12-31T23:59:60.250Z") = true ∧
      ScalarKind.datetime.coerce? (.string "2016-12-31T23:59:60.250Z") =
        some (.string "2016-12-31T23:59:60.250Z") := by
  have converted : ScalarKind.datetime.coerce? (.string " 2016-12-31  23:59:60.25") =
      some (.string "2016-12-31T23:59:60.250Z") := by
    decide +kernel
  have near : ¬ ScalarKind.datetime.Misses (.string " 2016-12-31  23:59:60.25") := by
    rintro ⟨-, s, he, spaced, d, t, hl, far⟩
    cases he
    have read : Temporal.localDatetime true " 2016-12-31  23:59:60.25".toList =
        some (⟨2016, 12, 31⟩, ⟨23, 59, 60, 250000000⟩) := by
      decide +kernel
    obtain rfl := Temporal.day_of_localDatetime read hl
    exact far (by decide)
  exact ⟨converted, (coerce?_lands shop converted).1 near⟩

/-- A datetime without offset in a year of five digits is converted to a text that is refused as a
datetime and cannot be converted again. -/
theorem farDatetime_misses :
    ScalarKind.datetime.coerce? (.string "+12345-01-01T00:00:00") =
        some (.string "+12345-01-01T00:00:00Z") ∧
      shop.accepts (.scalar .datetime) (.string "+12345-01-01T00:00:00Z") = false ∧
      ScalarKind.datetime.coerce? (.string "+12345-01-01T00:00:00Z") = none := by
  decide +kernel

end ApiContract
