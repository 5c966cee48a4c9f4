import ApiContract.Proofs.NumberTexts
import ApiContract.Proofs.OffsetCut

/-!
# Which payloads break a walk off

A walk reads as datetimes only texts that stand in the payload, and conversion makes no new text that
splits. So neither conversion nor validation breaks off on a payload without a text that does.
-/

namespace ApiContract

namespace Json

def Holds (j : Json) (s : String) : Prop := ∃ tokens, j.follow? tokens = some (.string s)

variable {j k m : Json} {s : String}

theorem holds_self (s : String) : (string s).Holds s := ⟨[], rfl⟩

theorem Holds.below {token : String} (h : m.Holds s) (hm : j.child? token = some m) : j.Holds s := by
  obtain ⟨tokens, ht⟩ := h
  exact ⟨token :: tokens, by simpa [hm] using ht⟩

theorem Holds.split (h : k.Holds s) :
    k = .string s ∨ ∃ token m, k.child? token = some m ∧ m.Holds s := by
  obtain ⟨tokens, ht⟩ := h
  cases tokens with
  | nil => exact .inl (Option.some.inj ht)
  | cons token tokens =>
    obtain ⟨m, hm, ht⟩ := Option.bind_eq_some_iff.mp ht
    exact .inr ⟨token, m, hm, tokens, ht⟩

theorem holds_of_member {members : Keyed Json} {key : String} (hm : members.get? key = some m)
    (h : m.Holds s) : (object members).Holds s := h.below hm

theorem holds_of_mem {elements : List Json} (hm : m ∈ elements) (h : m.Holds s) :
    (array elements).Holds s := by
  obtain ⟨n, hn, rfl⟩ := List.mem_iff_getElem.mp hm
  have hc : (array elements).child? (PathSegment.index n).text = some elements[n] := by simp
  exact h.below hc

/-- A change under one key brings in no text that the member did not hold. -/
theorem holds_of_modify {members : Keyed Json} {key : String} {f : Json → Json}
    (hf : ∀ m : Json, (f m).Holds s → m.Holds s)
    (h : (object (Keyed.modify key f members)).Holds s) : (object members).Holds s := by
  rcases h.split with he | ⟨token, m, hm, hs⟩
  · cases he
  · simp only [child?, Keyed.get?_modify] at hm
    split at hm
    · obtain ⟨m', hm', rfl⟩ := Option.map_eq_some_iff.mp hm
      exact holds_of_member hm' (hf m' hs)
    · exact holds_of_member hm hs

theorem holds_of_map {elements : List Json} {f : Json → Json}
    (hf : ∀ m : Json, (f m).Holds s → m.Holds s) (h : (array (elements.map f)).Holds s) :
    (array elements).Holds s := by
  rcases h.split with he | ⟨token, m, hm, hs⟩
  · cases he
  · obtain ⟨n, -, hm⟩ := Option.bind_eq_some_iff.mp hm
    obtain ⟨m', hm', rfl⟩ := List.mem_map.mp (List.mem_of_getElem? hm)
    exact holds_of_mem hm' (hf m' hs)

end Json

/-! ### Validation -/

/-- A walk that reads a text only if it stands in the value. -/
def ReadsHeld (s : String) (next : TextsRead) : Prop :=
  ∀ (d : Definition) (j : Json), s ∈ next d j → j.Holds s

section

variable {s : String}

theorem readsHeld_nothing (s : String) : ReadsHeld s fun _ _ => [] := by
  intro d j h
  cases h

/-- What is read as a datetime is the value itself. -/
theorem held_of_mem_datetimesIn {kind : ScalarKind} {j : Json} (h : s ∈ kind.datetimesIn j) :
    j.Holds s := by
  unfold ScalarKind.datetimesIn at h
  split at h
  · cases j with
    | string t =>
      obtain rfl := List.mem_singleton.mp h
      exact Json.holds_self s
    | _ => cases h
  · cases h

theorem held_of_mem_member {members : Keyed Json} {key : String} {next : Json → List String}
    (hn : ∀ j : Json, s ∈ next j → j.Holds s)
    (h : s ∈ ((Keyed.get? members key).map next).getD []) : (Json.object members).Holds s := by
  cases hm : Keyed.get? members key with
  | none => simp [hm] at h
  | some m =>
    simp only [hm, Option.map_some, Option.getD_some] at h
    exact Json.holds_of_member hm (hn m h)

theorem held_of_mem_membersRead {case : KeyCase} {next : TextsRead} (hn : ReadsHeld s next)
    {shape : List Field} {j : Json} (h : s ∈ membersRead case next shape j) : j.Holds s := by
  cases j with
  | object members =>
    obtain ⟨f, -, h⟩ := List.mem_flatMap.mp h
    exact held_of_mem_member (hn f.definition) h
  | _ => cases h

theorem held_of_mem_elementsRead {next : Json → List String}
    (hn : ∀ j : Json, s ∈ next j → j.Holds s) {j : Json} (h : s ∈ elementsRead next j) :
    j.Holds s := by
  cases j with
  | array elements =>
    obtain ⟨m, hm, h⟩ := List.mem_flatMap.mp h
    exact Json.holds_of_mem hm (hn m h)
  | _ => cases h

namespace Validation

/-- What a scalar reads is in the value, be it one text or a list of them. -/
theorem held_of_mem_scalarRead {d : Definition} {kind : ScalarKind} {j : Json}
    (h : s ∈ scalarRead d kind j) : j.Holds s := by
  rcases List.mem_append.mp h with hk | hf
  · exact held_of_mem_datetimesIn hk
  · split at hf
    · split at hf
      · rename_i format t _ ht
        have hj : j = .string t := by cases j <;> cases ht; rfl
        unfold StringFormat.datetimesIn at hf
        split at hf
        · rw [hj, List.mem_singleton.mp hf]
          exact Json.holds_self t
        · cases hf
      · cases hf
    · cases hf

theorem held_of_mem_variantsRead {judge : Judge} {next : TextsRead} (hn : ReadsHeld s next)
    {variants : List Variant} {j : Json} (h : s ∈ variantsRead judge next j variants) :
    j.Holds s := by
  induction variants with
  | nil => cases h
  | cons variant rest ih =>
    rcases List.mem_append.mp h with hv | hr
    · exact hn variant.definition j hv
    · split at hr
      · cases hr
      · exact ih hr

/-- One step reads only texts of the value if the walks below do. -/
theorem readsHeld_step {c : Context} {judge : Judge} {next afterNext : TextsRead}
    (hn : ReadsHeld s next) (ha : ReadsHeld s afterNext) :
    ReadsHeld s (stepRead c judge next afterNext) := by
  intro d j h
  unfold stepRead at h
  split at h
  · cases h
  cases hk : d.kind with
  | reference target =>
    simp only [hk] at h
    cases hd : c.view.definition? target with
    | none => simp [hd] at h
    | some definition => exact hn definition j (by simpa [hd] using h)
  | object shape => exact held_of_mem_membersRead hn (by simpa [hk] using h)
  | array items =>
    cases items with
    | of element => exact held_of_mem_elementsRead (hn element) (by simpa [hk] using h)
    | shape fields =>
      exact held_of_mem_elementsRead (fun m => held_of_mem_membersRead ha) (by simpa [hk] using h)
  | union discriminator variants =>
    cases discriminator with
    | some key =>
      simp only [hk] at h
      cases hv : Variant.chosenBy? variants (c.case.apply key) j with
      | none => simp [hv] at h
      | some variant => exact hn variant.definition j (by simpa [hv] using h)
    | none => exact held_of_mem_variantsRead hn (by simpa [hk] using h)
  | literal value => simp [hk] at h
  | scalar kind => exact held_of_mem_scalarRead (by simpa [hk] using h)

theorem readsHeld_read (c : Context) (s : String) (n : Nat) : ReadsHeld s (read c n) :=
  read_induction c (readsHeld_nothing s) (fun _ _ _ => readsHeld_step) n

end Validation

end

/-! ### Texts that conversion makes -/

section Marks

open Temporal

variable {s : String}

/-- A text that breaks its reading off has the mark between day and time, starts with a digit and
ends in one. -/
theorem marks_of_breaksOff (h : breaksOff s = true) :
    'T' ∈ s.toList ∧ (∃ c rest, s.toList = c :: rest ∧ isDecimal c = true) ∧
      ∃ front c, s.toList = front ++ [c] ∧ isDecimal c = true := by
  obtain ⟨body, sign, a, b, hs, hb, ho⟩ := (breaksOff_iff s).mp h
  have hlast : ∃ front c, s.toList = front ++ [c] ∧ isDecimal c = true :=
    ⟨body ++ [sign, a], b, by simp [hs], ho.decimal.2⟩
  cases hb with
  | @intro y m d h n s f hy hm hd hh hn hs' hf =>
    refine ⟨by simp [hs], ?_, hlast⟩
    cases y with
    | nil => cases hy.length
    | cons c rest => exact ⟨c, _, by simpa using hs, hy.decimal c List.mem_cons_self⟩

theorem mark_not_mem_padded (width n : Nat) : 'T' ∉ padded width n := by
  intro h
  cases isDigit_of_mem_padded h

theorem mark_not_mem_clockText (t : TimeOfDay) : 'T' ∉ clockText t := by
  simp [clockText, mark_not_mem_padded]

/-- No text of anything but a string breaks its reading off. -/
theorem not_breaksOff_text {j : Json} (hj : ∀ s, j ≠ .string s) : ¬ breaksOff j.text = true := by
  intro h
  obtain ⟨hmark, ⟨c, rest, hc, hd⟩, -⟩ := marks_of_breaksOff h
  cases j with
  | null => revert hmark; decide
  | bool b => cases b <;> revert hmark <;> decide
  | int n => cases inNumber_of_mem_intText hmark
  | float x => cases Binary64.inNumber_of_mem_text hmark
  | string s => exact hj s rfl
  | array elements =>
    obtain rfl : c = '[' := by
      simp only [Json.text, String.toList_append] at hc
      exact (List.cons.inj hc).1.symm
    revert hd
    decide
  | object members =>
    obtain rfl : c = '\x7b' := by
      simp only [Json.text, String.toList_append] at hc
      exact (List.cons.inj hc).1.symm
    revert hd
    decide

theorem not_breaksOff_utcText (d : Date) (t : TimeOfDay) :
    ¬ breaksOff (String.ofList (utcText d t)) = true := by
  intro h
  obtain ⟨-, -, front, c, hc, hd⟩ := marks_of_breaksOff h
  rw [String.toList_ofList] at hc
  obtain rfl : 'Z' = c := List.singleton_inj.mp (List.append_inj' hc rfl).2
  revert hd
  decide +kernel

theorem not_breaksOff_clockText (t : TimeOfDay) :
    ¬ breaksOff (String.ofList (clockText t)) = true := by
  intro h
  have hmark := (marks_of_breaksOff h).1
  rw [String.toList_ofList] at hmark
  exact mark_not_mem_clockText t hmark

end Marks

/-! ### Conversion -/

namespace ScalarKind

theorem toText_of_ne_string {j : Json} (hj : ∀ s, j ≠ .string s) : toText j = .string j.text := by
  cases j <;> first | rfl | exact absurd rfl (hj _)

/-- A text that breaks its reading off was not made by a conversion to a scalar. -/
theorem eq_of_coerce?_breaksOff {kind : ScalarKind} {j : Json} {s : String}
    (hb : breaksOff s = true) (h : kind.coerce? j = some (.string s)) : j = .string s := by
  have ofSelf : ∀ {test : String → Bool},
      (j.string?.bind fun t => if test t then some j else none) = some (.string s) →
        j = .string s := by
    intro test hf
    obtain ⟨t, -, ht⟩ := Option.bind_eq_some_iff.mp hf
    split at ht <;> cases ht
    rfl
  unfold coerce? at h
  split at h
  · cases h
  cases kind with
  | string =>
    by_cases hj : ∃ t, j = .string t
    · obtain ⟨t, rfl⟩ := hj
      exact Option.some.inj h
    · have hne : ∀ t, j ≠ .string t := fun t ht => hj ⟨t, ht⟩
      have hs : j.text = s :=
        Json.string.inj ((toText_of_ne_string hne).symm.trans (Option.some.inj h))
      exact absurd (hs ▸ hb) (not_breaksOff_text hne)
  | integer =>
    obtain ⟨n, hn⟩ := int_of_toInteger? h
    cases hn
  | float | decimal => obtain ⟨n, hn⟩ | ⟨x, hx⟩ := number_of_toNumber? h <;> contradiction
  | boolean =>
    obtain ⟨b, hn⟩ := bool_of_toBoolean? h
    cases hn
  | datetime =>
    obtain ⟨t, ht, he⟩ := Option.map_eq_some_iff.mp h
    obtain ⟨u, hu, hc⟩ := Option.bind_eq_some_iff.mp ht
    obtain rfl : t = s := Json.string.inj he
    obtain rfl : j = .string u := by cases j <;> cases hu; rfl
    unfold completeDatetime? at hc
    split at hc
    · rw [Option.some.inj hc]
    · obtain ⟨⟨d, time⟩, -, rfl⟩ := Option.map_eq_some_iff.mp hc
      exact absurd hb (not_breaksOff_utcText d time)
  | time =>
    obtain ⟨t, ht, he⟩ := Option.map_eq_some_iff.mp h
    obtain ⟨u, hu, hc⟩ := Option.bind_eq_some_iff.mp ht
    obtain rfl : t = s := Json.string.inj he
    obtain rfl : j = .string u := by cases j <;> cases hu; rfl
    unfold completeTime? at hc
    split at hc
    · rw [Option.some.inj hc]
    · obtain ⟨time, -, rfl⟩ := Option.map_eq_some_iff.mp hc
      exact absurd hb (not_breaksOff_clockText time)
  | date | uuid => exact ofSelf h
  | unknown => exact Option.some.inj h

theorem held_of_coerce? {kind : ScalarKind} {j k : Json} {s : String} (hb : breaksOff s = true)
    (h : kind.coerce? j = some k) (hs : k.Holds s) : j.Holds s := by
  rcases coerce?_leaf h with rfl | hk
  · exact hs
  · rcases hs.split with rfl | ⟨token, m, hm, -⟩
    · rw [eq_of_coerce?_breaksOff hb h]
      exact Json.holds_self s
    · rw [Json.child?_of_isLeaf hk token] at hm
      cases hm

end ScalarKind

namespace Coercion

/-- A converter whose results hold a text only if the value does. -/
def AddsNone (s : String) (next : Converter) : Prop :=
  ∀ (d : Definition) (j : Json), (next d j).Holds s → j.Holds s

variable {s : String} {next afterNext : Converter}

theorem held_of_getD {j : Json} {o : Option Json} (h : ∀ k, o = some k → k.Holds s → j.Holds s)
    (hs : (o.getD j).Holds s) : j.Holds s := by
  cases o with
  | none => exact hs
  | some k => exact h k rfl hs

theorem held_of_object {case : KeyCase} (hn : AddsNone s next) {shape : List Field} {j : Json}
    (hs : (object case next shape j).Holds s) : j.Holds s := by
  cases j with
  | object members =>
    simp only [object] at hs
    induction shape generalizing members with
    | nil => exact hs
    | cons f rest ih => exact Json.holds_of_modify (hn f.definition) (ih _ hs)
  | _ => exact hs

theorem held_of_array {convert : Json → Json} (hc : ∀ m : Json, (convert m).Holds s → m.Holds s)
    {j : Json} (hs : (array convert j).Holds s) : j.Holds s := by
  cases j with
  | array elements => exact Json.holds_of_map hc hs
  | _ => exact hs

/-- A trial that was taken holds no new text. -/
theorem held_of_firstAccepted? {c : Context} (hn : AddsNone s next) {variants : List Variant}
    {j k : Json} (h : firstAccepted? c next j variants = some k) (hs : k.Holds s) : j.Holds s := by
  induction variants with
  | nil => cases h
  | cons variant rest ih =>
    simp only [firstAccepted?] at h
    split at h
    · obtain rfl := Option.some.inj h
      exact hn variant.definition j hs
    · exact ih h

theorem held_of_untaggedUnion {c : Context} (hb : breaksOff s = true) (hn : AddsNone s next)
    {variants : List Variant} {j : Json} (hs : (untaggedUnion c next variants j).Holds s) :
    j.Holds s := by
  unfold untaggedUnion at hs
  simp only at hs
  split at hs
  · rename_i b h
    split at h
    · exact ScalarKind.held_of_coerce? hb h hs
    · cases h
  · exact held_of_getD (fun k hk => held_of_firstAccepted? hn hk) hs

/-- One step adds no text if the walks below add none: a text that breaks off is no result of a
conversion. -/
theorem addsNone_step (c : Context) (hb : breaksOff s = true) (hn : AddsNone s next)
    (ha : AddsNone s afterNext) : AddsNone s (step c next afterNext) := by
  intro d j hs
  unfold step at hs
  split at hs
  · exact hs
  cases hk : d.kind with
  | reference target =>
    simp only [hk] at hs
    cases hd : c.view.definition? target with
    | none => simpa [hd] using hs
    | some definition => exact hn definition j (by simpa [hd] using hs)
  | object shape => exact held_of_object hn (by simpa [hk] using hs)
  | array items =>
    cases items with
    | of element => exact held_of_array (hn element) (by simpa [hk] using hs)
    | shape fields => exact held_of_array (fun m => held_of_object ha) (by simpa [hk] using hs)
  | union discriminator variants =>
    cases discriminator with
    | some key =>
      simp only [hk] at hs
      cases hv : Variant.chosenBy? variants (c.case.apply key) j with
      | none => simpa [hv] using hs
      | some variant => exact hn variant.definition j (by simpa [hv] using hs)
    | none => exact held_of_untaggedUnion hb hn (by simpa [hk] using hs)
  | literal value =>
    simp only [hk] at hs
    refine held_of_getD ?_ hs
    intro k hl
    obtain ⟨kind, -, hc⟩ := Option.bind_eq_some_iff.mp hl
    exact ScalarKind.held_of_coerce? hb hc
  | scalar kind =>
    simp only [hk] at hs
    exact held_of_getD (fun k hc => ScalarKind.held_of_coerce? hb hc) hs

/-- A conversion makes no text that breaks its reading off. -/
theorem addsNone_convert (c : Context) (hb : breaksOff s = true) (n : Nat) :
    AddsNone s (convert c n) :=
  convert_induction c (fun _ _ hs => hs) (fun _ _ => addsNone_step c hb) n

/-! ### What conversion reads -/

variable {read afterRead : TextsRead}

theorem held_of_mem_fieldsRead {case : KeyCase} (hn : AddsNone s next) (hr : ReadsHeld s read)
    {shape : List Field} {members : Keyed Json} (h : s ∈ fieldsRead case next read shape members) :
    (Json.object members).Holds s := by
  induction shape generalizing members with
  | nil => cases h
  | cons f rest ih =>
    rcases List.mem_append.mp h with hf | hrest
    · exact held_of_mem_member (hr f.definition) hf
    · exact Json.holds_of_modify (hn f.definition) (ih hrest)

theorem held_of_mem_objectRead {case : KeyCase} (hn : AddsNone s next) (hr : ReadsHeld s read)
    {shape : List Field} {j : Json} (h : s ∈ objectRead case next read shape j) : j.Holds s := by
  cases j with
  | object members => exact held_of_mem_fieldsRead hn hr h
  | _ => cases h

theorem held_of_mem_variantsRead {c : Context} (hn : AddsNone s next) (hr : ReadsHeld s read)
    {variants : List Variant} {j : Json} (h : s ∈ variantsRead c next read j variants) :
    j.Holds s := by
  induction variants with
  | nil => cases h
  | cons variant rest ih =>
    simp only [variantsRead, List.mem_append] at h
    rcases h with (hv | hc) | ht
    · exact hr variant.definition j hv
    · apply hn variant.definition j
      exact Validation.readsHeld_read c s (nestingLimit + 1) variant.definition _ hc
    · split at ht
      · cases ht
      · exact ih ht

theorem readsHeld_step {c : Context} (hn : AddsNone s next) (ha : AddsNone s afterNext)
    (hr : ReadsHeld s read) (har : ReadsHeld s afterRead) :
    ReadsHeld s (stepRead c next afterNext read afterRead) := by
  intro d j h
  unfold stepRead at h
  split at h
  · cases h
  cases hk : d.kind with
  | reference target =>
    simp only [hk] at h
    cases hd : c.view.definition? target with
    | none => simp [hd] at h
    | some definition => exact hr definition j (by simpa [hd] using h)
  | object shape => exact held_of_mem_objectRead hn hr (by simpa [hk] using h)
  | array items =>
    cases items with
    | of element => exact held_of_mem_elementsRead (hr element) (by simpa [hk] using h)
    | shape fields =>
      exact held_of_mem_elementsRead (fun m => held_of_mem_objectRead ha har)
        (by simpa [hk] using h)
  | union discriminator variants =>
    cases discriminator with
    | some key =>
      simp only [hk] at h
      cases hv : Variant.chosenBy? variants (c.case.apply key) j with
      | none => simp [hv] at h
      | some variant => exact hr variant.definition j (by simpa [hv] using h)
    | none =>
      simp only [hk, unionRead] at h
      split at h
      · cases h
      · exact held_of_mem_variantsRead hn hr h
  | literal value => simp [hk] at h
  | scalar kind => exact held_of_mem_datetimesIn (by simpa [hk] using h)

theorem readsHeld_read (c : Context) (hb : breaksOff s = true) (n : Nat) :
    ReadsHeld s (Coercion.read c n) :=
  read_induction c (readsHeld_nothing s)
    (fun n _ _ => readsHeld_step (addsNone_convert c hb n) (addsNone_convert c hb (n - 1))) n

end Coercion

theorem held_of_any_breaksOff {texts : List String} {j : Json}
    (hr : ∀ s, breaksOff s = true → s ∈ texts → j.Holds s) (h : texts.any breaksOff = true) :
    ∃ s, j.Holds s ∧ SplitDatetime s := by
  obtain ⟨s, hs, hb⟩ := List.any_eq_true.mp h
  exact ⟨s, hr s hb hs, (breaksOff_iff s).mp hb⟩

theorem breaksOff_of_datetime (c : Context) (s : String) :
    c.coerceBreaksOff (.scalar .datetime) (.string s) = breaksOff s ∧
      c.validateBreaksOff (.scalar .datetime) (.string s) = breaksOff s := by
  have hc : c.readByCoerce (.scalar .datetime) (.string s) = [s] := by
    rw [Context.readByCoerce, Coercion.read_succ]
    rfl
  have hv : c.readByValidate (.scalar .datetime) (.string s) = [s] := by
    rw [Context.readByValidate, Validation.read_succ]
    simp [Validation.stepRead, Validation.scalarRead, Definition.scalar, Json.isNull,
      ScalarKind.datetimesIn, Json.string?]
  simp [Context.coerceBreaksOff, Context.validateBreaksOff, hc, hv]

/-- A datetime breaks its conversion and its validation off exactly if its offset splits, and a
payload breaks them off only if such a datetime stands in it. -/
theorem breaksOff_only_at_split_datetimes (c : Context) :
    (∀ s : String, breaksOff s = true ↔ SplitDatetime s) ∧
    (∀ s : String, SplitDatetime s → c.coerceBreaksOff (.scalar .datetime) (.string s) = true ∧
      c.validateBreaksOff (.scalar .datetime) (.string s) = true) ∧
    ∀ (d : Definition) (j : Json),
      c.coerceBreaksOff d j = true ∨ c.validateBreaksOff d j = true →
        ∃ s, j.Holds s ∧ SplitDatetime s := by
  refine ⟨breaksOff_iff, ?_, ?_⟩
  · intro s hs
    have hb := (breaksOff_iff s).mpr hs
    obtain ⟨hc, hv⟩ := breaksOff_of_datetime c s
    exact ⟨hc.trans hb, hv.trans hb⟩
  · rintro d j (h | h)
    · exact held_of_any_breaksOff
        (fun s hb hs => Coercion.readsHeld_read c hb (nestingLimit + 1) d j hs) h
    · exact held_of_any_breaksOff
        (fun s _ hs => Validation.readsHeld_read c s (nestingLimit + 1) d j hs) h

/-- The second digit is the full-width zero, which takes three bytes. -/
def fullWidthOffset : String := "2024-01-01T00:00:00+0０"

def noTypes : Context := { view := ⟨.empty, .global⟩, case := .preserve }

theorem fullWidthOffset_splits :
    breaksOff fullWidthOffset = true ∧ SplitDatetime fullWidthOffset ∧
      noTypes.coerceBreaksOff (.scalar .datetime) (.string fullWidthOffset) = true := by
  obtain ⟨exact_at, every_datetime, -⟩ := breaksOff_only_at_split_datetimes noTypes
  have hb : breaksOff fullWidthOffset = true := by rfl
  have hs : SplitDatetime fullWidthOffset := (exact_at fullWidthOffset).mp hb
  exact ⟨hb, hs, (every_datetime fullWidthOffset hs).1⟩

/-- Neither a conversion to a datetime nor a test of the format gets through the text. -/
theorem fullWidthOffset_breaksOff :
    readDatetime fullWidthOffset = .error ⟨['+', '0', '０'], 3⟩ ∧
      ScalarKind.datetime.coercionBreaksOff (.string fullWidthOffset) = true ∧
      StringFormat.datetime.testBreaksOff fullWidthOffset = true := by
  refine ⟨?_, ?_, ?_⟩
  · rfl
  · rfl
  · rfl

end ApiContract
