import ApiContract.Proofs.IssueLocation

/-!
# When a walk finds nothing wrong

Each kind of definition is given the exact condition under which judging a value by it finds no
issue, in terms of what the judges below find. Inside a tagged union the key of the tag may be one
that no field has, so the condition is stated up to issues about some excused keys.
-/

namespace ApiContract

structure Definition.Bounds (d : Definition) (x : Binary64) : Prop where
  low : ∀ least, d.min = some least → x.lt least = false
  high : ∀ greatest, d.max = some greatest → greatest.lt x = false

def Definition.Counts (d : Definition) (elements : List Json) : Prop :=
  ∀ x, Binary64.ofInt? elements.length = some x → d.Bounds x

namespace Validation

structure MeetsScalar (view : View) (d : Definition) (kind : ScalarKind) (j : Json) : Prop where
  ofKind : hasKind kind j = true
  value : kind.isNumeric = true → ∀ x, j.toBinary64? = some x → d.Bounds x
  length : kind = .string → ∀ s, j = .string s → ∀ x, Binary64.ofInt? s.length = some x → d.Bounds x
  format : ∀ s, j = .string s → ∀ format, d.format = some format → format.accepts s = true
  allowed : ∀ values, allowedValues? view d = some values → enumText j ∈ values

/-- The members of an object are those of a shape: each one has a field or an excused key, each
field's value is accepted, and each field without a value can do without one. -/
structure MeetsShape (case : KeyCase) (tags : List String) (accepted : Definition → Json → Prop)
    (shape : List Field) (members : Keyed Json) : Prop where
  known : ∀ key ∈ Keyed.keys members, key ∈ shape.map (Field.wireName case) ∨ key ∈ tags
  present : ∀ f ∈ shape, ∀ m, Keyed.get? members (f.wireName case) = some m →
    accepted f.definition m
  absent : ∀ f ∈ shape, Keyed.get? members (f.wireName case) = none →
    f.definition.optional = true ∨ f.definition.default?.isSome = true

theorem MeetsShape.mono {case : KeyCase} {tags : List String} {P Q : Definition → Json → Prop}
    {shape : List Field} {members : Keyed Json} (hp : MeetsShape case tags P shape members)
    (h : ∀ f ∈ shape, ∀ m, Keyed.get? members (f.wireName case) = some m →
      P f.definition m → Q f.definition m) : MeetsShape case tags Q shape members :=
  ⟨hp.known, fun f hf m hm => h f hf m hm (hp.present f hf m hm), hp.absent⟩

/-- An issue about a key that no field has, where the key is one of those that need none. -/
def Excused (tags : List String) (i : Issue) : Prop :=
  i.code = .fieldUnknown ∧ ∃ key ∈ tags, i.path = [.key key]

def Clean (tags : List String) (v : Verdict) : Prop := ∀ i ∈ v.issues, Excused tags i

variable {next afterNext : Judge}

def CleanBy (next : Judge) (tags : List String) (d : Definition) (j : Json) : Prop :=
  Clean tags (next [] d j)

theorem clean_nil_iff (v : Verdict) : Clean [] v ↔ v.issues = [] := by
  constructor
  · intro h
    rw [List.eq_nil_iff_forall_not_mem]
    intro i hi
    obtain ⟨-, key, hk, -⟩ := h i hi
    cases hk
  · intro h i hi
    rw [h] at hi
    cases hi

theorem clean_of_issues_nil {v : Verdict} (tags : List String) (h : v.issues = []) :
    Clean tags v := by
  intro i hi
  rw [h] at hi
  cases hi

theorem clean_reject_iff (tags : List String) (j : Json) (i : Issue) :
    Clean tags (reject j i) ↔ Excused tags i := by
  simp [Clean, reject]

theorem not_excused_of_isOwn {tags : List String} {i : Issue} (h : i.code.isOwn = true) :
    ¬ Excused tags i := by
  rintro ⟨hc, -⟩
  rw [hc] at h
  cases h

theorem not_excused_required (tags : List String) (path : Path) :
    ¬ Excused tags (Issue.required path) := by
  rintro ⟨hc, -⟩
  cases hc

/-- An issue of a part of a value is never excused: an unknown key stands one step further down. -/
theorem not_excused_under {tags : List String} {i : Issue} {m : Json} {s : PathSegment}
    (h : i.Stands m) : ¬ Excused tags (i.under [s]) := by
  rintro ⟨hc, key, -, hp⟩
  apply h.unknown_below hc
  have hl := congrArg List.length hp
  simp only [Issue.under_path, List.length_append, List.length_cons, List.length_nil] at hl
  exact List.length_eq_zero_iff.mp (by omega)

/-- Issues from inside a member are no excused ones, as those are about the object itself. -/
theorem clean_under_iff {tags : List String} {v : Verdict} {m : Json} {s : PathSegment}
    (h : ∀ i ∈ v.issues, i.Stands m) : Clean tags (v.under [s]) ↔ Clean [] v := by
  rw [clean_nil_iff]
  constructor
  · intro hc
    rw [List.eq_nil_iff_forall_not_mem]
    intro i hi
    exact not_excused_under (h i hi) (hc _ (List.mem_map_of_mem hi))
  · intro hn
    exact clean_of_issues_nil tags (by simp [hn])

/-! ### Scalars -/

/-- Without a number there is nothing to bound. -/
theorem boundIssues_eq_nil_iff (d : Definition) (n : Option Binary64)
    (small large : Binary64 → Issue) :
    boundIssues d n small large = [] ↔ ∀ x, n = some x → d.Bounds x := by
  have hb : below? d n = none ↔
      ∀ x, n = some x → ∀ least, d.min = some least → x.lt least = false := by
    unfold below?
    cases d.min <;> cases n <;> simp
  have ha : above? d n = none ↔
      ∀ x, n = some x → ∀ greatest, d.max = some greatest → greatest.lt x = false := by
    unfold above?
    cases d.max <;> cases n <;> simp
  simp only [boundIssues, List.append_eq_nil_iff, Option.toList_eq_nil_iff, Option.map_eq_none_iff,
    hb, ha]
  constructor
  · rintro ⟨low, high⟩ x hx
    exact ⟨low x hx, high x hx⟩
  · intro h
    exact ⟨fun x hx => (h x hx).low, fun x hx => (h x hx).high⟩

/-- Only a format that does not accept the text is an issue. -/
theorem formatIssues_eq_nil_iff (path : Path) (d : Definition) (s : String) :
    formatIssues path d s = [] ↔ ∀ format, d.format = some format → format.accepts s = true := by
  unfold formatIssues
  cases d.format with
  | none => simp
  | some format =>
    simp only [Option.some.injEq, forall_eq']
    by_cases ha : format.accepts s = true
    · simp [ha]
    · rw [if_neg ha]
      refine iff_of_false ?_ ha
      cases format <;> exact List.cons_ne_nil _ _

theorem enumIssues_eq_nil_iff (view : View) (path : Path) (d : Definition) (j : Json) :
    enumIssues view path d j = [] ↔
      ∀ values, allowedValues? view d = some values → enumText j ∈ values := by
  unfold enumIssues
  cases allowedValues? view d with
  | none => simp
  | some values => simp

/-- The checks of a scalar one by one: kind, format, bounds, listed values. -/
theorem scalar_issues_eq_nil_iff (view : View) (d : Definition) (kind : ScalarKind) (j : Json) :
    (scalar view [] d kind j).issues = [] ↔ MeetsScalar view d kind j := by
  unfold scalar
  by_cases hk : hasKind kind j = true
  · simp only [hk, Bool.not_true, Bool.false_eq_true, if_false, List.append_eq_nil_iff,
      enumIssues_eq_nil_iff]
    constructor
    · rintro ⟨⟨hn, ht⟩, he⟩
      refine ⟨hk, ?_, ?_, ?_, he⟩
      · intro hnum
        rw [if_pos hnum] at hn
        exact (boundIssues_eq_nil_iff ..).mp hn
      · rintro hs s rfl
        simp only [Json.string?, hs, if_true, List.append_eq_nil_iff] at ht
        exact (boundIssues_eq_nil_iff ..).mp ht.1
      · rintro s rfl
        simp only [Json.string?, List.append_eq_nil_iff] at ht
        exact (formatIssues_eq_nil_iff ..).mp ht.2
    · intro h
      refine ⟨⟨?_, ?_⟩, h.allowed⟩
      · split
        · rename_i hnum
          exact (boundIssues_eq_nil_iff ..).mpr (h.value hnum)
        · rfl
      · cases j with
        | string s =>
          simp only [Json.string?, List.append_eq_nil_iff]
          constructor
          · split
            · rename_i hs
              exact (boundIssues_eq_nil_iff ..).mpr (h.length hs s rfl)
            · rfl
          · exact (formatIssues_eq_nil_iff ..).mpr (h.format s rfl)
        | _ => rfl
  · simp only [hk]
    constructor
    · intro h
      cases h
    · intro h
      exact absurd h.ofKind hk

theorem clean_scalar_iff (tags : List String) (view : View) (d : Definition) (kind : ScalarKind)
    (j : Json) : Clean tags (scalar view [] d kind j) ↔ MeetsScalar view d kind j := by
  rw [← scalar_issues_eq_nil_iff]
  constructor
  · intro h
    rw [List.eq_nil_iff_forall_not_mem]
    intro i hi
    exact not_excused_of_isOwn (own_of_mem_scalar hi).code (h i hi)
  · exact clean_of_issues_nil tags

/-! ### Containers -/

/-- A field is clean if its member is, or if it may be missing where there is none. -/
theorem field_clean_iff {case : KeyCase} (hp : Placed next) (hl : Locates next)
    (tags : List String) (members : Keyed Json) (f : Field) :
    (∀ i ∈ (field case next [] members f).issues, Excused tags i) ↔
      (∀ m, Keyed.get? members (f.wireName case) = some m → CleanBy next [] f.definition m) ∧
        (Keyed.get? members (f.wireName case) = none →
          f.definition.optional = true ∨ f.definition.default?.isSome = true) := by
  unfold field
  cases hm : Keyed.get? members (f.wireName case) with
  | some m =>
    simp only [hm, List.nil_append, hp.at_path [.key (f.wireName case)], Option.some.injEq,
      forall_eq', reduceCtorEq, false_imp_iff, and_true]
    exact clean_under_iff (hl f.definition m)
  | none =>
    simp only [hm, reduceCtorEq, false_imp_iff, implies_true, forall_const, true_and]
    cases hd : f.definition.default? with
    | some j => simp
    | none =>
      cases ho : f.definition.optional with
      | true => simp
      | false => simp [not_excused_required]

/-- An object is clean if and only if its members are those of the shape. -/
theorem clean_object_iff {case : KeyCase} (hp : Placed next) (hl : Locates next)
    (tags : List String) (shape : List Field) (j : Json) :
    Clean tags (object case next [] shape j) ↔
      ∃ members, j = .object members ∧ MeetsShape case tags (CleanBy next []) shape members := by
  cases j with
  | object members =>
    have hu : (∀ i ∈ unknownIssues case [] shape members, Excused tags i) ↔
        ∀ key ∈ Keyed.keys members, key ∈ shape.map (Field.wireName case) ∨ key ∈ tags := by
      constructor
      · intro h key hk
        by_cases hs : key ∈ shape.map (Field.wireName case)
        · exact .inl hs
        · have hu : Issue.unknownField [.key key] ∈ unknownIssues case [] shape members :=
            List.mem_map_of_mem (List.mem_filter.mpr ⟨hk, by simpa using hs⟩)
          obtain ⟨-, tag, ht, he⟩ := h _ hu
          cases he
          exact .inr ht
      · intro h i hi
        obtain ⟨key, hk, rfl⟩ := List.mem_map.mp hi
        obtain ⟨hk, hs⟩ := List.mem_filter.mp hk
        refine ⟨rfl, key, (h key hk).resolve_left ?_, rfl⟩
        simpa using hs
    have hf : (∀ i ∈ (shape.map fun f => (f, field case next [] members f)).flatMap
          (fun p => p.2.issues), Excused tags i) ↔
        ∀ f ∈ shape, ∀ i ∈ (field case next [] members f).issues, Excused tags i := by
      simp only [List.flatMap_map, List.mem_flatMap]
      constructor
      · intro h f hf i hi
        exact h i ⟨f, hf, hi⟩
      · rintro h i ⟨f, hf, hi⟩
        exact h f hf i hi
    simp only [Clean, object, List.mem_append, or_imp, forall_and, hu, hf,
      field_clean_iff hp hl, Json.object.injEq, exists_eq_left']
    constructor
    · rintro ⟨⟨present, absent⟩, known⟩
      exact ⟨known, present, absent⟩
    · intro h
      exact ⟨⟨h.present, h.absent⟩, h.known⟩
  | _ => simp [object, clean_reject_iff, Excused, Issue.invalid]

/-- A list is clean if and only if its length is allowed and nothing is wrong with an element. -/
theorem clean_array_iff {element : Path → Json → Verdict}
    (hp : ∀ (p q : Path) (j : Json), element (p ++ q) j = (element q j).under p)
    (hl : ∀ j, ∀ i ∈ (element [] j).issues, i.Stands j) (tags : List String) (d : Definition)
    (j : Json) :
    Clean tags (array element [] d j) ↔
      ∃ elements, j = .array elements ∧ d.Counts elements ∧
        ∀ m ∈ elements, Clean [] (element [] m) := by
  cases j with
  | array elements =>
    have ha : ∀ (n : Nat) (m : Json), element [.index n] m = (element [] m).under [.index n] := by
      intro n m
      simpa using hp [.index n] [] m
    have hc : (∀ i ∈ countIssues [] d elements.length, Excused tags i) ↔ d.Counts elements := by
      have hb : countIssues [] d elements.length = [] ↔ d.Counts elements :=
        boundIssues_eq_nil_iff ..
      rw [← hb, List.eq_nil_iff_forall_not_mem]
      constructor
      · intro h i hi
        exact not_excused_of_isOwn (own_of_mem_boundIssues (fun x => ⟨rfl, rfl⟩)
          (fun x => ⟨rfl, rfl⟩) hi).code (h i hi)
      · intro h i hi
        exact absurd hi (h i)
    have he : (∀ i ∈ (elements.mapIdx fun n m => element ([] ++ [.index n]) m).flatMap
          Verdict.issues, Excused tags i) ↔ ∀ m ∈ elements, Clean [] (element [] m) := by
      simp only [List.nil_append, ha, List.mem_flatMap, List.mem_mapIdx]
      constructor
      · intro h m hm
        obtain ⟨n, hn, rfl⟩ := List.mem_iff_getElem.mp hm
        exact (clean_under_iff (hl elements[n])).mp fun i hi => h i ⟨_, ⟨n, hn, rfl⟩, hi⟩
      · rintro h i ⟨v, ⟨n, hn, rfl⟩, hi⟩
        rw [Verdict.under_issues, (clean_nil_iff _).mp (h _ (List.getElem_mem hn))] at hi
        cases hi
    simp only [Clean, array, List.mem_append, or_imp, forall_and, hc, he, Json.array.injEq,
      exists_eq_left']
  | _ => simp [array, clean_reject_iff, Excused, Issue.invalid]

/-! ### Unions -/

/-- Dropping what is said about one unknown key excuses that key. -/
theorem clean_filter_iff (tags : List String) (wire : String) (v : Verdict) (params : Json) :
    Clean tags ⟨params, v.issues.filter fun i =>
        !(i.code == .fieldUnknown && i.path == [.key wire])⟩ ↔ Clean (wire :: tags) v := by
  simp only [Clean, List.mem_filter]
  constructor
  · intro h i hi
    by_cases ht : i.code = .fieldUnknown ∧ i.path = [.key wire]
    · exact ⟨ht.1, wire, List.mem_cons_self, ht.2⟩
    · have hb : (i.code == .fieldUnknown && i.path == [.key wire]) = false := by
        rw [Bool.eq_false_iff]
        simpa using ht
      obtain ⟨hc, key, hk, hp⟩ := h i ⟨hi, by rw [hb]; rfl⟩
      exact ⟨hc, key, List.mem_cons_of_mem _ hk, hp⟩
  · rintro h i ⟨hi, ht⟩
    obtain ⟨hc, key, hk, hp⟩ := h i hi
    rcases List.mem_cons.mp hk with rfl | hk
    · simp [hc, hp] at ht
    · exact ⟨hc, key, hk, hp⟩

/-- An object is clean under a tagged union if and only if it is under the variant that it names,
where the key of the tag is excused. -/
theorem clean_taggedUnion_iff (tags : List String) (case : KeyCase) (key : String)
    (variants : List Variant) (j : Json) :
    Clean tags (taggedUnion case next [] key variants j) ↔
      ∃ members tag variant, j = .object members ∧
        Keyed.get? members (case.apply key) = some (.string tag) ∧
        Variant.tagged? variants tag = some variant ∧
        CleanBy next (case.apply key :: tags) variant.definition j := by
  cases j with
  | object members =>
    simp only [taggedUnion, List.nil_append]
    cases hm : Keyed.get? members (case.apply key) with
    | none => simp [clean_reject_iff, not_excused_required, hm]
    | some tag =>
      cases hv : tag.string? >>= Variant.tagged? variants with
      | none =>
        have ht : ∀ s, tag = .string s → Variant.tagged? variants s = none := by
          rintro s rfl
          exact hv
        simp only [hv, clean_reject_iff]
        constructor
        · rintro ⟨hc, -⟩
          cases hc
        · rintro ⟨members', s, variant, he, hs, hv', -⟩
          cases he
          rw [hm] at hs
          rw [ht s (Option.some.inj hs)] at hv'
          cases hv'
      | some variant =>
        obtain ⟨s, hs, hv'⟩ := Option.bind_eq_some_iff.mp hv
        have ht : tag = .string s := by cases tag <;> cases hs; rfl
        subst ht
        simp only [hv, clean_filter_iff]
        constructor
        · intro h
          exact ⟨members, s, variant, rfl, hm, hv', h⟩
        · rintro ⟨members', s', variant', he, hs', hv'', h⟩
          cases he
          rw [hm] at hs'
          cases hs'
          rw [hv'] at hv''
          cases hv''
          exact h
  | _ => simp [taggedUnion, clean_reject_iff, Excused, Issue.invalid]

/-- The trial of variants finds one if any is clean. -/
theorem firstClean?_isSome_iff (j : Json) (variants : List Variant) :
    (firstClean? next [] j variants).isSome = true ↔
      ∃ variant ∈ variants, CleanBy next [] variant.definition j := by
  induction variants with
  | nil => simp [firstClean?]
  | cons variant rest ih =>
    have hh : (next [] variant.definition j).issues.isEmpty = true ↔
        CleanBy next [] variant.definition j := by
      rw [List.isEmpty_iff, CleanBy, clean_nil_iff]
    simp only [firstClean?, hh]
    split
    · rename_i h
      simp [hh.mp h]
    · rename_i h
      have hn : ¬ CleanBy next [] variant.definition j := fun hv => h (hh.mpr hv)
      simp [hn, ih]

theorem clean_untaggedUnion_iff (tags : List String) (variants : List Variant) (j : Json) :
    Clean tags (untaggedUnion next [] variants j) ↔
      ∃ variant ∈ variants, CleanBy next [] variant.definition j := by
  rw [← firstClean?_isSome_iff]
  unfold untaggedUnion
  cases hv : firstClean? next [] j variants with
  | none => simp [clean_reject_iff, Excused]
  | some v => simpa using clean_of_issues_nil tags (issues_of_firstClean? hv)

/-! ### One step -/

/-- What one step asks of a value that is not taken or refused as `null` at once, given what is
asked of values one and two levels further down. -/
def StepMeets (c : Context) (below farBelow : List String → Definition → Json → Prop)
    (tags : List String) (d : Definition) (j : Json) : Prop :=
  match d.kind with
  | .reference target => ∃ definition, c.view.definition? target = some definition ∧
      below tags definition j
  | .object shape => ∃ members, j = .object members ∧
      MeetsShape c.case tags (below []) shape members
  | .array (.of element) => ∃ elements, j = .array elements ∧ d.Counts elements ∧
      ∀ m ∈ elements, below [] element m
  | .array (.shape fields) => ∃ elements, j = .array elements ∧ d.Counts elements ∧
      ∀ m ∈ elements, ∃ members, m = .object members ∧
        MeetsShape c.case [] (farBelow []) fields members
  | .union (some key) variants => ∃ members tag variant, j = .object members ∧
      Keyed.get? members (c.case.apply key) = some (.string tag) ∧
      Variant.tagged? variants tag = some variant ∧
      below (c.case.apply key :: tags) variant.definition j
  | .union none variants => ∃ variant ∈ variants, below [] variant.definition j
  | .literal value => j.sameValue value = true
  | .scalar kind => j ≠ .null ∧ MeetsScalar c.view d kind j

/-- A step asks less where less is asked of the values further down. -/
theorem StepMeets.mono {c : Context} {P Q R S : List String → Definition → Json → Prop}
    {tags : List String} {d : Definition} {j : Json} (h : StepMeets c P R tags d j)
    (hpq : ∀ tags d j, P tags d j → Q tags d j) (hrs : ∀ tags d j, R tags d j → S tags d j) :
    StepMeets c Q S tags d j := by
  unfold StepMeets at h ⊢
  cases hk : d.kind with
  | reference target =>
    rw [hk] at h
    obtain ⟨definition, hd, h⟩ := h
    exact ⟨definition, hd, hpq _ _ _ h⟩
  | object shape =>
    rw [hk] at h
    obtain ⟨members, hj, h⟩ := h
    exact ⟨members, hj, h.mono fun f _ m _ => hpq [] f.definition m⟩
  | array items =>
    rw [hk] at h
    cases items with
    | of element =>
      obtain ⟨elements, hj, hc, h⟩ := h
      exact ⟨elements, hj, hc, fun m hm => hpq _ _ _ (h m hm)⟩
    | shape fields =>
      obtain ⟨elements, hj, hc, h⟩ := h
      refine ⟨elements, hj, hc, ?_⟩
      intro m hm
      obtain ⟨members, hm', h⟩ := h m hm
      exact ⟨members, hm', h.mono fun f _ m _ => hrs [] f.definition m⟩
  | union discriminator variants =>
    rw [hk] at h
    cases discriminator with
    | some key =>
      obtain ⟨members, tag, variant, hj, ht, hv, h⟩ := h
      exact ⟨members, tag, variant, hj, ht, hv, hpq _ _ _ h⟩
    | none =>
      obtain ⟨variant, hv, h⟩ := h
      exact ⟨variant, hv, hpq _ _ _ h⟩
  | literal value =>
    rw [hk] at h
    exact h
  | scalar kind =>
    rw [hk] at h
    exact h

theorem clean_step_null {c : Context} (tags : List String) {d : Definition} {j : Json}
    (hn : (j.isNull && takesNull d) = true) : Clean tags (step c next afterNext [] d j) := by
  unfold step
  rw [if_pos hn]
  exact clean_of_issues_nil tags rfl

/-- A `null` that is refused at once meets nothing. -/
theorem not_stepMeets_null {c : Context} {below farBelow : List String → Definition → Json → Prop}
    {tags : List String} {d : Definition} {j : Json}
    (hn : (j.isNull && takesNull d) = false) (hr : (j.isNull && !defersNull d) = true) :
    ¬ StepMeets c below farBelow tags d j := by
  obtain ⟨hj, hd⟩ := Bool.and_eq_true_iff.mp hr
  obtain rfl : j = .null := by cases j <;> first | rfl | cases hj
  simp only [Json.isNull, Bool.true_and] at hn
  unfold StepMeets
  cases hk : d.kind with
  | reference target => simp [defersNull, hk] at hd
  | object shape => simp
  | array items => cases items <;> simp
  | union discriminator variants =>
    cases discriminator with
    | some key => simp
    | none => simp [defersNull, hk] at hd
  | literal value =>
    cases value with
    | null => simp [takesNull, hk] at hn
    | _ => simp [Json.sameValue]
  | scalar kind => simp

/-- A step is clean if and only if the value meets what the step asks of it. -/
theorem clean_step_iff {c : Context} (hp : Placed next) (ha : Placed afterNext)
    (hl : Locates next) (hm : Locates afterNext) (tags : List String) {d : Definition} {j : Json}
    (hn : (j.isNull && takesNull d) = false) :
    CleanBy (step c next afterNext) tags d j ↔
      StepMeets c (CleanBy next) (CleanBy afterNext) tags d j := by
  unfold CleanBy
  by_cases hr : (j.isNull && !defersNull d) = true
  · have hs : step c next afterNext [] d j =
        reject .null { Issue.invalid [] d.kind.name with detail := "must not be null" } := by
      unfold step
      rw [if_neg (by simp [hn]), if_pos hr]
    rw [hs, clean_reject_iff]
    simp only [Excused, Issue.invalid, reduceCtorEq, false_and, false_iff]
    exact not_stepMeets_null hn hr
  · unfold step StepMeets
    rw [if_neg (by simp [hn]), if_neg hr]
    cases hk : d.kind with
    | reference target =>
      simp only
      cases c.view.definition? target with
      | none => simp [clean_reject_iff, Excused, Issue.invalid]
      | some definition => simp
    | object shape => exact clean_object_iff hp hl tags shape j
    | array items =>
      cases items with
      | of element => exact clean_array_iff (fun p q => hp p q element) (hl element) tags d j
      | shape fields =>
        have he : ∀ m, Clean [] (object c.case afterNext [] fields m) ↔
            ∃ members, m = .object members ∧
              MeetsShape c.case [] (CleanBy afterNext []) fields members :=
          fun m => clean_object_iff ha hm [] fields m
        have hs : ∀ m, ∀ i ∈ (object c.case afterNext [] fields m).issues, i.Stands m :=
          fun m i hi => stands_of_mem_object ha hm hi
        refine Iff.trans (clean_array_iff (fun p q => object_under c.case ha p q fields) hs tags d j) ?_
        simp only [he]
        rfl
    | union discriminator variants =>
      cases discriminator with
      | some key => exact clean_taggedUnion_iff tags c.case key variants j
      | none => exact clean_untaggedUnion_iff tags variants j
    | literal value =>
      simp only [literal]
      split
      · rename_i hs
        simpa [hs] using clean_of_issues_nil tags rfl
      · rename_i hs
        simp [hs, clean_reject_iff, Excused]
    | scalar kind =>
      have hj : j ≠ .null := by
        rintro rfl
        simp [Json.isNull, defersNull, hk] at hr
      simp [hj, clean_scalar_iff]

/-! ### The walk -/

theorem cleanBy_judge_of_null {c : Context} (n : Nat) (tags : List String) {d : Definition}
    {j : Json} (hn : (j.isNull && takesNull d) = true) : CleanBy (judge c (n + 1)) tags d j := by
  rw [judge_succ]
  exact clean_step_null tags hn

/-- With a level left a value is clean if and only if it meets what the step asks, the values
further down with the levels then left. -/
theorem cleanBy_judge_iff_stepMeets (c : Context) (n : Nat) (tags : List String) {d : Definition}
    {j : Json} (hn : (j.isNull && takesNull d) = false) :
    CleanBy (judge c (n + 1)) tags d j ↔
      StepMeets c (CleanBy (judge c n)) (CleanBy (judge c (n - 1))) tags d j := by
  rw [judge_succ]
  exact clean_step_iff (placed_judge c n) (placed_judge c (n - 1)) (locates_judge c n)
    (locates_judge c (n - 1)) tags hn

theorem not_cleanBy_judge_zero (c : Context) (tags : List String) (d : Definition) (j : Json) :
    ¬ CleanBy (judge c 0) tags d j := by
  intro h
  obtain ⟨hc, -⟩ := h _ (List.mem_singleton.mpr rfl)
  cases hc

/-- What is clean with some levels left is clean with more. -/
theorem cleanBy_judge_mono (c : Context) {n m : Nat} (hle : n ≤ m) (tags : List String)
    (d : Definition) (j : Json) (h : CleanBy (judge c n) tags d j) :
    CleanBy (judge c m) tags d j := by
  induction n using Nat.strongRecOn generalizing m tags d j with
  | ind n ih =>
    cases n with
    | zero => exact absurd h (not_cleanBy_judge_zero c tags d j)
    | succ n =>
      obtain ⟨m, rfl⟩ : ∃ m', m = m' + 1 := ⟨m - 1, by omega⟩
      by_cases hn : (j.isNull && takesNull d) = true
      · exact cleanBy_judge_of_null m tags hn
      · have hn : (j.isNull && takesNull d) = false := by simpa using hn
        rw [cleanBy_judge_iff_stepMeets c _ tags hn] at h ⊢
        refine h.mono ?_ ?_
        · intro tags d j
          exact ih n (by omega) (by omega) tags d j
        · intro tags d j
          exact ih (n - 1) (by omega) (by omega) tags d j

/-! ### Levels of the walk -/

section Levels

variable {c : Context} {n : Nat} {tags : List String} {d : Definition} {j : Json}
  {members : Keyed Json} {elements : List Json} {shape fields : List Field}
  {variants : List Variant} {key tag : String}

theorem level_of_cleanBy (clean : CleanBy (judge c n) tags d j) : ∃ k, n = k + 1 := by
  cases n with
  | zero => exact (not_cleanBy_judge_zero c tags d j clean).elim
  | succ k => exact ⟨k, rfl⟩

theorem cleanBy_reference_iff {target : String} (hk : d.kind = .reference target)
    (present : (j.isNull && takesNull d) = false) :
    CleanBy (judge c (n + 1)) tags d j ↔
      ∃ definition, c.view.definition? target = some definition ∧
        CleanBy (judge c n) tags definition j := by
  rw [cleanBy_judge_iff_stepMeets c n tags present]
  simp only [StepMeets, hk]

theorem cleanBy_object_iff (hk : d.kind = .object shape) :
    CleanBy (judge c (n + 1)) tags d (.object members) ↔
      MeetsShape c.case tags (CleanBy (judge c n) []) shape members := by
  rw [cleanBy_judge_iff_stepMeets c n tags rfl]
  simp only [StepMeets, hk, Json.object.injEq, exists_eq_left']

theorem cleanBy_elements_iff {element : Definition} (hk : d.kind = .array (.of element)) :
    CleanBy (judge c (n + 1)) tags d (.array elements) ↔
      d.Counts elements ∧ ∀ m ∈ elements, CleanBy (judge c n) [] element m := by
  rw [cleanBy_judge_iff_stepMeets c n tags rfl]
  simp only [StepMeets, hk, Json.array.injEq, exists_eq_left']

/-- An array walks down to its elements and to their members in one step, even with one level
left. -/
theorem cleanBy_shapes_iff (hk : d.kind = .array (.shape fields)) :
    CleanBy (judge c (n + 1)) tags d (.array elements) ↔
      d.Counts elements ∧
        ∀ m ∈ elements, CleanBy (judge c (n - 1 + 1)) [] (.object fields) m := by
  rw [cleanBy_judge_iff_stepMeets c n tags rfl]
  simp only [StepMeets, hk, Json.array.injEq, exists_eq_left']
  refine and_congr_right fun _ => forall₂_congr fun m _ => ?_
  rw [cleanBy_judge_iff_stepMeets c (n - 1) [] (Bool.and_false _)]
  rfl

theorem exists_object_of_cleanBy
    (clean : CleanBy (judge c (n + 1)) tags (.object fields) j) :
    ∃ members, j = .object members := by
  rw [cleanBy_judge_iff_stepMeets c n tags (Bool.and_false _)] at clean
  obtain ⟨members, same, -⟩ := clean
  exact ⟨members, same⟩

theorem exists_object_of_tagged (hk : d.kind = .union (some key) variants)
    (present : (j.isNull && takesNull d) = false)
    (clean : CleanBy (judge c (n + 1)) tags d j) : ∃ members, j = .object members := by
  rw [cleanBy_judge_iff_stepMeets c n tags present] at clean
  simp only [StepMeets, hk] at clean
  obtain ⟨members, -, -, same, -⟩ := clean
  exact ⟨members, same⟩

theorem cleanBy_taggedUnion_iff (hk : d.kind = .union (some key) variants) :
    CleanBy (judge c (n + 1)) tags d (.object members) ↔
      ∃ tag variant, Keyed.get? members (c.case.apply key) = some (.string tag) ∧
        Variant.tagged? variants tag = some variant ∧
        CleanBy (judge c n) (c.case.apply key :: tags) variant.definition (.object members) := by
  rw [cleanBy_judge_iff_stepMeets c n tags rfl]
  simp only [StepMeets, hk, Json.object.injEq, exists_and_left, exists_eq_left']

/-- A tag that chooses a variant leaves the object to the variant. -/
theorem cleanBy_tagged_iff {variant : Variant} (hk : d.kind = .union (some key) variants)
    (ht : Keyed.get? members (c.case.apply key) = some (.string tag))
    (hv : Variant.tagged? variants tag = some variant) :
    CleanBy (judge c (n + 1)) tags d (.object members) ↔
      CleanBy (judge c n) (c.case.apply key :: tags) variant.definition (.object members) := by
  rw [cleanBy_taggedUnion_iff hk]
  constructor
  · rintro ⟨_, _, ht', hv', clean⟩
    cases ht.symm.trans ht'
    cases hv.symm.trans hv'
    exact clean
  · exact fun clean => ⟨tag, variant, ht, hv, clean⟩

theorem cleanBy_untaggedUnion_iff (hk : d.kind = .union none variants)
    (present : (j.isNull && takesNull d) = false) :
    CleanBy (judge c (n + 1)) tags d j ↔
      ∃ variant ∈ variants, CleanBy (judge c n) [] variant.definition j := by
  rw [cleanBy_judge_iff_stepMeets c n tags present]
  simp only [StepMeets, hk]

theorem cleanBy_scalar_iff {kind : ScalarKind} (hk : d.kind = .scalar kind)
    (present : (j.isNull && takesNull d) = false) :
    CleanBy (judge c (n + 1)) tags d j ↔ j ≠ .null ∧ MeetsScalar c.view d kind j := by
  rw [cleanBy_judge_iff_stepMeets c n tags present]
  simp only [StepMeets, hk]

/-- A scalar is accepted for what it is, wherever it stands. -/
theorem accepts_iff_meetsScalar {kind : ScalarKind} (hk : d.kind = .scalar kind)
    (present : (j.isNull && takesNull d) = false) :
    c.accepts d j = true ↔ j ≠ .null ∧ MeetsScalar c.view d kind j := by
  have clean : CleanBy (judge c (nestingLimit + 1)) [] d j ↔ c.accepts d j = true :=
    (clean_nil_iff _).trans List.isEmpty_iff.symm
  rw [← clean, cleanBy_scalar_iff hk present]

end Levels

end Validation

end ApiContract
