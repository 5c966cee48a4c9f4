import ApiContract.Payload.Validation

/-!
# Where a value stands does not matter to its verdict

Judging a value at a path gives the verdict of judging it at the root, with the path in front of
every issue. Statements about verdicts need therefore be proved at the root only.
-/

namespace ApiContract

def Issue.under (path : Path) (i : Issue) : Issue := { i with path := path ++ i.path }

@[simp] theorem Issue.under_path (path : Path) (i : Issue) :
    (i.under path).path = path ++ i.path := rfl

@[simp] theorem Issue.under_code (path : Path) (i : Issue) : (i.under path).code = i.code := rfl

namespace Verdict

def under (path : Path) (v : Verdict) : Verdict := ⟨v.params, v.issues.map (Issue.under path)⟩

@[simp] theorem under_params (path : Path) (v : Verdict) : (v.under path).params = v.params := rfl

@[simp] theorem under_issues (path : Path) (v : Verdict) :
    (v.under path).issues = v.issues.map (Issue.under path) := rfl

@[simp] theorem under_isEmpty (path : Path) (v : Verdict) :
    (v.under path).issues.isEmpty = v.issues.isEmpty := by
  simp [under, List.isEmpty_map]

end Verdict

namespace Validation

/-- A judge for which only the paths of issues depend on where a value stands. -/
def Placed (next : Judge) : Prop :=
  ∀ (p q : Path) (d : Definition) (j : Json), next (p ++ q) d j = (next q d j).under p

variable {next afterNext : Judge}

theorem Placed.at_path (h : Placed next) (path : Path) (d : Definition) (j : Json) :
    next path d j = (next [] d j).under path := by
  have hp := h path [] d j
  rwa [List.append_nil] at hp

theorem placed_tooDeep : Placed tooDeep := by
  intro p q d j
  rfl

theorem boundIssues_under (p : Path) (d : Definition) (n : Option Binary64)
    (small large small' large' : Binary64 → Issue)
    (hs : ∀ x, small' x = (small x).under p) (hl : ∀ x, large' x = (large x).under p) :
    boundIssues d n small' large' = (boundIssues d n small large).map (Issue.under p) := by
  unfold boundIssues
  cases below? d n <;> cases above? d n <;> simp [hs, hl]

theorem formatIssues_under (p q : Path) (d : Definition) (s : String) :
    formatIssues (p ++ q) d s = (formatIssues q d s).map (Issue.under p) := by
  unfold formatIssues
  cases d.format with
  | none => rfl
  | some format =>
    cases format <;> simp only <;> split <;> rfl

theorem enumIssues_under (view : View) (p q : Path) (d : Definition) (j : Json) :
    enumIssues view (p ++ q) d j = (enumIssues view q d j).map (Issue.under p) := by
  unfold enumIssues
  cases allowedValues? view d with
  | none => rfl
  | some values => simp only; split <;> rfl

/-- A scalar is judged alike wherever it stands. -/
theorem scalar_under (view : View) (p q : Path) (d : Definition) (kind : ScalarKind) (j : Json) :
    scalar view (p ++ q) d kind j = (scalar view q d kind j).under p := by
  have hn : numberIssues (p ++ q) d j = (numberIssues q d j).map (Issue.under p) :=
    boundIssues_under _ _ _ _ _ _ _ (fun _ => rfl) (fun _ => rfl)
  have hl : ∀ s, lengthIssues (p ++ q) d s = (lengthIssues q d s).map (Issue.under p) :=
    fun s => boundIssues_under _ _ _ _ _ _ _ (fun _ => rfl) (fun _ => rfl)
  unfold scalar
  by_cases hk : hasKind kind j = true
  · simp only [hk, Bool.not_true, Bool.false_eq_true, if_false, hn, hl, formatIssues_under,
      enumIssues_under, Verdict.under, List.map_append]
    congr 1
    congr 2
    · split <;> rfl
    · cases j.string? with
      | none => rfl
      | some s => simp only [List.map_append]; split <;> rfl
  · simp only [hk]
    rfl

/-- The path of a field's member goes behind that of the object. -/
theorem field_under (case : KeyCase) (hn : Placed next) (p q : Path) (members : Keyed Json)
    (f : Field) :
    field case next (p ++ q) members f =
      ⟨(field case next q members f).param,
        (field case next q members f).issues.map (Issue.under p)⟩ := by
  simp only [field, List.append_assoc]
  cases Keyed.get? members (f.wireName case) with
  | some m => simp only [hn p]; rfl
  | none =>
    cases f.definition.default? with
    | some j => rfl
    | none => simp only; split <;> rfl

theorem params_congr (shape : List Field) (v w : Field → FieldVerdict)
    (h : ∀ f, (v f).param = (w f).param) :
    params (shape.map fun f => (f, v f)) = params (shape.map fun f => (f, w f)) := by
  simp only [params, List.foldl_map, h]

theorem unknownIssues_under (case : KeyCase) (p q : Path) (shape : List Field)
    (members : Keyed Json) :
    unknownIssues case (p ++ q) shape members =
      (unknownIssues case q shape members).map (Issue.under p) := by
  simp only [unknownIssues, List.map_map]
  apply List.map_congr_left
  intro key _
  simp [Issue.unknownField, Issue.under, List.append_assoc]

/-- An object is judged alike wherever it stands. -/
theorem object_under (case : KeyCase) (hn : Placed next) (p q : Path) (shape : List Field)
    (j : Json) :
    object case next (p ++ q) shape j = (object case next q shape j).under p := by
  cases j with
  | object members =>
    simp only [object, Verdict.under, Verdict.mk.injEq]
    constructor
    · rw [params_congr shape _ (field case next q members)]
      intro f
      rw [field_under case hn]
    · rw [List.map_append, unknownIssues_under, List.map_flatMap, List.flatMap_map,
        List.flatMap_map]
      simp only [field_under case hn p q]
  | _ => rfl

/-- A list is judged alike wherever it stands. -/
theorem array_under {element : Path → Json → Verdict}
    (he : ∀ (p q : Path) (j : Json), element (p ++ q) j = (element q j).under p)
    (p q : Path) (d : Definition) (j : Json) :
    array element (p ++ q) d j = (array element q d j).under p := by
  cases j with
  | array elements =>
    have hc : countIssues (p ++ q) d elements.length =
        (countIssues q d elements.length).map (Issue.under p) :=
      boundIssues_under _ _ _ _ _ _ _ (fun _ => rfl) (fun _ => rfl)
    simp only [array, hc, List.append_assoc, he p, List.mapIdx_eq_zipIdx_map, List.map_map,
      List.flatMap_map, Verdict.under_issues]
    simp only [Verdict.under, List.map_append, List.map_flatMap]
    rfl
  | _ => rfl

/-- The issue about a tag goes by its key behind the path. -/
theorem taggedUnion_under (case : KeyCase) (hn : Placed next) (p q : Path) (key : String)
    (variants : List Variant) (j : Json) :
    taggedUnion case next (p ++ q) key variants j =
      (taggedUnion case next q key variants j).under p := by
  cases j with
  | object members =>
    simp only [taggedUnion, List.append_assoc]
    cases Keyed.get? members (case.apply key) with
    | none => rfl
    | some tag =>
      cases ht : tag.string? >>= Variant.tagged? variants with
      | none => simp only [ht]; rfl
      | some variant =>
        simp only [ht, hn p, Verdict.under_params, Verdict.under_issues]
        simp only [Verdict.under, List.filter_map, Verdict.mk.injEq, true_and]
        congr 1
        apply List.filter_congr
        intro i _
        simp only [Function.comp_apply, Issue.under_code, Issue.under_path]
        rw [Bool.eq_iff_iff]
        simp
  | _ => rfl

theorem firstClean?_under (hn : Placed next) (p q : Path) (j : Json) (variants : List Variant) :
    firstClean? next (p ++ q) j variants =
      (firstClean? next q j variants).map (Verdict.under p) := by
  induction variants with
  | nil => rfl
  | cons variant rest ih =>
    simp only [firstClean?, hn p, Verdict.under_isEmpty, ih]
    split <;> rfl

theorem untaggedUnion_under (hn : Placed next) (p q : Path) (variants : List Variant) (j : Json) :
    untaggedUnion next (p ++ q) variants j = (untaggedUnion next q variants j).under p := by
  simp only [untaggedUnion, firstClean?_under hn]
  cases firstClean? next q j variants <;> rfl

/-- By one case for each kind of definition. -/
theorem placed_step (c : Context) (hn : Placed next) (ha : Placed afterNext) :
    Placed (step c next afterNext) := by
  intro p q d j
  unfold step
  split
  · rfl
  split
  · rfl
  cases d.kind with
  | reference target =>
    simp only
    cases c.view.definition? target with
    | none => rfl
    | some definition => exact hn p q definition j
  | object shape => exact object_under c.case hn p q shape j
  | array items =>
    cases items with
    | of element => exact array_under (fun p q => hn p q element) p q d j
    | shape fields => exact array_under (fun p q => object_under c.case ha p q fields) p q d j
  | union discriminator variants =>
    cases discriminator with
    | some key => exact taggedUnion_under c.case hn p q key variants j
    | none => exact untaggedUnion_under hn p q variants j
  | literal value => simp only [literal]; split <;> rfl
  | scalar kind => exact scalar_under c.view p q d kind j

/-- The verdict of a value at a path is its verdict at the root, moved under the path. -/
theorem placed_judge (c : Context) (n : Nat) : Placed (judge c n) :=
  judge_induction c placed_tooDeep (fun _ _ => placed_step c) n

end Validation

end ApiContract
