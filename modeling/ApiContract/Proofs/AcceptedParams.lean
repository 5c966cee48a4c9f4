import ApiContract.Proofs.KeyOrder
import ApiContract.Proofs.SettledPayload
import Mathlib.Data.List.Nodup

/-!
# The params of accepted values

A step of a walk that finds nothing wrong tells which params it makes, and of which params of the
values further down it makes them. Strings come out as they are, and `null` comes out of `null`
only.
-/

namespace ApiContract

def Context.paramsWithin (c : Context) (n : Nat) (d : Definition) (j : Json) : Json :=
  (Validation.judge c n [] d j).params

/-- A definition is an object of a shape, or comes to one by some references. -/
inductive Definition.LeadsTo (view : View) (shape : List Field) : Nat → Definition → Prop where
  | object {d} (hk : d.kind = .object shape) : LeadsTo view shape 0 d
  | reference {i d target definition} (hk : d.kind = .reference target)
      (hd : view.definition? target = some definition) (h : LeadsTo view shape i definition) :
      LeadsTo view shape (i + 1) d

namespace Validation

def fieldParam (case : KeyCase) (value : Definition → Json → Json) (members : Keyed Json)
    (f : Field) : Option Json :=
  ((members.get? (f.wireName case)).map (value f.definition)).or f.definition.default?

def named (case : KeyCase) (value : Definition → Json → Json) (shape : List Field)
    (members : Keyed Json) : Keyed Json :=
  Keyed.ofList (shape.filterMap fun f =>
    (fieldParam case value members f).map fun j => (f.name, j))

def objectParams (case : KeyCase) (value : Definition → Json → Json) (shape : List Field) :
    Json → Json
  | .object members => .object (named case value shape members)
  | j => j

def withTag (key : String) (tag : Json) (ps : Keyed Json) : Keyed Json :=
  if Keyed.contains ps key then ps else Keyed.insert key tag ps

def holdTag (key : String) (tag : Json) : Json → Json
  | .object ps => .object (withTag key tag ps)
  | j => j

/-- What a step that finds nothing wrong makes of a value, with some levels left below it. -/
inductive StepYields (c : Context) (tags : List String) (n : Nat) (d : Definition) :
    Json → Json → Prop where
  | null (hn : takesNull d = true) : StepYields c tags n d .null .null
  | reference {w target definition} (hk : d.kind = .reference target)
      (hd : c.view.definition? target = some definition)
      (h : CleanBy (judge c n) tags definition w) :
      StepYields c tags n d w (c.paramsWithin n definition w)
  | object {shape members} (hk : d.kind = .object shape)
      (h : MeetsShape c.case tags (CleanBy (judge c n) []) shape members) :
      StepYields c tags n d (.object members)
        (.object (named c.case (c.paramsWithin n) shape members))
  | array {element elements} (hk : d.kind = .array (.of element)) (hc : d.Counts elements)
      (h : ∀ m ∈ elements, CleanBy (judge c n) [] element m) :
      StepYields c tags n d (.array elements) (.array (elements.map (c.paramsWithin n element)))
  | shapes {fields elements} (hk : d.kind = .array (.shape fields)) (hc : d.Counts elements)
      (h : ∀ m ∈ elements, ∃ members, m = .object members ∧
        MeetsShape c.case [] (CleanBy (judge c (n - 1)) []) fields members) :
      StepYields c tags n d (.array elements)
        (.array (elements.map (objectParams c.case (c.paramsWithin (n - 1)) fields)))
  | tagged {key variants members tag variant} (hk : d.kind = .union (some key) variants)
      (ht : Keyed.get? members (c.case.apply key) = some (.string tag))
      (hv : Variant.tagged? variants tag = some variant)
      (h : CleanBy (judge c n) (c.case.apply key :: tags) variant.definition (.object members)) :
      StepYields c tags n d (.object members)
        (holdTag key (.string tag) (c.paramsWithin n variant.definition (.object members)))
  | untagged {w front variant back} (hk : d.kind = .union none (front ++ variant :: back))
      (hf : ∀ u ∈ front, c.acceptsWithin n u.definition w = false)
      (hv : c.acceptsWithin n variant.definition w = true) :
      StepYields c tags n d w (c.paramsWithin n variant.definition w)
  | literal {w value} (hk : d.kind = .literal value) (hs : w.sameValue value = true) :
      StepYields c tags n d w w
  | scalar {w kind} (hk : d.kind = .scalar kind) (hn : w ≠ .null)
      (h : MeetsScalar c.view d kind w) : StepYields c tags n d w w

/-! ### Params by name -/

section Named

variable {case : KeyCase} {value : Definition → Json → Json} {shape : List Field}
  {members : Keyed Json}

theorem sorted_named : Keyed.Sorted (named case value shape members) := Keyed.sorted_ofList _

/-- The param of a field stands under its name if no other field has the name. -/
theorem get?_named (distinct : (shape.map Field.name).Nodup) {f : Field} (hf : f ∈ shape) :
    Keyed.get? (named case value shape members) f.name = fieldParam case value members f := by
  have only : ∀ g ∈ shape, g.name = f.name → g = f :=
    fun g hg => List.inj_on_of_nodup_map distinct hg hf
  cases hp : fieldParam case value members f with
  | some j =>
    apply Keyed.get?_ofList_of_mem
    · exact List.mem_filterMap.mpr ⟨f, hf, by rw [hp]; rfl⟩
    · intro j' hj'
      obtain ⟨g, hg, he⟩ := List.mem_filterMap.mp hj'
      obtain ⟨k, hk, he⟩ := Option.map_eq_some_iff.mp he
      obtain rfl := only g hg (congrArg Prod.fst he)
      rw [hp] at hk
      cases hk
      exact (congrArg Prod.snd he).symm
  | none =>
    apply Keyed.get?_ofList_of_not_mem
    intro hm
    obtain ⟨p, hpm, he⟩ := List.mem_map.mp hm
    obtain ⟨g, hg, hgp⟩ := List.mem_filterMap.mp hpm
    obtain ⟨k, hk, rfl⟩ := Option.map_eq_some_iff.mp hgp
    obtain rfl := only g hg he
    rw [hp] at hk
    cases hk

theorem get?_named_of_given (distinct : (shape.map Field.name).Nodup) {f : Field} (hf : f ∈ shape)
    {w : Json} (hw : Keyed.get? members (f.wireName case) = some w) :
    Keyed.get? (named case value shape members) f.name = some (value f.definition w) := by
  rw [get?_named distinct hf, fieldParam, hw]
  rfl

theorem get?_named_of_not_mem {key : String} (h : key ∉ shape.map Field.name) :
    Keyed.get? (named case value shape members) key = none := by
  apply Keyed.get?_ofList_of_not_mem
  intro hm
  obtain ⟨p, hpm, rfl⟩ := List.mem_map.mp hm
  obtain ⟨g, hg, hgp⟩ := List.mem_filterMap.mp hpm
  obtain ⟨k, -, rfl⟩ := Option.map_eq_some_iff.mp hgp
  exact h (List.mem_map_of_mem hg)

theorem sorted_withTag {key : String} {tag : Json} {ps : Keyed Json} (h : Keyed.Sorted ps) :
    Keyed.Sorted (withTag key tag ps) := by
  unfold withTag
  split
  · exact h
  · exact h.insert key tag

/-- A key that is there already keeps its value. -/
theorem get?_withTag (key : String) (tag : Json) (ps : Keyed Json) (k : String) :
    Keyed.get? (withTag key tag ps) k =
      if k = key then some ((Keyed.get? ps key).getD tag) else Keyed.get? ps k := by
  unfold withTag Keyed.contains
  cases h : Keyed.get? ps key with
  | some x =>
    by_cases hk : k = key
    · simp [hk, h]
    · simp [hk]
  | none => simp [Keyed.get?_insert]

/-- What is there already stays. -/
theorem get?_withTag_of_some {key k : String} {tag x : Json} {ps : Keyed Json}
    (h : Keyed.get? ps k = some x) : Keyed.get? (withTag key tag ps) k = some x := by
  rw [get?_withTag]
  split
  · rename_i hk
    rw [← hk, h]
    rfl
  · exact h

theorem fieldParam_of_noDefault {f : Field} (h : f.definition.default? = none) :
    fieldParam case value members f =
      (Keyed.get? members (f.wireName case)).map (value f.definition) := by
  rw [fieldParam, h, Option.or_none]

end Named

/-! ### The params of one step -/

/-- The params of an object are those of its fields, each judged on its own. -/
theorem params_object {case : KeyCase} {next : Judge} (hp : Placed next) (path : Path)
    (shape : List Field) (members : Keyed Json) :
    (object case next path shape (.object members)).params =
      .object (named case (fun d j => (next [] d j).params) shape members) := by
  have hf : ∀ f, (field case next path members f).param =
      fieldParam case (fun d j => (next [] d j).params) members f := by
    intro f
    simp only [field, fieldParam]
    cases hm : Keyed.get? members (f.wireName case) with
    | some m => simp [hp.at_path (path ++ [.key (f.wireName case)])]
    | none =>
      simp only [Option.map_none, Option.none_or]
      cases f.definition.default? <;> rfl
  simp only [object, named, Keyed.ofList, params, List.foldl_map, List.foldl_filterMap,
    Json.object.injEq]
  congr 1
  funext ps f
  rw [hf f]
  cases fieldParam case (fun d j => (next [] d j).params) members f <;> rfl

/-- The params of a list are those of its elements. -/
theorem params_array {element : Path → Json → Verdict}
    (hp : ∀ (p : Path) (j : Json), (element p j).params = (element [] j).params) (path : Path)
    (d : Definition) (elements : List Json) :
    (array element path d (.array elements)).params =
      .array (elements.map fun m => (element [] m).params) := by
  simp only [array, List.mapIdx_eq_zipIdx_map, List.map_map, Json.array.injEq]
  have hc : (Verdict.params ∘ fun x : Json × Nat => element (path ++ [.index x.2]) x.1) =
      (fun m => (element [] m).params) ∘ Prod.fst := by
    funext x
    exact hp _ _
  rw [hc, ← List.map_map, List.zipIdx_map_fst]

theorem params_taggedUnion {case : KeyCase} {next : Judge} {path : Path} {key tag : String}
    {variants : List Variant} {members : Keyed Json} {variant : Variant}
    (ht : Keyed.get? members (case.apply key) = some (.string tag))
    (hv : Variant.tagged? variants tag = some variant) :
    (taggedUnion case next path key variants (.object members)).params =
      holdTag key (.string tag) (next path variant.definition (.object members)).params := by
  have hs : (Json.string tag).string? >>= Variant.tagged? variants = some variant := hv
  simp only [taggedUnion, ht, hs]
  rfl

/-- Of a union without a discriminator the first variant without issues gives the params. -/
theorem params_untaggedUnion {next : Judge} {path : Path} {j : Json} {front back : List Variant}
    {variant : Variant} (hf : ∀ u ∈ front, (next path u.definition j).issues.isEmpty = false)
    (hv : (next path variant.definition j).issues.isEmpty = true) :
    (untaggedUnion next path (front ++ variant :: back) j).params =
      (next path variant.definition j).params := by
  have hc : firstClean? next path j (front ++ variant :: back) =
      some (next path variant.definition j) := by
    induction front with
    | nil => simp [firstClean?, hv]
    | cons u rest ih =>
      have hu := hf u List.mem_cons_self
      simp only [List.cons_append, firstClean?, hu, Bool.false_eq_true, if_false]
      exact ih fun v hv => hf v (List.mem_cons_of_mem u hv)
  simp only [untaggedUnion, hc]

/-- A step that finds nothing wrong, and the params it makes. -/
theorem stepYields_of_clean {c : Context} {n : Nat} {tags : List String} {d : Definition}
    {w : Json} (clean : CleanBy (judge c (n + 1)) tags d w) :
    StepYields c tags n d w (c.paramsWithin (n + 1) d w) := by
  have hs : c.paramsWithin (n + 1) d w =
      (step c (judge c n) (judge c (n - 1)) [] d w).params := by
    rw [Context.paramsWithin, judge_succ]
  rw [hs]
  by_cases hn : (w.isNull && takesNull d) = true
  · obtain ⟨hw, ht⟩ := Bool.and_eq_true_iff.mp hn
    obtain rfl : w = .null := by cases w <;> first | rfl | cases hw
    rw [step, if_pos hn]
    exact .null ht
  have hn : (w.isNull && takesNull d) = false := by simpa using hn
  rw [cleanBy_judge_iff_stepMeets c n tags hn] at clean
  have hr : (w.isNull && !defersNull d) = false := by
    rw [Bool.eq_false_iff]
    intro hr
    exact not_stepMeets_null hn hr clean
  simp only [step, hn, hr, Bool.false_eq_true, if_false]
  unfold StepMeets at clean
  cases hk : d.kind with
  | reference target =>
    rw [hk] at clean
    obtain ⟨definition, hd, h⟩ := clean
    simp only [hd]
    exact .reference hk hd h
  | object shape =>
    rw [hk] at clean
    obtain ⟨members, rfl, h⟩ := clean
    simp only [params_object (placed_judge c n)]
    exact .object hk h
  | array items =>
    rw [hk] at clean
    cases items with
    | of element =>
      obtain ⟨elements, rfl, hc, h⟩ := clean
      have hp : ∀ (p : Path) (j : Json), (judge c n p element j).params =
          (judge c n [] element j).params := by
        intro p j
        rw [(placed_judge c n).at_path p]
        rfl
      simp only [params_array hp]
      exact .array hk hc h
    | shape fields =>
      obtain ⟨elements, rfl, hc, h⟩ := clean
      have hp : ∀ (p : Path) (j : Json), (object c.case (judge c (n - 1)) p fields j).params =
          (object c.case (judge c (n - 1)) [] fields j).params := by
        intro p j
        have ho := object_under c.case (placed_judge c (n - 1)) p [] fields j
        rw [List.append_nil] at ho
        rw [ho]
        rfl
      have he : elements.map (fun m => (object c.case (judge c (n - 1)) [] fields m).params) =
          elements.map (objectParams c.case (c.paramsWithin (n - 1)) fields) := by
        apply List.map_congr_left
        intro m hm
        obtain ⟨members, rfl, -⟩ := h m hm
        exact params_object (placed_judge c (n - 1)) [] fields members
      simp only [params_array hp, he]
      exact .shapes hk hc h
  | union discriminator variants =>
    rw [hk] at clean
    cases discriminator with
    | some key =>
      obtain ⟨members, tag, variant, rfl, ht, hv, h⟩ := clean
      simp only [params_taggedUnion ht hv]
      exact .tagged hk ht hv h
    | none =>
      simp only [← acceptsWithin_iff] at clean
      obtain ⟨front, variant, back, rfl, hf, hv⟩ := Coercion.exists_first_accepting clean
      simp only [params_untaggedUnion hf hv]
      exact .untagged hk hf hv
  | literal value =>
    rw [hk] at clean
    simp only [literal, clean, if_true]
    exact .literal hk clean
  | scalar kind =>
    rw [hk] at clean
    have hp : (scalar c.view [] d kind w).params = w := by
      simp [scalar, clean.2.ofKind]
    simp only [hp]
    exact .scalar hk clean.1 clean.2

/-! ### Strings and `null` -/

/-- A string that is accepted is its own param. -/
theorem paramsWithin_string {c : Context} {n : Nat} {tags : List String} {d : Definition}
    {s : String} (clean : CleanBy (judge c n) tags d (.string s)) :
    c.paramsWithin n d (.string s) = .string s := by
  induction n generalizing tags d with
  | zero => exact absurd clean (not_cleanBy_judge_zero c tags d _)
  | succ n ih =>
    have hs := stepYields_of_clean clean
    generalize c.paramsWithin (n + 1) d (.string s) = p at hs ⊢
    cases hs with
    | reference hk hd h => exact ih h
    | untagged hk hf hv => exact ih ((acceptsWithin_iff c n _ _).mp hv)
    | literal => rfl
    | scalar => rfl

/-- The field that has the tag of its object has it for its param. -/
theorem paramsWithin_tag {c : Context} {k : Nat} {tags : List String} {shape : List Field}
    {members : Keyed Json} {wire tag : String}
    (meets : MeetsShape c.case tags (CleanBy (judge c k) []) shape members)
    (ht : Keyed.get? members wire = some (.string tag)) :
    ∀ f ∈ shape, f.wireName c.case = wire →
      c.paramsWithin k f.definition (.string tag) = .string tag := by
  intro f hf hw
  exact paramsWithin_string (meets.present f hf (.string tag) (by rw [hw, ht]))

theorem holdTag_isNull (key : String) (tag p : Json) : (holdTag key tag p).isNull = p.isNull := by
  cases p <;> rfl

/-- The params of an accepted value are `null` if and only if the value is. -/
theorem paramsWithin_isNull {c : Context} {n : Nat} {tags : List String} {d : Definition}
    {w : Json} (clean : CleanBy (judge c n) tags d w) :
    (c.paramsWithin n d w).isNull = w.isNull := by
  induction n generalizing tags d w with
  | zero => exact absurd clean (not_cleanBy_judge_zero c tags d _)
  | succ n ih =>
    have hs := stepYields_of_clean clean
    generalize c.paramsWithin (n + 1) d w = p at hs ⊢
    cases hs with
    | reference hk hd h => exact ih h
    | tagged hk ht hv h => rw [holdTag_isNull, ih h]
    | untagged hk hf hv => exact ih ((acceptsWithin_iff c n _ _).mp hv)
    | _ => rfl

/-! ### By references to a shape -/

/-- An object accepted where a definition leads to a shape is one of that shape, and its params are
the shape's. -/
theorem paramsWithin_of_leadsTo {c : Context} {shape : List Field} {i : Nat} {d : Definition}
    (h : Definition.LeadsTo c.view shape i d) {n : Nat} {tags : List String} {members : Keyed Json}
    (clean : CleanBy (judge c n) tags d (.object members)) :
    ∃ k, n = k + (i + 1) ∧
      MeetsShape c.case tags (CleanBy (judge c k) []) shape members ∧
      c.paramsWithin n d (.object members) =
        .object (named c.case (c.paramsWithin k) shape members) := by
  induction h generalizing n with
  | object hk =>
    cases n with
    | zero => exact absurd clean (not_cleanBy_judge_zero c tags _ _)
    | succ n =>
      have hs := stepYields_of_clean clean
      generalize c.paramsWithin (n + 1) _ (.object members) = p at hs ⊢
      cases hs with
      | object hk' h =>
        rw [hk] at hk'
        cases hk'
        exact ⟨n, rfl, h, rfl⟩
      | reference hk' => rw [hk] at hk'; cases hk'
      | tagged hk' => rw [hk] at hk'; cases hk'
      | untagged hk' => rw [hk] at hk'; cases hk'
      | literal hk' => rw [hk] at hk'; cases hk'
      | scalar hk' => rw [hk] at hk'; cases hk'
  | reference hk hd _ ih =>
    cases n with
    | zero => exact absurd clean (not_cleanBy_judge_zero c tags _ _)
    | succ n =>
      have hs := stepYields_of_clean clean
      generalize hp : c.paramsWithin (n + 1) _ (.object members) = p at hs ⊢
      cases hs with
      | reference hk' hd' h =>
        rw [hk] at hk'
        cases hk'
        rw [hd] at hd'
        cases hd'
        obtain ⟨k, rfl, meets, params⟩ := ih h
        exact ⟨k, by omega, meets, params⟩
      | object hk' => rw [hk] at hk'; cases hk'
      | tagged hk' => rw [hk] at hk'; cases hk'
      | untagged hk' => rw [hk] at hk'; cases hk'
      | literal hk' => rw [hk] at hk'; cases hk'
      | scalar hk' => rw [hk] at hk'; cases hk'

end Validation

end ApiContract
