import ApiContract.Payload.Exchange
import ApiContract.Proofs.IssuePlacement
import ApiContract.Proofs.PayloadPlaces

/-!
# Issues point into the payload

The pointer of an issue leads to a value of the payload, or, where a key is missing, to the object
that lacks it. For a request this holds of the payload as it was sent, although it is the converted
one that is judged, for conversion keeps the places of a payload.
-/

namespace ApiContract

/-- Tokens lead where an issue with a code has to point: to a value, and for a missing key to an
object without it. -/
inductive Addressed (j : Json) : IssueCode → List String → Prop where
  | value {code : IssueCode} {tokens : List String} {x : Json} (hc : code ≠ .required)
      (hx : j.follow? tokens = some x) : Addressed j code tokens
  | missing {front : List String} {key : String} {members : Keyed Json}
      (hx : j.follow? front = some (.object members)) (hk : members.get? key = none) :
      Addressed j .required (front ++ [key])

theorem Addressed.below {j m : Json} {code : IssueCode} {token : String} {tokens : List String}
    (h : Addressed m code tokens) (hm : j.child? token = some m) :
    Addressed j code (token :: tokens) := by
  cases h with
  | value hc hx => exact .value hc (by simpa [hm] using hx)
  | @missing front key members hx hk =>
    rw [← List.cons_append]
    exact .missing (by simpa [hm] using hx) hk

/-- Places of a converted value are places of the value it was made of. -/
theorem Addressed.of_covers {j k : Json} {code : IssueCode} {tokens : List String}
    (h : Addressed k code tokens) (hc : j.Covers k) : Addressed j code tokens := by
  cases h with
  | value hr hx =>
    obtain ⟨y, hy, -⟩ := hc _ _ hx
    exact .value hr hy
  | @missing front key members hx hk =>
    obtain ⟨y, hy, ho⟩ := hc _ _ hx
    obtain ⟨members', rfl, hkeys⟩ := ho members rfl
    apply Addressed.missing hy
    rw [Option.eq_none_iff_forall_ne_some]
    intro m hm
    have hmem : key ∈ Keyed.keys members := hkeys ▸ (Keyed.mem_keys_iff key members').mpr ⟨m, hm⟩
    obtain ⟨m', hm'⟩ := (Keyed.mem_keys_iff key members).mp hmem
    rw [hk] at hm'
    cases hm'

/-! ### Issues of a verdict -/

def IssueCode.isOwn : IssueCode → Bool
  | .required | .fieldUnknown => false
  | _ => true

namespace Issue

/-- The issue points into a value, and below it if the value has a key too many. -/
structure Stands (i : Issue) (j : Json) : Prop where
  addressed : Addressed j i.code (i.path.map PathSegment.text)
  unknown_below : i.code = .fieldUnknown → i.path ≠ []

structure Own (i : Issue) : Prop where
  path : i.path = []
  code : i.code.isOwn = true

/-- An issue of the value itself points to it. -/
theorem Own.stands {i : Issue} (h : i.Own) (j : Json) : i.Stands j := by
  have hc := h.code
  constructor
  · apply Addressed.value (x := j)
    · intro hr
      rw [hr] at hc
      cases hc
    · rw [h.path]
      rfl
  · intro hu
    rw [hu] at hc
    cases hc

theorem Stands.under {i : Issue} {j m : Json} {s : PathSegment} (h : i.Stands m)
    (hm : j.child? s.text = some m) : (i.under [s]).Stands j :=
  ⟨h.addressed.below hm, by simp⟩

theorem stands_required {members : Keyed Json} {key : String} (h : members.get? key = none) :
    (Issue.required [.key key]).Stands (.object members) :=
  ⟨@Addressed.missing _ [] _ _ rfl h, by simp [Issue.required]⟩

theorem stands_member {i : Issue} {members : Keyed Json} {key : String} {m : Json}
    (hc : i.code ≠ .required) (hp : i.path = [.key key]) (h : members.get? key = some m) :
    i.Stands (.object members) :=
  ⟨.value hc (x := m) (by simp [hp, PathSegment.text, Json.child?, h]), by simp [hp]⟩

end Issue

namespace Validation

/-- A judge whose issues point into the value it judges. -/
def Locates (next : Judge) : Prop :=
  ∀ (d : Definition) (j : Json), ∀ i ∈ (next [] d j).issues, i.Stands j

variable {next afterNext : Judge}

theorem locates_tooDeep : Locates tooDeep := by
  intro d j i hi
  obtain rfl := List.mem_singleton.mp hi
  exact Issue.Own.stands ⟨rfl, rfl⟩ j

theorem own_of_mem_boundIssues {d : Definition} {n : Option Binary64}
    {small large : Binary64 → Issue} (hs : ∀ x, (small x).Own) (hl : ∀ x, (large x).Own)
    {i : Issue} (hi : i ∈ boundIssues d n small large) : i.Own := by
  simp only [boundIssues, List.mem_append, Option.mem_toList, Option.map_eq_some_iff] at hi
  rcases hi with ⟨x, -, rfl⟩ | ⟨x, -, rfl⟩
  · exact hs x
  · exact hl x

theorem own_of_mem_formatIssues {d : Definition} {s : String} {i : Issue}
    (hi : i ∈ formatIssues [] d s) : i.Own := by
  unfold formatIssues at hi
  cases hf : d.format with
  | none => simp [hf] at hi
  | some format =>
    cases format <;> simp only [hf] at hi <;> split at hi <;>
      simp only [List.not_mem_nil, List.mem_singleton] at hi <;>
      subst hi <;> exact ⟨rfl, rfl⟩

/-- Listed values are compared with the value itself. -/
theorem own_of_mem_enumIssues {view : View} {d : Definition} {j : Json} {i : Issue}
    (hi : i ∈ enumIssues view [] d j) : i.Own := by
  unfold enumIssues at hi
  cases ha : allowedValues? view d with
  | none => simp [ha] at hi
  | some values =>
    simp only [ha] at hi
    split at hi
    · simp at hi
    · obtain rfl := List.mem_singleton.mp hi
      exact ⟨rfl, rfl⟩

/-- What is wrong with a scalar is wrong with the scalar itself. -/
theorem own_of_mem_scalar {view : View} {d : Definition} {kind : ScalarKind} {j : Json}
    {i : Issue} (hi : i ∈ (scalar view [] d kind j).issues) : i.Own := by
  unfold scalar at hi
  split at hi
  · obtain rfl := List.mem_singleton.mp hi
    exact ⟨rfl, rfl⟩
  · simp only [List.mem_append] at hi
    rcases hi with (hi | hi) | hi
    · split at hi
      · exact own_of_mem_boundIssues (fun x => ⟨rfl, rfl⟩) (fun x => ⟨rfl, rfl⟩) hi
      · simp at hi
    · cases hs : j.string? with
      | none => simp [hs] at hi
      | some s =>
        simp only [hs, List.mem_append] at hi
        rcases hi with hi | hi
        · split at hi
          · exact own_of_mem_boundIssues (fun x => ⟨rfl, rfl⟩)
              (fun x => ⟨rfl, rfl⟩) hi
          · simp at hi
        · exact own_of_mem_formatIssues hi
    · exact own_of_mem_enumIssues hi

/-- An issue about a field points to its member, or tells that there is none. -/
theorem stands_of_mem_field {case : KeyCase} (hp : Placed next) (hn : Locates next)
    {members : Keyed Json} {f : Field} {i : Issue}
    (hi : i ∈ (field case next [] members f).issues) : i.Stands (.object members) := by
  unfold field at hi
  cases hm : Keyed.get? members (f.wireName case) with
  | some m =>
    simp only [hm] at hi
    rw [List.nil_append, hp.at_path] at hi
    obtain ⟨i', hi', rfl⟩ := List.mem_map.mp hi
    exact (hn _ _ i' hi').under hm
  | none =>
    simp only [hm] at hi
    cases hd : f.definition.default? with
    | some j => simp [hd] at hi
    | none =>
      simp only [hd] at hi
      split at hi
      · simp at hi
      · obtain rfl := List.mem_singleton.mp hi
        exact Issue.stands_required hm

/-- Issues about an object are about its fields, or about a key too many. -/
theorem stands_of_mem_object {case : KeyCase} (hp : Placed next) (hn : Locates next)
    {shape : List Field} {j : Json} {i : Issue} (hi : i ∈ (object case next [] shape j).issues) :
    i.Stands j := by
  cases j with
  | object members =>
    simp only [object, List.mem_append, List.flatMap_map, List.mem_flatMap] at hi
    rcases hi with ⟨f, -, hi⟩ | hi
    · exact stands_of_mem_field hp hn hi
    · obtain ⟨key, hk, rfl⟩ := List.mem_map.mp hi
      obtain ⟨m, hm⟩ := (Keyed.mem_keys_iff key members).mp (List.mem_filter.mp hk).1
      exact Issue.stands_member (by simp [Issue.unknownField]) rfl hm
  | _ =>
    obtain rfl := List.mem_singleton.mp hi
    exact Issue.Own.stands ⟨rfl, rfl⟩ _

/-- Issues about a list are about the list or an element of it. -/
theorem stands_of_mem_array {element : Path → Json → Verdict}
    (hp : ∀ (p q : Path) (j : Json), element (p ++ q) j = (element q j).under p)
    (he : ∀ j, ∀ i ∈ (element [] j).issues, i.Stands j) {d : Definition} {j : Json} {i : Issue}
    (hi : i ∈ (array element [] d j).issues) : i.Stands j := by
  cases j with
  | array elements =>
    simp only [array, List.mem_append, List.mem_flatMap, List.mem_mapIdx] at hi
    rcases hi with hi | ⟨v, ⟨n, hlt, rfl⟩, hi⟩
    · exact Issue.Own.stands (own_of_mem_boundIssues (fun x => ⟨rfl, rfl⟩)
        (fun x => ⟨rfl, rfl⟩) hi) _
    · have ha := hp [.index n] [] elements[n]
      rw [List.append_nil] at ha
      rw [List.nil_append, ha] at hi
      obtain ⟨i', hi', rfl⟩ := List.mem_map.mp hi
      exact (he _ i' hi').under (by simp [hlt])
  | _ =>
    obtain rfl := List.mem_singleton.mp hi
    exact Issue.Own.stands ⟨rfl, rfl⟩ _

/-- A tag that is missing or unknown is told of at its key. -/
theorem stands_of_mem_taggedUnion {case : KeyCase} (hn : Locates next) {key : String}
    {variants : List Variant} {j : Json} {i : Issue}
    (hi : i ∈ (taggedUnion case next [] key variants j).issues) : i.Stands j := by
  cases j with
  | object members =>
    simp only [taggedUnion] at hi
    cases hm : Keyed.get? members (case.apply key) with
    | none =>
      simp only [hm] at hi
      obtain rfl := List.mem_singleton.mp hi
      exact Issue.stands_required hm
    | some tag =>
      simp only [hm] at hi
      cases hv : tag.string? >>= Variant.tagged? variants with
      | none =>
        simp only [hv] at hi
        obtain rfl := List.mem_singleton.mp hi
        exact Issue.stands_member (by simp [Issue.enumInvalid]) rfl hm
      | some variant =>
        simp only [hv] at hi
        exact hn _ _ i (List.mem_filter.mp hi).1
  | _ =>
    obtain rfl := List.mem_singleton.mp hi
    exact Issue.Own.stands ⟨rfl, rfl⟩ _

/-- A verdict that a trial ends with has no issue. -/
theorem issues_of_firstClean? {path : Path} {j : Json} {variants : List Variant} {v : Verdict}
    (h : firstClean? next path j variants = some v) : v.issues = [] := by
  induction variants with
  | nil => cases h
  | cons variant rest ih =>
    simp only [firstClean?] at h
    split at h
    · rename_i he
      cases h
      simpa using he
    · exact ih h

theorem stands_of_mem_untaggedUnion {variants : List Variant} {j : Json} {i : Issue}
    (hi : i ∈ (untaggedUnion next [] variants j).issues) : i.Stands j := by
  unfold untaggedUnion at hi
  cases hv : firstClean? next [] j variants with
  | some v => simp [hv, issues_of_firstClean? hv] at hi
  | none =>
    simp only [hv] at hi
    obtain rfl := List.mem_singleton.mp hi
    exact Issue.Own.stands ⟨rfl, rfl⟩ _

/-- One step places its issues right if the judges below do. -/
theorem locates_step (c : Context) (hp : Placed next) (ha : Placed afterNext)
    (hn : Locates next) (hm : Locates afterNext) : Locates (step c next afterNext) := by
  intro d j i hi
  unfold step at hi
  split at hi
  · simp [accept] at hi
  split at hi
  · obtain rfl := List.mem_singleton.mp hi
    exact Issue.Own.stands ⟨rfl, rfl⟩ _
  cases hk : d.kind with
  | reference target =>
    simp only [hk] at hi
    cases hd : c.view.definition? target with
    | none =>
      simp only [hd] at hi
      obtain rfl := List.mem_singleton.mp hi
      exact Issue.Own.stands ⟨rfl, rfl⟩ _
    | some definition =>
      simp only [hd] at hi
      exact hn _ _ i hi
  | object shape => exact stands_of_mem_object hp hn (by simpa only [hk] using hi)
  | array items =>
    cases items with
    | of element =>
      exact stands_of_mem_array (fun p q => hp p q element) (hn element)
        (by simpa only [hk] using hi)
    | shape fields =>
      exact stands_of_mem_array (fun p q => object_under c.case ha p q fields)
        (fun j i => stands_of_mem_object ha hm) (by simpa only [hk] using hi)
  | union discriminator variants =>
    cases discriminator with
    | some key => exact stands_of_mem_taggedUnion hn (by simpa only [hk] using hi)
    | none => exact stands_of_mem_untaggedUnion (by simpa only [hk] using hi)
  | literal value =>
    simp only [hk, literal] at hi
    split at hi
    · simp [accept] at hi
    · obtain rfl := List.mem_singleton.mp hi
      exact Issue.Own.stands ⟨rfl, rfl⟩ _
  | scalar kind => exact (own_of_mem_scalar (by simpa only [hk] using hi)).stands j

theorem locates_judge (c : Context) (n : Nat) : Locates (judge c n) := by
  have both : Placed (judge c n) ∧ Locates (judge c n) :=
    judge_induction c (P := fun next => Placed next ∧ Locates next)
      ⟨placed_tooDeep, locates_tooDeep⟩
      (fun _ _ hn ha => ⟨placed_step c hn.1 ha.1, locates_step c hn.1 ha.1 hn.2 ha.2⟩) n
  exact both.2

end Validation

/-! ### Pointers -/

/-- The pointer of an issue is its path written as a pointer, and leads where the issue has to
point. -/
structure Issue.PointsInto (i : Issue) (j : Json) : Prop where
  written : i.pointer.toList = Pointer.render (i.path.map PathSegment.text)
  addressed : Addressed j i.code (Pointer.parse i.pointer)

theorem Issue.Stands.pointsInto {i : Issue} {j k : Json} (h : i.Stands k) (hc : j.Covers k) :
    i.PointsInto j := by
  refine ⟨Pointer.toList_pointer i.path, ?_⟩
  rw [Issue.pointer, Pointer.parse_pointer]
  exact h.addressed.of_covers hc

/-- What a rejected request is told points into the body as it was sent, and what a validation
finds points into the value it was given. -/
theorem issues_point_into_payload :
    (∀ (x : Exchange) (d : Definition) (raw : Json) (v : Verdict),
      x.process .body d raw = .ok v → ∀ i ∈ v.issues, i.PointsInto raw) ∧
    (∀ (c : Context) (d : Definition) (j : Json),
      ∀ i ∈ (c.validate d j).issues, i.PointsInto j) := by
  have located : ∀ (c : Context) (d : Definition) (j : Json),
      ∀ i ∈ (c.validate d j).issues, i.Stands j :=
    fun c d j => Validation.locates_judge c (nestingLimit + 1) d j
  constructor
  · intro x d raw v hv i hi
    have hcov : raw.Covers ((x.context .body).coerce d raw) :=
      Coercion.keeps_convert (x.context .body) (nestingLimit + 1) d raw
    simp only [Exchange.process, reduceCtorEq, if_false] at hv
    split at hv
    · cases ht : x.view.transform x.transformers .decode d
          ((x.context .body).validate d ((x.context .body).coerce d raw)).params with
      | error e => simp [ht, bind, Except.bind] at hv
      | ok params =>
        simp only [ht, bind, Except.bind, Except.ok.injEq] at hv
        subst hv
        cases hi
    · cases hv
      exact (located _ _ _ i hi).pointsInto hcov
  · intro c d j i hi
    exact (located c d j i hi).pointsInto (.refl j)

def invoiceExchange : Exchange :=
  { view := ⟨.empty, .api "billing"⟩, config := { keyCase := .camel } }

def invoice : Definition :=
  .object [{ name := "line_items", definition := .arrayOf (.scalar .integer) },
    { name := "due_date", definition := .scalar .date }]

def invoiceBody : Json :=
  .object [("a/b", .null), ("lineItems", .array [.string "7", .string "x"])]

theorem issues_point_into_invoice :
    ∃ v, invoiceExchange.process .body invoice invoiceBody = .ok v ∧
      v.issues.map Issue.pointer = ["/lineItems/1", "/dueDate", "/a~1b"] ∧
      ∀ i ∈ v.issues, i.PointsInto invoiceBody := by
  let c := invoiceExchange.context .body
  let issues := (c.validate invoice (c.coerce invoice invoiceBody)).issues
  have hp : issues.map Issue.pointer = ["/lineItems/1", "/dueDate", "/a~1b"] := by decide +kernel
  have hi : issues.isEmpty = false := by decide +kernel
  have hv : invoiceExchange.process .body invoice invoiceBody = .ok ⟨.object [], issues⟩ := by
    simp only [Exchange.process, reduceCtorEq, if_false]
    exact if_neg (by simpa using hi)
  exact ⟨_, hv, hp, issues_point_into_payload.1 _ _ _ _ hv⟩

end ApiContract
