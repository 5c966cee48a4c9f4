import ApiContract.Proofs.AbsentKeys
import ApiContract.Proofs.DefinitionSearch
import ApiContract.Proofs.KeyOrder

/-!
# One fault, one issue

Issues compose: what is wrong with a part of a value is told once, at its place, and nothing is told
besides. So a payload that was fine, from which one key is deleted or to which one key is added,
gets one issue, however deep the object with that key lies. The objects are those that a validation
comes to without trying the variants of a union one after another, since a trial that fails keeps
its issues to itself.
-/

namespace ApiContract

open Validation

def Json.replaceAt : Json → Path → Json → Json
  | _, [], new => new
  | .object members, .key key :: rest, new =>
    .object (Keyed.modify key (fun j => j.replaceAt rest new) members)
  | .array elements, .index i :: rest, new =>
    .array (elements.modify i fun j => j.replaceAt rest new)
  | j, _ :: _, _ => j

/-- A validation describes an object inside a value by a shape. The object stands at a place, and
the unions around it read their tags at some places. -/
inductive Describes (c : Context) (shape : List Field) (members : Keyed Json) :
    List Path → Path → Definition → Json → Prop where
  | object {d} (hk : d.kind = .object shape) : Describes c shape members [] [] d (.object members)
  | reference {tags place d j target definition} (hk : d.kind = .reference target)
      (hd : c.view.definition? target = some definition)
      (h : Describes c shape members tags place definition j) :
      Describes c shape members tags place d j
  | member {tags place d fields siblings f j} (hk : d.kind = .object fields) (hf : f ∈ fields)
      (hm : Keyed.get? siblings (f.wireName c.case) = some j)
      (h : Describes c shape members tags place f.definition j) :
      Describes c shape members (tags.map (.key (f.wireName c.case) :: ·))
        (.key (f.wireName c.case) :: place) d (.object siblings)
  | element {tags place d element elements i j} (hk : d.kind = .array (.of element))
      (hi : elements[i]? = some j) (h : Describes c shape members tags place element j) :
      Describes c shape members (tags.map (.index i :: ·)) (.index i :: place) d (.array elements)
  | shapes {tags place d fields elements i j} (hk : d.kind = .array (.shape fields))
      (hi : elements[i]? = some j) (h : Describes c shape members tags place (.object fields) j) :
      Describes c shape members (tags.map (.index i :: ·)) (.index i :: place) d (.array elements)
  | tagged {tags place d key variants siblings tag variant}
      (hk : d.kind = .union (some key) variants)
      (ht : Keyed.get? siblings (c.case.apply key) = some (.string tag))
      (hv : Variant.tagged? variants tag = some variant)
      (h : Describes c shape members tags place variant.definition (.object siblings)) :
      Describes c shape members ([.key (c.case.apply key)] :: tags) place d (.object siblings)

/-- What becomes of an object by one fault, and the issue that tells of it: a key is missing that
its field cannot do without, or there is a key that no field has. -/
inductive Faulty (case : KeyCase) (shape : List Field) (members : Keyed Json) :
    Keyed Json → Issue → Prop where
  | missing {f} (hf : f ∈ shape) (needed : f.definition.optional = false)
      (bare : f.definition.default? = none) :
      Faulty case shape members (Keyed.erase (f.wireName case) members)
        (.required [.key (f.wireName case)])
  | unknown {key} (value : Json) (undeclared : key ∉ shape.map (Field.wireName case)) :
      Faulty case shape members (Keyed.insert key value members) (.unknownField [.key key])

/-! ### Places -/

theorem Json.exists_object_replaceAt (members new : Keyed Json) (place : Path) :
    ∃ changed, (Json.object members).replaceAt place (.object new) = .object changed := by
  cases place with
  | nil => exact ⟨new, rfl⟩
  | cons s rest => cases s <;> exact ⟨_, rfl⟩

namespace Describes

variable {c : Context} {shape : List Field} {members : Keyed Json} {tags : List Path}
  {place : Path} {d : Definition} {j : Json}

/-- The object stands at its place. -/
theorem follow?_place (h : Describes c shape members tags place d j) :
    j.follow? (place.map PathSegment.text) = some (.object members) := by
  induction h with
  | object => rfl
  | reference _ _ _ ih => exact ih
  | member _ _ hm _ ih =>
    rw [List.map_cons, Json.follow?_cons]
    exact Option.bind_eq_some_iff.mpr ⟨_, hm, ih⟩
  | element _ hi _ ih | shapes _ hi _ ih =>
    rw [List.map_cons, Json.follow?_cons, Json.child?_index, hi]
    exact ih
  | tagged _ _ _ _ ih => exact ih

/-- A described value is an object or a list, and stays one with another object inside. -/
theorem replaceAt_not_null (h : Describes c shape members tags place d j) (new : Keyed Json) :
    j.isNull = false ∧ (j.replaceAt place (.object new)).isNull = false := by
  induction h with
  | reference _ _ _ ih => exact ih
  | tagged =>
    obtain ⟨changed, same⟩ := Json.exists_object_replaceAt _ new _
    rw [same]
    exact ⟨rfl, rfl⟩
  | _ => exact ⟨rfl, rfl⟩

/-- No tag is a member that the place leads through. -/
theorem ne_of_tag {siblings : Keyed Json} {wire tag key : String}
    (h : Describes c shape members tags (.key key :: place) d (.object siblings))
    (ht : Keyed.get? siblings wire = some (.string tag)) : wire ≠ key := by
  rintro rfl
  have found := h.follow?_place
  rw [List.map_cons, Json.follow?_cons, PathSegment.text, Json.child?, ht] at found
  cases place <;> cases found

end Describes

theorem Faulty.get?_of_ne {case : KeyCase} {shape : List Field} {members faulty : Keyed Json}
    {i : Issue} {other : String} (h : Faulty case shape members faulty i)
    (ne : i.path ≠ [.key other]) : Keyed.get? faulty other = Keyed.get? members other := by
  cases h with
  | missing => rw [Keyed.get?_erase, if_neg (by rintro rfl; exact ne rfl)]
  | unknown => rw [Keyed.get?_insert, if_neg (by rintro rfl; exact ne rfl)]

theorem Faulty.exists_key {case : KeyCase} {shape : List Field} {members faulty : Keyed Json}
    {i : Issue} (h : Faulty case shape members faulty i) : ∃ key, i.path = [.key key] := by
  cases h <;> exact ⟨_, rfl⟩

namespace Describes

variable {c : Context} {shape : List Field} {members siblings : Keyed Json} {tags : List Path}
  {place : Path} {d : Definition} {j : Json}

/-- An object at no step inside a value is the value. -/
theorem eq_of_here (h : Describes c shape members tags [] d (.object siblings)) :
    siblings = members := by
  simpa [Json.follow?] using h.follow?_place

/-- A fault leaves a tag as it was, unless it is the key of the tag that is at fault. -/
theorem tag_kept {faulty changed : Keyed Json} {i : Issue} {wire tag : String}
    (h : Describes c shape members tags place d (.object siblings))
    (fault : Faulty c.case shape members faulty i)
    (ht : Keyed.get? siblings wire = some (.string tag))
    (same : (Json.object siblings).replaceAt place (.object faulty) = .object changed)
    (ne : (i.under place).path ≠ [.key wire]) :
    Keyed.get? changed wire = some (.string tag) := by
  rw [← ht]
  cases place with
  | nil =>
    cases same
    rw [h.eq_of_here]
    exact fault.get?_of_ne ne
  | cons s rest =>
    cases s with
    | key key =>
      cases same
      rw [Keyed.get?_modify, if_neg (h.ne_of_tag ht)]
    | index =>
      cases same
      rfl

end Describes

namespace Validation

variable {next : Judge} {case : KeyCase} {shape : List Field} {members : Keyed Json}
  {excused : List String} {issues : List Issue} {i : Issue}

/-! ### Issues besides excused keys -/

instance (excused : List String) (i : Issue) : Decidable (Excused excused i) :=
  inferInstanceAs (Decidable (_ ∧ _))

def unexcused (excused : List String) (issues : List Issue) : List Issue :=
  issues.filter fun i => ¬ Excused excused i

@[simp] theorem unexcused_append (xs ys : List Issue) :
    unexcused excused (xs ++ ys) = unexcused excused xs ++ unexcused excused ys :=
  List.filter_append ..

@[simp] theorem unexcused_nil (issues : List Issue) : unexcused [] issues = issues := by
  simp [unexcused, Excused]

theorem unexcused_eq_nil (h : ∀ i ∈ issues, Excused excused i) : unexcused excused issues = [] := by
  simpa [unexcused] using h

theorem not_excused_nil (i : Issue) : ¬ Excused [] i := by
  simp [Excused]

theorem unexcused_singleton (h : ¬ Excused excused i) : unexcused excused [i] = [i] := by
  simp [unexcused, h]

theorem excused_cons_iff {key : String} : Excused (key :: excused) i ↔
    (i.code = .fieldUnknown ∧ i.path = [.key key]) ∨ Excused excused i := by
  simp only [Excused, List.mem_cons, exists_eq_or_imp, and_or_left]

/-- A tag that chooses a variant excuses its key. -/
theorem unexcused_taggedUnion {key tag : String} {variants : List Variant} {variant : Variant}
    (ht : Keyed.get? members (case.apply key) = some (.string tag))
    (hv : Variant.tagged? variants tag = some variant) :
    unexcused excused (taggedUnion case next [] key variants (.object members)).issues =
      unexcused (case.apply key :: excused)
        (next [] variant.definition (.object members)).issues := by
  have chosen : (Json.string tag).string? >>= Variant.tagged? variants = some variant := hv
  simp only [taggedUnion, ht, chosen, unexcused, List.filter_filter]
  refine List.filter_congr fun i _ => Bool.eq_iff_iff.mpr ?_
  simp [excused_cons_iff, not_or, and_comm]

theorem issues_taggedUnion_of_absent {key : String} {variants : List Variant}
    (lacks : Keyed.get? members (case.apply key) = none) :
    (taggedUnion case next [] key variants (.object members)).issues =
      [.required [.key (case.apply key)]] := by
  simp only [taggedUnion, lacks]
  rfl

/-! ### Objects -/

/-- Issues that only one member of a list causes. -/
theorem flatMap_eq_of_only {α : Type} {l : List α} {a : α} {g : α → List Issue} (once : l.Nodup)
    (mem : a ∈ l) (others : ∀ b ∈ l, b ≠ a → g b = []) : l.flatMap g = g a := by
  obtain ⟨front, back, rfl⟩ := List.append_of_mem mem
  obtain ⟨notFront, notBack⟩ : a ∉ front ∧ a ∉ back := by
    grind [List.nodup_append, List.nodup_cons]
  have before : front.flatMap g = [] := List.flatMap_eq_nil_iff.mpr fun b hb =>
    others b (List.mem_append_left _ hb) fun same => notFront (same ▸ hb)
  have after : back.flatMap g = [] := List.flatMap_eq_nil_iff.mpr fun b hb =>
    others b (List.mem_append_right _ (.tail _ hb)) fun same => notBack (same ▸ hb)
  rw [List.flatMap_append, List.flatMap_cons, before, after, List.nil_append, List.append_nil]

theorem issues_object (members : Keyed Json) :
    (object case next [] shape (.object members)).issues =
      (shape.flatMap fun f => (field case next [] members f).issues) ++
        unknownIssues case [] shape members := by
  simp only [object, List.flatMap_map]

/-- A field of an object that meets its shape has no issue. -/
theorem issues_field_of_meets (hp : Placed next)
    (meets : MeetsShape case excused (CleanBy next []) shape members) {f : Field} (hf : f ∈ shape) :
    (field case next [] members f).issues = [] := by
  cases hm : Keyed.get? members (f.wireName case) with
  | some m =>
    have clean := (clean_nil_iff _).mp (meets.present f hf m hm)
    simp [field, hm, hp.at_path [.key (f.wireName case)], clean]
  | none =>
    simp only [field, hm]
    rcases meets.absent f hf hm with optional | bare
    · cases f.definition.default? <;> simp [optional]
    · obtain ⟨j, hd⟩ := Option.isSome_iff_exists.mp bare
      simp [hd]

theorem field_congr {members' : Keyed Json} {f : Field}
    (same : Keyed.get? members' (f.wireName case) = Keyed.get? members (f.wireName case)) :
    field case next [] members' f = field case next [] members f := by
  simp only [field, same]

/-- Keys that no field has are excused in an object that meets its shape. -/
theorem excused_of_mem_unknownIssues {members' : Keyed Json}
    (meets : MeetsShape case excused (CleanBy next []) shape members)
    (keys : Keyed.keys members' ⊆ Keyed.keys members) :
    ∀ i ∈ unknownIssues case [] shape members', Excused excused i := by
  intro i hi
  obtain ⟨key, hk, rfl⟩ := List.mem_map.mp hi
  obtain ⟨hk, undeclared⟩ := List.mem_filter.mp hk
  refine ⟨rfl, key, (meets.known key (keys hk)).resolve_left ?_, rfl⟩
  simpa using undeclared

/-- Where an object that meets its shape is changed under the key of one field only, what is wrong
with it is what is wrong with that field. -/
theorem unexcused_object_of_only (hp : Placed next) {members' : Keyed Json} {f : Field}
    (meets : MeetsShape case excused (CleanBy next []) shape members)
    (distinct : (shape.map (Field.wireName case)).Nodup) (hf : f ∈ shape)
    (keys : Keyed.keys members' ⊆ Keyed.keys members)
    (same : ∀ other, other ≠ f.wireName case →
      Keyed.get? members' other = Keyed.get? members other) :
    unexcused excused (object case next [] shape (.object members')).issues =
      unexcused excused (field case next [] members' f).issues := by
  have fields : (shape.flatMap fun g => (field case next [] members' g).issues) =
      (field case next [] members' f).issues := by
    refine flatMap_eq_of_only distinct.of_map hf fun g hg ne => ?_
    rw [field_congr (same _ fun spelled => ne (List.inj_on_of_nodup_map distinct hg hf spelled))]
    exact issues_field_of_meets hp meets hg
  have known : unexcused excused (unknownIssues case [] shape members') = [] :=
    unexcused_eq_nil (excused_of_mem_unknownIssues meets keys)
  rw [issues_object, unexcused_append, fields, known, List.append_nil]

/-- Where one member of an object is changed, what is wrong with the object is what is wrong with
that member. -/
theorem unexcused_object_modify (hp : Placed next) {f : Field} {j : Json} (change : Json → Json)
    (meets : MeetsShape case excused (CleanBy next []) shape members)
    (distinct : (shape.map (Field.wireName case)).Nodup) (hf : f ∈ shape)
    (hm : Keyed.get? members (f.wireName case) = some j) :
    unexcused excused (object case next [] shape
        (.object (Keyed.modify (f.wireName case) change members))).issues =
      unexcused excused
        ((next [] f.definition (change j)).issues.map (Issue.under [.key (f.wireName case)])) := by
  have changed : Keyed.get? (Keyed.modify (f.wireName case) change members) (f.wireName case) =
      some (change j) := by
    rw [Keyed.get?_modify, if_pos rfl, hm, Option.map_some]
  rw [unexcused_object_of_only hp meets distinct hf]
  · simp only [field, changed, List.nil_append]
    rw [hp.at_path, Verdict.under_issues]
  · rw [Keyed.keys_modify]
    exact fun _ => id
  · exact fun other ne => by rw [Keyed.get?_modify, if_neg ne]

/-- An object with a key more than the fields of its shape have is told of that key. -/
theorem unexcused_object_insert (hp : Placed next) {key : String} (value : Json)
    (meets : MeetsShape case excused (CleanBy next []) shape members)
    (undeclared : key ∉ shape.map (Field.wireName case)) (free : key ∉ excused) :
    unexcused excused
        (object case next [] shape (.object (Keyed.insert key value members))).issues =
      [.unknownField [.key key]] := by
  have fields : (shape.flatMap fun f =>
      (field case next [] (Keyed.insert key value members) f).issues) = [] := by
    rw [List.flatMap_eq_nil_iff]
    intro f hf
    have ne : f.wireName case ≠ key := fun spelled => undeclared (List.mem_map.mpr ⟨f, hf, spelled⟩)
    have same : Keyed.get? (Keyed.insert key value members) (f.wireName case) =
        Keyed.get? members (f.wireName case) := by rw [Keyed.get?_insert, if_neg ne]
    rw [field_congr same]
    exact issues_field_of_meets hp meets hf
  have fresh : key ∉ Keyed.keys members :=
    fun present => (meets.known key present).elim undeclared free
  have keys : (Keyed.keys (Keyed.insert key value members)).Perm (key :: Keyed.keys members) :=
    (Keyed.insert_perm fresh value).map Prod.fst
  have told : (unknownIssues case [] shape (Keyed.insert key value members)).Perm
      (.unknownField [.key key] :: unknownIssues case [] shape members) := by
    let other (key : String) : Bool := !(shape.map (Field.wireName case)).contains key
    have stands : other key = true := by simpa [other] using undeclared
    have listed := (keys.filter other).map fun key => Issue.unknownField ([] ++ [.key key])
    rwa [List.filter_cons_of_pos stands] at listed
  have known : unexcused excused (unknownIssues case [] shape members) = [] :=
    unexcused_eq_nil (excused_of_mem_unknownIssues meets fun _ => id)
  have counted : ¬ Excused excused (.unknownField [.key key]) := by
    rintro ⟨-, tag, ht, same⟩
    cases same
    exact free ht
  rw [issues_object, fields, List.nil_append]
  refine List.perm_singleton.mp ((told.filter _).trans (.of_eq ?_))
  change unexcused excused ([.unknownField [.key key]] ++ unknownIssues case [] shape members) = _
  rw [unexcused_append, unexcused_singleton counted, known, List.append_nil]

/-- An object with one fault is told of the fault. -/
theorem unexcused_object_of_fault (hp : Placed next) {faulty : Keyed Json}
    (meets : MeetsShape case excused (CleanBy next []) shape members)
    (distinct : (shape.map (Field.wireName case)).Nodup)
    (fault : Faulty case shape members faulty i) (counted : ¬ Excused excused i) :
    unexcused excused (object case next [] shape (.object faulty)).issues = [i] := by
  cases fault with
  | @missing f hf needed bare =>
    have lacks : Keyed.get? (Keyed.erase (f.wireName case) members) (f.wireName case) = none := by
      rw [Keyed.get?_erase, if_pos rfl]
    have told : (field case next [] (Keyed.erase (f.wireName case) members) f).issues =
        [.required [.key (f.wireName case)]] := by
      simp [field, lacks, needed, bare]
    rw [unexcused_object_of_only hp meets distinct hf, told, unexcused_singleton counted]
    · exact fun other hk => (Keyed.mem_keys_erase.mp hk).1
    · exact fun other ne => by rw [Keyed.get?_erase, if_neg ne]
  | unknown value undeclared =>
    refine unexcused_object_insert hp value meets undeclared fun tag => counted ?_
    exact ⟨rfl, _, tag, rfl⟩

/-! ### Lists -/

/-- Where one element of a list is changed, what is wrong with the list is what is wrong with that
element. -/
theorem issues_array_modify (element : Path → Json → Verdict)
    (hp : ∀ (p q : Path) (j : Json), element (p ++ q) j = (element q j).under p) {d : Definition}
    {elements : List Json} {n : Nat} {j : Json} (counts : d.Counts elements)
    (clean : ∀ m ∈ elements, (element [] m).issues = []) (hn : elements[n]? = some j)
    (change : Json → Json) :
    (array element [] d (.array (elements.modify n change))).issues =
      (element [] (change j)).issues.map (Issue.under [.index n]) := by
  obtain ⟨bound, -⟩ := List.getElem?_eq_some_iff.mp hn
  obtain ⟨front, m, back, rfl, rfl, changed⟩ := List.exists_of_modify change bound
  obtain rfl : m = j := by simpa using hn
  have under (k : Nat) (j : Json) :
      (element [.index k] j).issues = (element [] j).issues.map (Issue.under [.index k]) := by
    rw [show element [.index k] j = _ from hp [.index k] [] j, Verdict.under_issues]
  have count : countIssues [] d (front ++ change m :: back).length = [] := by
    have same : (front ++ change m :: back).length = (front ++ m :: back).length := by simp
    rw [same]
    exact (boundIssues_eq_nil_iff ..).mpr counts
  have none (place : Nat → Nat) (rest : List Json) (hr : rest ⊆ front ++ m :: back) :
      (rest.mapIdx fun k j => element [.index (place k)] j).flatMap Verdict.issues = [] := by
    rw [List.flatMap_eq_nil_iff]
    intro v hv
    obtain ⟨k, hk, rfl⟩ := List.mem_mapIdx.mp hv
    rw [under, clean _ (hr (List.getElem_mem hk)), List.map_nil]
  have before := none (fun k => k) front (by simp)
  have after := none (fun k => k + 1 + front.length) back (by simp)
  simp only [changed, array, count, List.nil_append, List.mapIdx_append, List.mapIdx_cons,
    List.flatMap_append, List.flatMap_cons, Nat.zero_add, before, after, List.append_nil]
  exact under ..

/-! ### The walk -/

theorem judge_reference {c : Context} {n : Nat} {d definition : Definition} {target : String}
    {j : Json} (hk : d.kind = .reference target) (hd : c.view.definition? target = some definition)
    (present : j.isNull = false) : judge c (n + 1) [] d j = judge c n [] definition j := by
  simp [judge_succ, step, present, hk, hd]

theorem judge_elements {c : Context} {n : Nat} {d element : Definition} {elements : List Json}
    (hk : d.kind = .array (.of element)) :
    judge c (n + 1) [] d (.array elements) =
      array (fun path => judge c n path element) [] d (.array elements) := by
  simp [judge_succ, step, Json.isNull, hk]

/-- What is told further down is told of a tag just where it is told so here. -/
theorem under_mem_tags_iff {tags : List Path} {place : Path} (s : PathSegment) :
    (i.under (s :: place)).path ∈ tags.map (s :: ·) ↔ (i.under place).path ∈ tags := by
  simp

/-- One fault in an object causes one issue, at any level of the walk. -/
theorem unexcused_of_fault {c : Context} {shape : List Field} {members faulty : Keyed Json}
    {tags : List Path} {place : Path} {d : Definition} {j : Json} {i : Issue} (n : Nat)
    (excused : List String)
    (apart : d.Throughout c.view fun e => (e.fields.map (Field.wireName c.case)).Nodup)
    (described : Describes c shape members tags place d j)
    (fault : Faulty c.case shape members faulty i)
    (free : i.code = .fieldUnknown → (i.under place).path ∉ tags)
    (counted : ¬ Excused excused (i.under place)) (clean : CleanBy (judge c n) excused d j) :
    unexcused excused (judge c n [] d (j.replaceAt place (.object faulty))).issues =
      [i.under place] := by
  -- Each tag on the way excuses its key from what is told at the object that holds the tag, so the
  -- excused keys change with the level. A member or an element starts with none again.
  induction described generalizing n excused with
  | object hk =>
    obtain ⟨n, rfl⟩ := level_of_cleanBy clean
    rw [cleanBy_object_iff hk] at clean
    have distinct : (shape.map (Field.wireName c.case)).Nodup :=
      Definition.fields_of_object hk ▸ apart.self
    rw [Json.replaceAt, judge_object hk]
    exact unexcused_object_of_fault (placed_judge c n) clean distinct fault counted
  | reference hk hd h ih =>
    obtain ⟨n, rfl⟩ := level_of_cleanBy clean
    obtain ⟨present, present'⟩ := h.replaceAt_not_null faulty
    rw [CleanBy, judge_reference hk hd present] at clean
    rw [judge_reference hk hd present']
    exact ih n excused (apart.reference hk hd) free counted clean
  | member hk hf hm h ih =>
    obtain ⟨n, rfl⟩ := level_of_cleanBy clean
    rw [cleanBy_object_iff hk] at clean
    have below := ih n [] (apart.field hk hf) (by simpa only [under_mem_tags_iff] using free)
      (not_excused_nil _) (clean.present _ hf _ hm)
    rw [unexcused_nil] at below
    have distinct := Definition.fields_of_object hk ▸ apart.self
    rw [Json.replaceAt, judge_object hk,
      unexcused_object_modify (placed_judge c n) _ clean distinct hf hm, below]
    exact unexcused_singleton counted
  | @element _ _ _ element _ _ _ hk hi h ih =>
    obtain ⟨n, rfl⟩ := level_of_cleanBy clean
    obtain ⟨counts, clean⟩ := (cleanBy_elements_iff hk).mp clean
    have below := ih n [] (apart.element hk) (by simpa only [under_mem_tags_iff] using free)
      (not_excused_nil _) (clean _ (List.mem_of_getElem? hi))
    rw [unexcused_nil] at below
    have alone := issues_array_modify (fun path => judge c n path element)
      (fun p q => placed_judge c n p q element) counts
      (fun m hm => (clean_nil_iff _).mp (clean m hm)) hi
    rw [Json.replaceAt, judge_elements hk, alone, below]
    exact unexcused_singleton counted
  | @shapes _ place _ fields elements _ _ hk hi h ih =>
    obtain ⟨n, rfl⟩ := level_of_cleanBy clean
    obtain ⟨counts, clean⟩ := (cleanBy_shapes_iff hk).mp clean
    have distinct := Definition.fields_of_shapes hk ▸ apart.self
    have below := ih (n - 1 + 1) [] (apart.shapes hk distinct)
      (by simpa only [under_mem_tags_iff] using free) (not_excused_nil _)
      (clean _ (List.mem_of_getElem? hi))
    have none : ∀ m ∈ elements, (object c.case (judge c (n - 1)) [] fields m).issues = [] := by
      intro m hm
      obtain ⟨ms, rfl⟩ := exists_object_of_cleanBy (clean m hm)
      rw [← judge_object (d := .object fields) rfl]
      exact (clean_nil_iff _).mp (clean _ hm)
    obtain ⟨ms, rfl⟩ := exists_object_of_cleanBy (clean _ (List.mem_of_getElem? hi))
    obtain ⟨changed, same⟩ := Json.exists_object_replaceAt ms faulty place
    rw [unexcused_nil, same, judge_object (d := .object fields) rfl] at below
    have alone := issues_array_modify (fun path => object c.case (judge c (n - 1)) path fields)
      (fun p q => object_under c.case (placed_judge c (n - 1)) p q fields) counts none hi
    rw [Json.replaceAt, judge_array hk, alone, same, below]
    exact unexcused_singleton counted
  | @tagged _ place _ key _ siblings _ _ hk ht hv h ih =>
    obtain ⟨n, rfl⟩ := level_of_cleanBy clean
    rw [cleanBy_tagged_iff hk ht hv] at clean
    obtain ⟨changed, same⟩ := Json.exists_object_replaceAt siblings faulty place
    rw [same, judge_union hk]
    by_cases gone : (i.under place).path = [.key (c.case.apply key)]
    · -- The tag itself is at fault. It can only be missing, and then no variant is asked.
      obtain ⟨wire, at_key⟩ := fault.exists_key
      obtain rfl : place = [] := by
        rw [Issue.under_path, at_key] at gone
        exact (List.append_eq_singleton_iff.mp gone).elim And.left fun h => by cases h.2
      cases same
      cases fault with
      | @missing f =>
        have spelled : f.wireName c.case = c.case.apply key := by
          simpa [Issue.required] using gone
        have lacks : Keyed.get? (Keyed.erase (f.wireName c.case) members) (c.case.apply key) =
            none := by rw [Keyed.get?_erase, if_pos spelled.symm]
        rw [issues_taggedUnion_of_absent lacks, ← spelled]
        exact unexcused_singleton counted
      | unknown => exact absurd (gone ▸ List.mem_cons_self) (free rfl)
    · have below := ih n (c.case.apply key :: excused)
        (apart.variant hk (List.mem_of_find?_eq_some hv))
        (fun unknown => free unknown ∘ List.mem_cons_of_mem _) ?_ clean
      · rw [unexcused_taggedUnion (h.tag_kept fault ht same gone) hv, ← same, below]
      · rintro ⟨unknown, wire, hw, at_wire⟩
        rcases List.mem_cons.mp hw with rfl | hw
        · exact gone at_wire
        · exact counted ⟨unknown, wire, hw, at_wire⟩

end Validation

/-- From a payload that is fine, a key is deleted that its field cannot do without, or a key is
added that no field has and no union around it reads: that is told at the place of the key, and
nothing else is. -/
theorem one_issue_of_fault (c : Context) {shape : List Field} {members : Keyed Json}
    {tags : List Path} {place : Path} {d : Definition} {j : Json}
    (apart : d.Throughout c.view fun e => (e.fields.map (Field.wireName c.case)).Nodup)
    (accepted : c.accepts d j = true) (described : Describes c shape members tags place d j) :
    (∀ f ∈ shape, f.definition.optional = false → f.definition.default? = none →
      let faulty := Keyed.erase (f.wireName c.case) members
      (c.validate d (j.replaceAt place (.object faulty))).issues =
        [.required (place ++ [.key (f.wireName c.case)])]) ∧
    ∀ key value, key ∉ shape.map (Field.wireName c.case) → place ++ [.key key] ∉ tags →
      let faulty := Keyed.insert key value members
      (c.validate d (j.replaceAt place (.object faulty))).issues =
        [.unknownField (place ++ [.key key])] := by
  have clean : CleanBy (judge c (nestingLimit + 1)) [] d j :=
    (clean_nil_iff _).mpr (List.isEmpty_iff.mp accepted)
  have told {faulty : Keyed Json} {i : Issue} (fault : Faulty c.case shape members faulty i)
      (free : i.code = .fieldUnknown → (i.under place).path ∉ tags) :
      (c.validate d (j.replaceAt place (.object faulty))).issues = [i.under place] := by
    have alone := unexcused_of_fault _ [] apart described fault free (not_excused_nil _) clean
    rwa [unexcused_nil] at alone
  constructor
  · intro f hf needed bare
    exact told (.missing hf needed bare) nofun
  · intro key value undeclared free
    exact told (.unknown value undeclared) fun _ => free

def cardNo : Field := { name := "card_no", definition := .scalar .string }

def cardCharge : Definition :=
  .taggedUnion "charge_kind" [{
    tag := some "card"
    definition := .taggedUnion "card_network" [{
      tag := some "visa"
      definition := .object [cardNo] }] }]

def billsApi : Context where
  view := {
    registry := { tables := [(.api "bills", [("Charge", .defined ⟨"Charge", cardCharge⟩)])] }
    scope := .api "bills" }
  case := .camel

def itemCharge : Field := { name := "charge", definition := .reference "Charge" }

def billItems : Field :=
  { name := "line_items", definition := { kind := .array (.shape [itemCharge]) } }

def billed (card : Keyed Json) : Json :=
  .object [("lineItems", .array [.object [("charge", .object card)]])]

/-- A charge without the number of its card, or with a note that nothing asks for: one issue each,
at the charge. -/
theorem one_issue_of_billed_fault :
    let card : Keyed Json :=
      [("cardNetwork", .string "visa"), ("cardNo", .string "4"), ("chargeKind", .string "card")]
    let place : Path := [.key "lineItems", .index 0, .key "charge"]
    (billsApi.validate (.object [billItems]) (billed (Keyed.erase "cardNo" card))).issues =
        [.required (place ++ [.key "cardNo"])] ∧
      (billsApi.validate (.object [billItems]) (billed (Keyed.insert "note" .null card))).issues =
        [.unknownField (place ++ [.key "note"])] := by
  intro card place
  have apart : (Definition.object [billItems]).Throughout billsApi.view fun e =>
      (e.fields.map (Field.wireName billsApi.case)).Nodup := by
    intro e he
    have checked : billsApi.view.everywhere
        (fun e => decide (e.fields.map (Field.wireName billsApi.case)).Nodup) 8
          (.object [billItems]) = true := by
      decide +kernel
    exact of_decide_eq_true (View.check_of_occurs checked he)
  have kind : Keyed.get? card (billsApi.case.apply "charge_kind") = some (.string "card") := by
    decide +kernel
  have network : Keyed.get? card (billsApi.case.apply "card_network") = some (.string "visa") := by
    decide +kernel
  have charged : Describes billsApi [cardNo] card _ [] (.reference "Charge") (.object card) :=
    .reference rfl rfl (.tagged rfl kind rfl (.tagged rfl network rfl (.object rfl)))
  have number : cardNo.wireName billsApi.case = "cardNo" := by decide +kernel
  have item : itemCharge.wireName billsApi.case = "charge" := by decide +kernel
  have items : billItems.wireName billsApi.case = "lineItems" := by decide +kernel
  have described : Describes billsApi [cardNo] card _ _ (.object [billItems]) (billed card) :=
    .member rfl (.head _) (by rw [items]; rfl) (.shapes (i := 0) rfl rfl
      (.member rfl (.head _) (by rw [item]; rfl) charged))
  obtain ⟨missing, unknown⟩ := one_issue_of_fault billsApi apart (by decide +kernel) described
  have missing := missing cardNo (.head _) rfl rfl
  have unknown := unknown "note" .null (by decide +kernel) (by decide +kernel)
  rw [items, item, number] at missing
  rw [items, item] at unknown
  exact ⟨missing, unknown⟩

end ApiContract
