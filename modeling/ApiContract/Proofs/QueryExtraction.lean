import ApiContract.Proofs.ReplacedValues

/-!
# Texts of a query

A query is a body whose lists may be written as texts. Extraction splits such a text at its commas
and leaves out an empty text where nothing is required. It comes to fields through objects and
references only. Where it comes to no such text, a query is processed as a body is; and a list of
plain strings that is written as one text comes out of the query as the list.
-/

namespace ApiContract

open Validation

/-- A definition leads to a list by no more references than extraction follows. -/
def View.SeesArray (view : View) (d : Definition) : Prop :=
  ∃ target nullable items, view.deref d = .ok (target, nullable) ∧ target.kind = .array items

/-- Extraction with some levels left comes to a field through the members of some fields, each
inside the one before; the field is the last of them. -/
inductive Definition.Reaches (view : View) (f : Field) : Nat → List Field → Definition → Prop where
  | field {n d target nullable shape} (hd : view.deref d = .ok (target, nullable))
      (hk : target.kind = .object shape) (hf : f ∈ shape) : Reaches view f (n + 1) [f] d
  | inside {n d target nullable shape g way} (hd : view.deref d = .ok (target, nullable))
      (hk : target.kind = .object shape) (hg : g ∈ shape)
      (h : Reaches view f n way g.definition) : Reaches view f (n + 1) (g :: way) d

/-- Extraction comes to a field through an object. -/
theorem Definition.Reaches.exists_object {view : View} {f : Field} {n : Nat} {way : List Field}
    {d : Definition} (h : Definition.Reaches view f n way d) :
    ∃ target nullable shape, view.deref d = .ok (target, nullable) ∧
      target.kind = .object shape ∧ ∃ g rest, way = g :: rest := by
  cases h with
  | field hd hk _ => exact ⟨_, _, _, hd, hk, _, _, rfl⟩
  | inside hd hk _ _ => exact ⟨_, _, _, hd, hk, _, _, rfl⟩

/-- A value that extraction does not leave in a field: an empty text where nothing is required, or a
text for a list. -/
def Field.Reworks (view : View) (f : Field) (j : Json) : Prop :=
  (f.definition.optional = true ∧ j = .string "") ∨
    (view.SeesArray f.definition ∧ ∃ s, j = .string s)

/-! ### Texts and lists -/

namespace Exchange

/-- The pattern of a comma splits as the comma does. -/
theorem splitOn_eq (cs : List Char) : commaSeparated.splitOn cs = cs.splitOn ',' := by
  induction cs with
  | nil => rfl
  | cons c rest ih =>
    rw [commaSeparated.splitOn, ih, List.splitOn_cons_eq_if_modifyHead]
    by_cases hc : c = ','
    · simp [hc]
    · cases hs : rest.splitOn ',' with
      | nil => simp at hs
      | cons part parts => simp [hc]

/-- Strings that are neither empty nor blank at an end nor hold a comma are the parts of the text
that they are joined to by commas. -/
theorem commaSeparated_intercalate {xs : List String} (given : xs ≠ [])
    (plain : ∀ s ∈ xs, s ≠ "" ∧ ',' ∉ s.toList ∧ trim s = s) :
    commaSeparated (",".intercalate xs) = xs := by
  have parts : commaSeparated.splitOn (",".intercalate xs).toList = xs.map String.toList := by
    rw [splitOn_eq, String.toList_intercalate]
    apply List.splitOn_intercalate
    · simpa using fun s hs => (plain s hs).2.1
    · simpa using given
  have trimmed : (xs.map String.toList).map trimChars = xs.map String.toList := by
    rw [List.map_map]
    apply List.map_congr_left
    intro s hs
    have same := congrArg String.toList (plain s hs).2.2
    rwa [trim, String.toList_ofList] at same
  have kept : (xs.map String.toList).filter (!·.isEmpty) = xs.map String.toList := by
    rw [List.filter_eq_self]
    simpa using fun s hs => (plain s hs).1
  rw [commaSeparated, parts, trimmed, kept, List.map_map]
  simp

theorem intercalate_ne_empty {xs : List String} (given : xs ≠ [])
    (plain : ∀ s ∈ xs, s ≠ "") : ",".intercalate xs ≠ "" := by
  cases xs with
  | nil => exact absurd rfl given
  | cons s rest =>
    have hs := plain s List.mem_cons_self
    cases rest with
    | nil => simpa using hs
    | cons t rest => simp [String.intercalate_cons_cons]

/-! ### One field -/

variable {view : View} {extract : Definition → Json → Json} {f : Field}

theorem extractMember_text (array : view.SeesArray f.definition) {s : String} (given : s ≠ "") :
    extractMember view extract f (.string s) = some (.strings (commaSeparated s)) := by
  obtain ⟨target, nullable, items, hd, hk⟩ := array
  simp [extractMember, Json.string?, given, hd, hk]

theorem extractMember_object {target : Definition} {nullable : Bool} {shape : List Field}
    (hd : view.deref f.definition = .ok (target, nullable)) (hk : target.kind = .object shape)
    (members : Keyed Json) :
    extractMember view extract f (.object members) =
      some (extract f.definition (.object members)) := by
  simp [extractMember, Json.string?, hd, hk]

/-- Following no reference succeeds. -/
theorem kind_of_deref_error {d : Definition} {e : ConfigurationError}
    (h : view.deref d = .error e) : ∃ target, d.kind = .reference target := by
  rw [View.deref, Registry.maxHops, View.derefWithin] at h
  cases hk : d.kind with
  | reference target => exact ⟨target, rfl⟩
  | _ => simp [hk] at h

/-- A value that is not for extraction to change stays in its field. -/
theorem extractMember_eq_self {j : Json} (stays : ¬ f.Reworks view j)
    (inner : extract f.definition j = j) : extractMember view extract f j = some j := by
  have given : ¬ (f.definition.optional && j.string? == some "") = true := by
    intro empty
    obtain ⟨ho, hj⟩ := Bool.and_eq_true_iff.mp empty
    refine stays (.inl ⟨ho, ?_⟩)
    cases j <;> simp_all [Json.string?]
  rw [extractMember, if_neg given]
  dsimp only
  split
  · rename_i s hk
    cases hd : view.deref f.definition with
    | ok p =>
      rw [hd] at hk
      exact absurd (.inr ⟨⟨_, _, _, hd, hk⟩, s, rfl⟩) stays
    | error e =>
      obtain ⟨target, ht⟩ := kind_of_deref_error hd
      rw [hd] at hk
      cases ht.symm.trans hk
  · rw [inner]
  · rfl

/-! ### The members of an object -/

variable {c : Context} {shape : List Field} {members changed : Keyed Json}

def extractField (c : Context) (extract : Definition → Json → Json) (members : Keyed Json)
    (f : Field) : Keyed Json :=
  match members.get? (f.wireName c.case) with
  | none => members
  | some j =>
    match extractMember c.view extract f j with
    | some j => Keyed.modify (f.wireName c.case) (fun _ => j) members
    | none => members.erase (f.wireName c.case)

theorem extractMembers_eq (c : Context) (extract : Definition → Json → Json) (shape : List Field)
    (members : Keyed Json) :
    extractMembers c extract shape members = shape.foldl (extractField c extract) members := rfl

/-- Reading one field changes the member under its key only. -/
theorem get?_extractField (f : Field) (key : String) :
    Keyed.get? (extractField c extract members f) key =
      if key = f.wireName c.case then
        (Keyed.get? members key).bind (extractMember c.view extract f)
      else Keyed.get? members key := by
  unfold extractField
  cases hx : Keyed.get? members (f.wireName c.case) with
  | none =>
    by_cases hk : key = f.wireName c.case
    · simp [hk, hx]
    · simp [hk]
  | some j =>
    cases hj : extractMember c.view extract f j with
    | none =>
      by_cases hk : key = f.wireName c.case
      · simp [hk, hx, hj, Keyed.get?_erase]
      · simp [hk, hj, Keyed.get?_erase]
    | some j' =>
      by_cases hk : key = f.wireName c.case
      · simp [hk, hx, hj, Keyed.get?_modify]
      · simp [hk, hj, Keyed.get?_modify]

/-- What extraction makes of a member depends on the member only. -/
theorem get?_extractMembers_congr {key : String}
    (same : Keyed.get? changed key = Keyed.get? members key) :
    Keyed.get? (extractMembers c extract shape changed) key =
      Keyed.get? (extractMembers c extract shape members) key := by
  rw [extractMembers_eq, extractMembers_eq]
  induction shape generalizing members changed with
  | nil => exact same
  | cons g rest ih =>
    apply ih
    rw [get?_extractField, get?_extractField, same]

theorem get?_extractMembers_of_not_mem {key : String}
    (h : ∀ g ∈ shape, g.wireName c.case ≠ key) :
    Keyed.get? (extractMembers c extract shape members) key = Keyed.get? members key := by
  rw [extractMembers_eq]
  induction shape generalizing members with
  | nil => rfl
  | cons g rest ih =>
    rw [List.foldl_cons, ih fun g' hg => h g' (List.mem_cons_of_mem g hg), get?_extractField,
      if_neg (h g List.mem_cons_self).symm]

theorem get?_extractMembers_alone (alone : f.AloneIn c.case shape) :
    Keyed.get? (extractMembers c extract shape members) (f.wireName c.case) =
      (Keyed.get? members (f.wireName c.case)).bind (extractMember c.view extract f) := by
  obtain ⟨front, back, rfl, apart⟩ := alone
  rw [extractMembers_eq, List.foldl_append, List.foldl_cons, ← extractMembers_eq,
    ← extractMembers_eq,
    get?_extractMembers_of_not_mem fun g hg => (apart g (List.mem_append_right front hg)).2,
    get?_extractField, if_pos rfl,
    get?_extractMembers_of_not_mem fun g hg => (apart g (List.mem_append_left back hg)).2]

/-- Members that stay as they are leave the object as it is. -/
theorem extractMembers_eq_self
    (stays : ∀ f ∈ shape, ∀ j, Keyed.get? members (f.wireName c.case) = some j →
      extractMember c.view extract f j = some j) :
    extractMembers c extract shape members = members := by
  rw [extractMembers_eq]
  induction shape with
  | nil => rfl
  | cons g rest ih =>
    have same : extractField c extract members g = members := by
      unfold extractField
      cases hx : Keyed.get? members (g.wireName c.case) with
      | none => rfl
      | some j =>
        simp only [stays g List.mem_cons_self j hx]
        apply Keyed.modify_eq_self
        rintro v hv
        exact Option.some.inj (hx.symm.trans hv)
    rw [List.foldl_cons, same]
    exact ih fun f hf => stays f (List.mem_cons_of_mem g hf)

/-! ### A whole query -/

theorem extractWithin_object {n : Nat} {d target : Definition} {nullable : Bool}
    (hd : c.view.deref d = .ok (target, nullable)) (hk : target.kind = .object shape)
    (members : Keyed Json) :
    extractWithin c (n + 1) d (.object members) =
      .object (extractMembers c (extractWithin c n) shape members) := by
  simp [extractWithin, hd, Definition.shape?, hk]

/-- A query stays as it is if extraction comes to no value that is to change. -/
theorem extractWithin_eq_self {n : Nat} {d : Definition} {j : Json}
    (stays : ∀ f way, Definition.Reaches c.view f n way d → ∀ x,
      j.at? (way.map (Field.wireName c.case)) = some x → ¬ f.Reworks c.view x) :
    extractWithin c n d j = j := by
  induction n generalizing d j with
  | zero => rfl
  | succ n ih =>
    unfold extractWithin
    split
    · rename_i target nullable members hd
      split
      · rename_i shape hs
        have hk : target.kind = .object shape := by
          unfold Definition.shape? at hs
          split at hs <;> simp_all
        rw [extractMembers_eq_self]
        intro g hg x hx
        refine extractMember_eq_self (stays g [g] (.field hd hk hg) x ?_) (ih ?_)
        · simpa [Json.at?, Json.get?] using hx
        · intro f way h y hy
          refine stays f (g :: way) (.inside hd hk hg h) y ?_
          rw [List.map_cons, Json.at?, List.foldlM_cons, Json.get?, hx]
          exact hy
      · rfl
    · rfl


/-- The references that extraction follows lead to the shape in which the first field is alone. -/
theorem aloneIn_of_deref {ts : Transformers} {e d target : Definition} {g : Field}
    {way : List Field} {k : Nat} {nullable : Bool}
    (holds : Definition.HoldsAt c ts e (g :: way) k d)
    (hd : c.view.deref d = .ok (target, nullable)) (hk : target.kind = .object shape) :
    g.AloneIn c.case shape ∧ ∃ k, Definition.HoldsAt c ts e way k g.definition := by
  rw [View.deref] at hd
  generalize d.target?.getD "" = name, Registry.maxHops = hops, d.nullable = seen at hd
  generalize hw : g :: way = fields at holds
  induction holds generalizing hops seen with
  | here => cases hw
  | reference hr ht _ _ ih =>
    cases hops with
    | zero => cases hd
    | succ hops =>
      rw [View.derefWithin, hr] at hd
      obtain ⟨t, hn, hd⟩ := Except.bind_eq_ok hd
      rw [View.definition?, hn] at ht
      cases ht
      exact ih hops _ hd hw
  | field ho alone _ below =>
    cases hw
    cases hops with
    | zero => cases hd
    | succ hops =>
      rw [View.derefWithin, ho] at hd
      cases hd
      cases ho.symm.trans hk
      exact ⟨alone, _, below⟩

/-- A text that is put into a list's field of a query stands as a list in what is extracted. -/
theorem putAt_extractWithin {ts : Transformers} {e d : Definition} {way : List Field} {k n : Nat}
    (reaches : Definition.Reaches c.view f n way d)
    (holds : Definition.HoldsAt c ts e way k d) (array : c.view.SeesArray f.definition)
    {s : String} (given : s ≠ "") {old new : Json}
    (put : Json.PutAt (.string s) (way.map (Field.wireName c.case)) (some old) new) :
    Json.PutAt (.strings (commaSeparated s)) (way.map (Field.wireName c.case))
      (some (extractWithin c n d old)) (extractWithin c n d new) := by
  induction reaches generalizing old new k with
  | field hd hk _ =>
    obtain ⟨alone, -⟩ := aloneIn_of_deref holds hd hk
    cases put with
    | inside there below others =>
      cases below
      rw [extractWithin_object hd hk, extractWithin_object hd hk]
      refine .inside ?_ .here fun other ne => get?_extractMembers_congr (others other ne)
      rw [get?_extractMembers_alone alone, there]
      exact extractMember_text array given
  | @inside n d target nullable shape g way hd hk _ reaches ih =>
    obtain ⟨alone, k, holds⟩ := aloneIn_of_deref holds hd hk
    cases put with
    | @inside _ _ members changed _ there below others =>
      obtain ⟨target', nullable', shape', hd', hk', g', way', rfl⟩ := reaches.exists_object
      obtain ⟨inner, inner', hi, rfl⟩ := below.exists_objects
      rw [hi] at below
      have before : Keyed.get? (extractMembers c (extractWithin c n) shape members)
          (g.wireName c.case) = some (extractWithin c n g.definition (.object inner)) := by
        rw [get?_extractMembers_alone alone, hi]
        exact extractMember_object hd' hk' inner
      have after : Keyed.get? (extractMembers c (extractWithin c n) shape changed)
          (g.wireName c.case) = some (extractWithin c n g.definition (.object inner')) := by
        rw [get?_extractMembers_alone alone, there]
        exact extractMember_object hd' hk' inner'
      rw [extractWithin_object hd hk, extractWithin_object hd hk]
      refine .inside after ?_ fun other ne => get?_extractMembers_congr (others other ne)
      rw [before]
      exact ih holds below

end Exchange

/-! ### Plain strings -/

/-- A definition of strings that bounds nothing, lists no values, has no format and names no
transformer, behind so many references. -/
inductive Definition.PlainText (view : View) : Nat → Definition → Prop where
  | scalar {d} (hk : d.kind = .scalar .string) (least : d.min = none) (greatest : d.max = none)
      (format : d.format = none) (allowed : d.allowed = none) (undecoded : d.decode = none) :
      PlainText view 0 d
  | reference {m d target definition} (hk : d.kind = .reference target)
      (hd : view.definition? target = some definition) (undecoded : d.decode = none)
      (h : PlainText view m definition) : PlainText view (m + 1) d

/-- A definition of lists of such strings, which stand so many levels further down. -/
inductive Definition.PlainTexts (view : View) : Nat → Definition → Prop where
  | array {m d element} (hk : d.kind = .array (.of element)) (least : d.min = none)
      (greatest : d.max = none) (undecoded : d.decode = none) (h : element.PlainText view m) :
      PlainTexts view (m + 1) d
  | reference {m d target definition} (hk : d.kind = .reference target)
      (hd : view.definition? target = some definition) (undecoded : d.decode = none)
      (h : PlainTexts view m definition) : PlainTexts view (m + 1) d

namespace Definition

variable {c : Context} {ts : Transformers} {n : Nat} {d : Definition} {v : Json}

/-- What passes behind a reference passes the reference. -/
theorem Passes.reference {target : String} {definition : Definition}
    (h : definition.Passes c ts n v) (present : v.isNull = false)
    (hk : d.kind = .reference target) (hd : c.view.definition? target = some definition)
    (undecoded : d.decode = none) : d.Passes c ts (n + 1) v where
  converted m := by
    cases m with
    | zero => rfl
    | succ m => simp [Coercion.convert_succ, Coercion.step, present, hk, hd, h.converted m]
  clean := (cleanBy_reference_iff hk (by simp [present])).mpr ⟨definition, hd, h.clean⟩
  param := (paramsWithin_reference hk hd present).trans h.param
  decoded m := by
    cases m with
    | zero => rfl
    | succ m =>
      apply Transformation.transform_of_inside present _ (Transformers.decodeOwn_none undecoded v)
      rw [Transformation.inside_reference hk hd]
      exact h.decoded m

/-- A list passes if its elements do and are as many as they should be. -/
theorem Passes.elements {element : Definition} {xs : List Json}
    (h : ∀ x ∈ xs, element.Passes c ts n x) (hk : d.kind = .array (.of element))
    (counts : d.Counts xs) (undecoded : d.decode = none) : d.Passes c ts (n + 1) (.array xs) where
  converted m := by
    cases m with
    | zero => rfl
    | succ m =>
      have same : xs.map (Coercion.convert c m element) = xs :=
        (List.map_congr_left fun x hx => (h x hx).converted m).trans xs.map_id
      simp [Coercion.convert_succ, Coercion.step, Json.isNull, hk, Coercion.array, same]
  clean := (cleanBy_elements_iff hk).mpr ⟨counts, fun x hx => (h x hx).clean⟩
  param := by
    rw [paramsWithin_elements hk]
    exact congrArg Json.array
      ((List.map_congr_left fun x hx => (h x hx).param).trans xs.map_id)
  decoded m := by
    cases m with
    | zero => rfl
    | succ m =>
      apply Transformation.transform_of_inside rfl _ (Transformers.decodeOwn_none undecoded _)
      rw [Transformation.inside_array hk, Transformation.array,
        Except.mapM_eq_self fun x hx => (h x hx).decoded m]
      rfl

/-- A plain text passes, whatever it says. -/
theorem PlainText.passes {m : Nat} (h : d.PlainText c.view m) (few : m < n) (s : String) :
    d.Passes c ts n (.string s) := by
  induction h generalizing n with
  | @scalar d hk least greatest format allowed undecoded =>
    obtain ⟨n, rfl⟩ : ∃ k, n = k + 1 := ⟨n - 1, by omega⟩
    have meets : MeetsScalar c.view d .string (.string s) :=
      { ofKind := rfl
        value := by intro numeric; cases numeric
        length := fun _ _ _ _ _ => ⟨by simp [least], by simp [greatest]⟩
        format := by simp [format]
        allowed := by simp [allowedValues?, allowed] }
    have clean : CleanBy (judge c (n + 1)) [] d (.string s) := by
      rw [cleanBy_judge_iff_stepMeets c n [] rfl]
      unfold StepMeets
      rw [hk]
      exact ⟨by simp, meets⟩
    refine ⟨fun m => ?_, clean, paramsWithin_string clean, fun m => ?_⟩
    · cases m with
      | zero => rfl
      | succ m =>
        have same : Coercion.scalar .string (.string s) = .string s :=
          ScalarKind.coerce?_of_hasKind rfl
        simp [Coercion.convert_succ, Coercion.step, Json.isNull, hk, same]
    · cases m with
      | zero => rfl
      | succ m =>
        exact Transformation.transform_of_inside rfl (Transformation.inside_leaf (.inl ⟨_, hk⟩))
          (Transformers.decodeOwn_none undecoded _)
  | reference hk hd undecoded _ ih =>
    obtain ⟨n, rfl⟩ : ∃ k, n = k + 1 := ⟨n - 1, by omega⟩
    exact (ih (by omega)).reference rfl hk hd undecoded

theorem PlainTexts.passes {m : Nat} (h : d.PlainTexts c.view m) (few : m < n) (xs : List String) :
    d.Passes c ts n (.strings xs) := by
  induction h generalizing n with
  | array hk least greatest undecoded h =>
    obtain ⟨n, rfl⟩ : ∃ k, n = k + 1 := ⟨n - 1, by omega⟩
    refine .elements ?_ hk (fun _ _ => ⟨by simp [least], by simp [greatest]⟩) undecoded
    intro x hx
    obtain ⟨s, -, rfl⟩ := List.mem_map.mp hx
    exact h.passes (by omega) s
  | reference hk hd undecoded _ ih =>
    obtain ⟨n, rfl⟩ : ∃ k, n = k + 1 := ⟨n - 1, by omega⟩
    exact (ih (by omega)).reference rfl hk hd undecoded

end Definition

/-! ### Queries and bodies -/

namespace Exchange

/-- A query is processed as the body that is extracted from it. -/
theorem process_query (x : Exchange) (d : Definition) (raw : Json) :
    x.process .query d raw =
      x.process .body d (extractWithin (x.context .query) (nestingLimit + 1) d raw) := rfl

/-- What comes in without issues, as it can be computed. -/
theorem exists_params (x : Exchange) (direction : Direction) (d : Definition) (raw : Json)
    (h : ((x.process direction d raw).toOption.map fun v => v.issues.isEmpty) = some true) :
    ∃ params, x.process direction d raw = .ok ⟨params, []⟩ := by
  cases hv : x.process direction d raw with
  | error e =>
    rw [hv] at h
    cases h
  | ok v =>
    rw [hv] at h
    obtain ⟨params, issues⟩ := v
    obtain rfl := List.isEmpty_iff.mp (Option.some.inj h)
    exact ⟨params, rfl⟩

/-- A list of plain strings comes out of a query if it is written as one text, under the keys of
some fields, in a query that is accepted otherwise. -/
def ReadsListAt (x : Exchange) (d : Definition) (way : List Field) : Prop :=
  ∀ raw params, x.process .query d raw = .ok ⟨params, []⟩ →
    ∀ xs : List String, xs ≠ [] → (∀ s ∈ xs, s ≠ "" ∧ ',' ∉ s.toList ∧ trim s = s) →
      ∀ query, Json.PutAt (.string (",".intercalate xs))
          (way.map (Field.wireName (x.context .query).case)) (some raw) query →
        ∃ params', x.process .query d query = .ok ⟨params', []⟩ ∧
          params'.at? (way.map Field.name) = some (.strings xs)

end Exchange

/-- Extraction changes nothing but empty texts and texts for lists. What it makes of the text of a
list is the list, where the fields on the way stand alone in their shapes, no object on the way is
decoded into something else, and the strings stand within the nesting limit. -/
theorem lists_of_texts (x : Exchange) (d : Definition) :
    (∀ raw : Json, (∀ f way, Definition.Reaches x.view f (nestingLimit + 1) way d →
        ∀ j, raw.at? (way.map (Field.wireName (x.context .query).case)) = some j →
          ¬ f.Reworks x.view j) →
      x.process .query d raw = x.process .body d raw) ∧
    ∀ f way, Definition.Reaches x.view f (nestingLimit + 1) way d →
      x.view.SeesArray f.definition → ∀ m, f.definition.PlainTexts x.view m →
        ∀ k, Definition.HoldsAt (x.context .query) x.transformers f.definition way k d →
          k + m ≤ nestingLimit → x.ReadsListAt d way := by
  constructor
  · intro raw stays
    rw [x.process_query, Exchange.extractWithin_eq_self stays]
  · intro f way reaches array m plain k holds shallow raw params accepted xs given parts query put
    have text : ",".intercalate xs ≠ "" :=
      Exchange.intercalate_ne_empty given fun s hs => (parts s hs).1
    have extracted := Exchange.putAt_extractWithin reaches holds array text put
    rw [Exchange.commaSeparated_intercalate given parts] at extracted
    obtain ⟨n, levels⟩ : ∃ n, n + k = nestingLimit + 1 := ⟨nestingLimit + 1 - k, by omega⟩
    obtain ⟨params', hp, there⟩ := Exchange.process_body_put holds levels
      (plain.passes (by omega) xs) accepted extracted
    exact ⟨params', hp, there.at?⟩

/-! ### A search for cards -/

def cardNos : Field :=
  { name := "card_nos", definition := (Definition.arrayOf (.scalar .string)).orAbsent }

def cardFilter : Definition := { Definition.object [cardNos] with decode := some "blank_to_null" }

def filterField : Field := { name := "filter_by", definition := .reference "CardFilter" }

def pageField : Field := { name := "page", definition := (Definition.scalar .integer).orAbsent }

def cardSearch : Definition := .object [filterField, pageField]

def searches : Exchange where
  view := ⟨Registry.empty.put .global "CardFilter" (.defined ⟨"CardFilter", cardFilter⟩),
    .api "billing"⟩
  config := { keyCase := .camel }

def searchFor (numbers : Json) : Json :=
  .object [("filterBy", .object [("cardNos", numbers)]), ("page", .string "2")]

theorem searches_filter : searches.view.definition? "CardFilter" = some cardFilter := rfl

theorem searches_keys :
    filterField.wireName (searches.context .query).case = "filterBy" ∧
      pageField.wireName (searches.context .query).case = "page" ∧
      cardNos.wireName (searches.context .query).case = "cardNos" := by
  decide +kernel

theorem deref_cardSearch : searches.view.deref cardSearch = .ok (cardSearch, false) := rfl

theorem deref_filter : searches.view.deref filterField.definition = .ok (cardFilter, false) := rfl

theorem deref_cardNos :
    searches.view.deref cardNos.definition = .ok (cardNos.definition, false) := rfl

theorem deref_page :
    searches.view.deref pageField.definition = .ok (pageField.definition, false) := rfl

/-- Extraction comes to three fields of a search. -/
theorem reaches_cardSearch {f : Field} {n : Nat} {way : List Field}
    (h : Definition.Reaches searches.view f n way cardSearch) :
    (f = filterField ∧ way = [filterField]) ∨ (f = pageField ∧ way = [pageField]) ∨
      (f = cardNos ∧ way = [filterField, cardNos]) := by
  cases h with
  | field hd hk hf =>
    cases hd.symm.trans deref_cardSearch
    cases hk
    rcases List.mem_cons.mp hf with rfl | hf
    · exact .inl ⟨rfl, rfl⟩
    · obtain rfl := List.mem_singleton.mp hf
      exact .inr (.inl ⟨rfl, rfl⟩)
  | inside hd hk hg below =>
    cases hd.symm.trans deref_cardSearch
    cases hk
    rcases List.mem_cons.mp hg with rfl | hg
    · cases below with
      | field hd hk hf =>
        cases hd.symm.trans deref_filter
        cases hk
        obtain rfl := List.mem_singleton.mp hf
        exact .inr (.inr ⟨rfl, rfl⟩)
      | inside hd hk hg below =>
        cases hd.symm.trans deref_filter
        cases hk
        obtain rfl := List.mem_singleton.mp hg
        obtain ⟨target, nullable, shape, hd, hk, -⟩ := below.exists_object
        cases hd.symm.trans deref_cardNos
        cases hk
    · obtain rfl := List.mem_singleton.mp hg
      obtain ⟨target, nullable, shape, hd, hk, -⟩ := below.exists_object
      cases hd.symm.trans deref_page
      cases hk

theorem aloneIn_singleton (case : KeyCase) (f : Field) : f.AloneIn case [f] :=
  ⟨[], [], rfl, nofun⟩

/-- The numbers of cards stand in a filter of the search. -/
theorem holdsAt_cardNos : Definition.HoldsAt (searches.context .query) searches.transformers
    cardNos.definition [filterField, cardNos] 3 cardSearch := by
  have keeps : ∀ d : Definition, d.decode = none ∨ d.decode = some "blank_to_null" →
      searches.transformers.KeepsObjects d := by
    intro d hd
    apply Transformers.keepsObjects_builtin
    rintro name hn
    rcases hd with hd | hd <;> cases hd.symm.trans hn
    decide
  obtain ⟨filter, page, -⟩ := searches_keys
  refine .field rfl ⟨[], [pageField], rfl, ?_⟩ (keeps _ (.inl rfl))
    (.reference rfl searches_filter (keeps _ (.inl rfl))
      (.field rfl (aloneIn_singleton _ cardNos) (keeps _ (.inr rfl)) .here))
  intro g hg
  obtain rfl := List.mem_singleton.mp hg
  rw [filter, page]
  decide

/-- What a search with a list is processed to is what a body is; and the list may be a text. -/
theorem cardSearch_read :
    searches.process .query cardSearch (searchFor (.strings ["4242"])) =
      searches.process .body cardSearch (searchFor (.strings ["4242"])) ∧
    ∃ params, searches.process .query cardSearch (searchFor (.string "1881,4242")) =
        .ok ⟨params, []⟩ ∧
      params.at? ["filter_by", "card_nos"] = some (.strings ["1881", "4242"]) := by
  obtain ⟨filter, page, nos⟩ := searches_keys
  obtain ⟨inert, read⟩ := lists_of_texts searches cardSearch
  constructor
  · apply inert
    rintro f way reaches j found (⟨ho, rfl⟩ | ⟨⟨target, nullable, items, hd, hk⟩, s, rfl⟩)
    · obtain ⟨rfl, rfl⟩ | ⟨rfl, rfl⟩ | ⟨rfl, rfl⟩ := reaches_cardSearch reaches
      · cases ho
      · rw [List.map_singleton, page] at found
        exact absurd found (by decide +kernel)
      · rw [List.map_cons, List.map_singleton, filter, nos] at found
        cases found
    · obtain ⟨rfl, rfl⟩ | ⟨rfl, rfl⟩ | ⟨rfl, rfl⟩ := reaches_cardSearch reaches
      · cases hd.symm.trans deref_filter
        cases hk
      · cases hd.symm.trans deref_page
        cases hk
      · rw [List.map_cons, List.map_singleton, filter, nos] at found
        cases found
  · obtain ⟨params, accepted⟩ := searches.exists_params .query cardSearch
      (searchFor (.strings ["4242"])) (by decide +kernel)
    have reaches : Definition.Reaches searches.view cardNos (nestingLimit + 1)
        [filterField, cardNos] cardSearch :=
      .inside deref_cardSearch rfl List.mem_cons_self
        (.field deref_filter rfl (List.mem_singleton.mpr rfl))
    refine read cardNos [filterField, cardNos] reaches ⟨_, _, _, deref_cardNos, rfl⟩ 1
      (.array rfl rfl rfl rfl (.scalar rfl rfl rfl rfl rfl rfl)) 3 holdsAt_cardNos (by decide)
      _ params accepted ["1881", "4242"] (by decide) (by decide +kernel) _ ?_
    rw [List.map_cons, List.map_singleton, filter, nos]
    refine .inside rfl (.inside rfl .here fun other ne => ?_) fun other ne => ?_
    · simp only [Keyed.get?_cons, if_neg ne]
    · simp only [Keyed.get?_cons, if_neg ne]

/-! ### Lists that are lost -/

namespace Exchange

/-- Extraction comes to a field of plain strings. -/
def ReachesTexts (x : Exchange) (d : Definition) (way : List Field) : Prop :=
  ∃ f m, Definition.Reaches x.view f (nestingLimit + 1) way d ∧ x.view.SeesArray f.definition ∧
    f.definition.PlainTexts x.view m

/-- One list that does not come out of a query shows that lists need not. -/
theorem not_readsListAt {x : Exchange} {d : Definition} {way : List Field}
    (raw query : Json) (xs : List String)
    (accepted : ((x.process .query d raw).toOption.map fun v => v.issues.isEmpty) = some true)
    (given : xs ≠ []) (parts : ∀ s ∈ xs, s ≠ "" ∧ ',' ∉ s.toList ∧ trim s = s)
    (put : Json.PutAt (.string (",".intercalate xs))
      (way.map (Field.wireName (x.context .query).case)) (some raw) query)
    (lost : ((x.process .query d query).toOption.map fun v =>
      v.issues.isEmpty && v.params.at? (way.map Field.name) == some (.strings xs)) = some false) :
    ¬ x.ReadsListAt d way := by
  intro read
  obtain ⟨params, accepted⟩ := x.exists_params .query d raw accepted
  obtain ⟨params', hp, there⟩ := read raw params accepted xs given parts query put
  rw [hp] at lost
  simp [Except.toOption, there] at lost

end Exchange

def labels : Field := { name := "labels", definition := .arrayOf (.scalar .string) }

def labeledTwice : Definition :=
  .object [labels, { name := "labels", rename := some "label", definition := .scalar .string }]

def oneLabel : Field :=
  { name := "label", rename := some "labels",
    definition := { Definition.arrayOf (.scalar .string) with max := Binary64.ofInt? 1 } }

def keyedTwice : Definition := .object [labels, oneLabel]

def unlabeled : Definition := { Definition.object [labels] with decode := some "drop" }

def folderField : Field :=
  { name := "folder", definition := (Definition.reference "Folder").orAbsent }

def labelsIfAny : Field := { labels with definition := labels.definition.orAbsent }

def folder : Definition := .object [folderField, labelsIfAny]

def filing : Exchange where
  view := ⟨Registry.empty.put .global "Folder" (.defined ⟨"Folder", folder⟩), .global⟩
  config := {}
  transformers := [("drop", fun _ => .null)]

def inFolders : Nat → Json → Json
  | 0, j => j
  | n + 1, j => .object [("folder", inFolders n j)]

theorem deref_folderField :
    filing.view.deref folderField.definition = .ok (folder, false) := rfl

theorem reaches_inFolders (n spare : Nat) {d : Definition}
    (hd : filing.view.deref d = .ok (folder, false)) :
    Definition.Reaches filing.view labelsIfAny (spare + n + 1)
      (List.replicate n folderField ++ [labelsIfAny]) d := by
  induction n generalizing d with
  | zero => exact .field hd rfl (by simp)
  | succ n ih => exact .inside hd rfl (by simp) (ih deref_folderField)

theorem putAt_inFolders (n : Nat) : Json.PutAt (.string "red")
    (List.replicate n "folder" ++ ["labels"]) (some (inFolders n (.object [])))
    (inFolders n (.object [("labels", .string "red")])) := by
  induction n with
  | zero => exact .insert .here
  | succ n ih => exact .insert ih

/-- A list does not come out of a query where another field has its name or its key, where an object
around it is decoded into nothing, or where its strings would stand too deep. -/
theorem lists_lost :
    (filing.ReachesTexts labeledTwice [labels] ∧ ¬ filing.ReadsListAt labeledTwice [labels]) ∧
    (filing.ReachesTexts keyedTwice [labels] ∧ ¬ filing.ReadsListAt keyedTwice [labels]) ∧
    (filing.ReachesTexts unlabeled [labels] ∧ ¬ filing.ReadsListAt unlabeled [labels]) ∧
    (filing.ReachesTexts (.reference "Folder") (List.replicate 63 folderField ++ [labelsIfAny]) ∧
      ¬ filing.ReadsListAt (.reference "Folder")
        (List.replicate 63 folderField ++ [labelsIfAny])) := by
  have plain : labels.definition.PlainTexts filing.view 1 :=
    .array rfl rfl rfl rfl (.scalar rfl rfl rfl rfl rfl rfl)
  have seen : filing.view.SeesArray labels.definition := ⟨_, _, _, rfl, rfl⟩
  have parts : ∀ s ∈ ["red", "blue"], s ≠ "" ∧ ',' ∉ s.toList ∧ trim s = s := by decide +kernel
  refine ⟨⟨⟨labels, 1, .field rfl rfl List.mem_cons_self, seen, plain⟩, ?_⟩,
    ⟨⟨labels, 1, .field rfl rfl List.mem_cons_self, seen, plain⟩, ?_⟩,
    ⟨⟨labels, 1, .field rfl rfl List.mem_cons_self, seen, plain⟩, ?_⟩,
    ⟨⟨labelsIfAny, 1, ?_, ⟨_, _, _, rfl, rfl⟩, .array rfl rfl rfl rfl
      (.scalar rfl rfl rfl rfl rfl rfl)⟩, ?_⟩⟩
  · exact Exchange.not_readsListAt (.object [("label", .string "old"), ("labels", .string "new")])
      _ ["red", "blue"] (by decide +kernel) (by decide) parts (.insert .here) (by decide +kernel)
  · exact Exchange.not_readsListAt (.object [("labels", .string "new")]) _ ["red", "blue"]
      (by decide +kernel) (by decide) parts (.insert .here) (by decide +kernel)
  · exact Exchange.not_readsListAt (.object [("labels", .string "new")]) _ ["red", "blue"]
      (by decide +kernel) (by decide) parts (.insert .here) (by decide +kernel)
  · exact reaches_inFolders 63 65 rfl
  · exact Exchange.not_readsListAt (inFolders 63 (.object []))
      (inFolders 63 (.object [("labels", .string "red")])) ["red"] (by decide +kernel)
      (by decide) (by decide +kernel) (putAt_inFolders 63) (by decide +kernel)

end ApiContract
