import ApiContract.Proofs.CoercedPayload
import ApiContract.Proofs.DecodedVariants
import ApiContract.Proofs.WrittenMembers

/-!
# A value put into an accepted payload

Conversion, validation and decoding work on an object key by key. So a value that goes through each
of them as it is may be put into an accepted payload: it then stands in the params under the names
of the fields that lead to it, and the params are what they were beside it. The fields on the way
must not share their keys or names with others.
-/

namespace ApiContract

open Validation

def Json.at? (j : Json) (keys : List String) : Option Json := keys.foldlM Json.get? j

/-- A value stands under some keys of the second value, which is like the first one everywhere else.
The first one may lack the last key. -/
inductive Json.PutAt (v : Json) : List String → Option Json → Json → Prop where
  | here {old} : PutAt v [] old v
  | inside {key keys members changed new} (there : Keyed.get? changed key = some new)
      (h : PutAt v keys (Keyed.get? members key) new)
      (others : ∀ other, other ≠ key → Keyed.get? changed other = Keyed.get? members other) :
      PutAt v (key :: keys) (some (.object members)) (.object changed)

namespace Json

variable {v : Json} {keys : List String}

theorem PutAt.at? {old : Option Json} {new : Json} (h : PutAt v keys old new) :
    new.at? keys = some v := by
  induction h with
  | here => rfl
  | inside there _ _ ih =>
    rw [Json.at?, List.foldlM_cons, get?, there]
    exact ih

/-- Putting a value under a key again puts there what was put into it. -/
theorem PutAt.insert {key : String} {members : Keyed Json} {new : Json}
    (h : PutAt v keys (Keyed.get? members key) new) :
    PutAt v (key :: keys) (some (.object members)) (.object (Keyed.insert key new members)) :=
  .inside (Keyed.get?_insert_self key new members) h fun other ne => by
    rw [Keyed.get?_insert, if_neg ne]

/-- Where there was no value before, any may have been. -/
theorem PutAt.of_none {new : Json} (h : PutAt v keys none new) (old : Option Json) :
    PutAt v keys old new := by
  cases h
  exact .here

theorem PutAt.exists_objects {key : String} {old : Option Json} {new : Json}
    (h : PutAt v (key :: keys) old new) :
    ∃ members changed, old = some (.object members) ∧ new = .object changed := by
  cases h
  exact ⟨_, _, rfl, rfl⟩

end Json

def Field.AloneIn (case : KeyCase) (shape : List Field) (f : Field) : Prop :=
  ∃ front back, shape = front ++ f :: back ∧
    ∀ g ∈ front ++ back, g.name ≠ f.name ∧ g.wireName case ≠ f.wireName case

def Transformers.KeepsObjects (ts : Transformers) (d : Definition) : Prop :=
  ∀ members, ts.decodeOwn d (.object members) = .ok (.object members)

/-- The built-in transformers change no object. -/
theorem Transformers.keepsObjects_builtin {d : Definition}
    (known : ∀ name, d.decode = some name → name ∈ Keyed.keys builtin) :
    builtin.KeepsObjects d := by
  intro members
  cases hd : d.decode with
  | none => exact decodeOwn_none hd _
  | some name =>
    have hn : name = "blank_to_null" ∨ name = "downcase" ∨ name = "trim" ∨ name = "upcase" := by
      simpa [builtin, Keyed.keys] using known name hd
    rw [decodeOwn, hd]
    rcases hn with rfl | rfl | rfl | rfl <;> rfl

/-- The values of a definition are objects that hold values of another one, under fields that stand
alone in their shapes and so many levels further down. -/
inductive Definition.HoldsAt (c : Context) (ts : Transformers) (e : Definition) :
    List Field → Nat → Definition → Prop where
  | here : HoldsAt c ts e [] 0 e
  | reference {d target definition f way k} (hk : d.kind = .reference target)
      (hd : c.view.definition? target = some definition) (keeps : ts.KeepsObjects d)
      (h : HoldsAt c ts e (f :: way) k definition) : HoldsAt c ts e (f :: way) (k + 1) d
  | field {d shape f way k} (hk : d.kind = .object shape) (alone : f.AloneIn c.case shape)
      (keeps : ts.KeepsObjects d) (h : HoldsAt c ts e way k f.definition) :
      HoldsAt c ts e (f :: way) (k + 1) d

/-- A value is converted, validated with some levels left, and decoded as it is. -/
structure Definition.Passes (c : Context) (ts : Transformers) (n : Nat) (d : Definition)
    (v : Json) : Prop where
  converted : ∀ m, Coercion.convert c m d v = v
  clean : CleanBy (judge c n) [] d v
  param : c.paramsWithin n d v = v
  decoded : ∀ m, Transformation.transform c.view ts .decode m d v = .ok v

/-! ### A field that stands alone -/

namespace Field.AloneIn

variable {case : KeyCase} {shape : List Field} {f : Field}

theorem mem (h : f.AloneIn case shape) : f ∈ shape := by
  obtain ⟨front, back, rfl, -⟩ := h
  simp

theorem eq_of_wireName (h : f.AloneIn case shape) {g : Field} (hg : g ∈ shape)
    (same : g.wireName case = f.wireName case) : g = f := by
  obtain ⟨front, back, rfl, apart⟩ := h
  by_contra ne
  refine (apart g ?_).2 same
  simpa [ne] using hg

theorem name_ne (h : f.AloneIn case shape) {g : Field} (hg : g ∈ shape)
    (ne : g.name ≠ f.name) : g.wireName case ≠ f.wireName case := by
  intro same
  exact ne (congrArg Field.name (h.eq_of_wireName hg same))

end Field.AloneIn

section Stages

variable {c : Context} {ts : Transformers} {case : KeyCase} {d e : Definition} {way : List Field}
  {k n : Nat} {v : Json} {shape : List Field} {f : Field}

/-! ### Conversion -/

namespace Coercion

variable {next : Converter} {members changed : Keyed Json}

theorem membersOf_cons (case : KeyCase) (next : Converter) (g : Field) (rest : List Field)
    (members : Keyed Json) : membersOf case next (g :: rest) members =
      membersOf case next rest (Keyed.modify (g.wireName case) (next g.definition) members) := rfl

theorem membersOf_append (case : KeyCase) (next : Converter) (front back : List Field)
    (members : Keyed Json) : membersOf case next (front ++ back) members =
      membersOf case next back (membersOf case next front members) :=
  List.foldl_append

/-- What conversion makes of a member depends on the member only. -/
theorem get?_membersOf_congr {key : String}
    (same : Keyed.get? changed key = Keyed.get? members key) :
    Keyed.get? (membersOf case next shape changed) key =
      Keyed.get? (membersOf case next shape members) key := by
  induction shape generalizing members changed with
  | nil => exact same
  | cons g rest ih =>
    apply ih
    rw [Keyed.get?_modify, Keyed.get?_modify, same]

/-- A member whose key no other field has is converted by its own field. -/
theorem get?_membersOf_alone (alone : f.AloneIn case shape) :
    Keyed.get? (membersOf case next shape members) (f.wireName case) =
      (Keyed.get? members (f.wireName case)).map (next f.definition) := by
  obtain ⟨front, back, rfl, apart⟩ := alone
  have before : f.wireName case ∉ front.map (Field.wireName case) := by
    simpa using fun g hg => (apart g (List.mem_append_left back hg)).2
  have after : f.wireName case ∉ back.map (Field.wireName case) := by
    simpa using fun g hg => (apart g (List.mem_append_right front hg)).2
  rw [membersOf_append, membersOf_cons, get?_membersOf_of_not_mem after, Keyed.get?_modify,
    if_pos rfl, get?_membersOf_of_not_mem before]

theorem map_convert_zero (c : Context) (d : Definition) (old : Option Json) :
    old.map (convert c 0 d) = old := by
  cases old <;> rfl

/-- What is put into a value stands in the converted value as well. -/
theorem putAt_convert (holds : Definition.HoldsAt c ts e way k d)
    (steady : ∀ m, convert c m e v = v) (m : Nat) {old : Option Json} {new : Json}
    (put : Json.PutAt v (way.map (Field.wireName c.case)) old new) :
    Json.PutAt v (way.map (Field.wireName c.case)) (old.map (convert c m d))
      (convert c m d new) := by
  induction holds generalizing m old new with
  | here =>
    cases put
    rw [steady]
    exact .here
  | reference hk hd _ _ ih =>
    cases m with
    | zero => rwa [map_convert_zero]
    | succ m =>
      obtain ⟨members, changed, rfl, rfl⟩ := put.exists_objects
      have below := ih m put
      simpa [convert_succ, step, Json.isNull, hk, hd] using below
  | @field d shape f way k hk alone _ _ ih =>
    cases m with
    | zero => rwa [map_convert_zero]
    | succ m =>
      have converted : ∀ members : Keyed Json, convert c (m + 1) d (.object members) =
          .object (membersOf c.case (convert c m) shape members) := by
        intro members
        rw [convert_succ, step, if_neg (by simp [Json.isNull]), hk]
        rfl
      cases put with
      | inside there below others =>
        rw [Option.map_some, converted, converted]
        refine .inside (by rw [get?_membersOf_alone alone, there]; rfl) ?_ fun other ne =>
          get?_membersOf_congr (others other ne)
        rw [get?_membersOf_alone alone]
        exact ih m below

end Coercion

/-! ### Validation -/

namespace Validation

variable {value : Definition → Json → Json} {members changed : Keyed Json}

/-- A later field of the same name has its param instead of the first one's. -/
theorem get?_named_cons (g : Field) (rest : List Field) (name : String) :
    Keyed.get? (named case value (g :: rest) members) name =
      (Keyed.get? (named case value rest members) name).or
        (if name = g.name then fieldParam case value members g else none) := by
  rw [named, named, List.filterMap_cons]
  cases fieldParam case value members g with
  | none => simp
  | some j => simp only [Option.map_some, Keyed.get?_ofList_cons]

/-- The param under a name depends on the members of the fields of that name only. -/
theorem get?_named_congr {name : String}
    (same : ∀ g ∈ shape, g.name = name →
      Keyed.get? changed (g.wireName case) = Keyed.get? members (g.wireName case)) :
    Keyed.get? (named case value shape changed) name =
      Keyed.get? (named case value shape members) name := by
  induction shape with
  | nil => rfl
  | cons g rest ih =>
    rw [get?_named_cons, get?_named_cons, ih fun h hh => same h (List.mem_cons_of_mem g hh)]
    congr 1
    split
    · rename_i hn
      rw [fieldParam, fieldParam, same g List.mem_cons_self hn.symm]
    · rfl

/-- A param whose name no other field has is that of its own field. -/
theorem get?_named_alone (alone : f.AloneIn case shape) :
    Keyed.get? (named case value shape members) f.name = fieldParam case value members f := by
  obtain ⟨front, back, rfl, apart⟩ := alone
  induction front with
  | nil =>
    have after : Keyed.get? (named case value back members) f.name = none := by
      apply get?_named_of_not_mem
      simpa using fun g hg => (apart g (by simpa using hg)).1
    rw [List.nil_append, get?_named_cons, after, if_pos rfl, Option.none_or]
  | cons g front ih =>
    have ne : f.name ≠ g.name := (apart g (by simp)).1.symm
    rw [List.cons_append, get?_named_cons, if_neg ne, Option.or_none]
    exact ih fun h hh => apart h (List.mem_cons_of_mem g hh)

/-- Members meet a shape with another value for one field that stands alone. -/
theorem meetsShape_of_put {P : Definition → Json → Prop} (alone : f.AloneIn case shape)
    (meets : MeetsShape case [] P shape members) {new : Json}
    (there : Keyed.get? changed (f.wireName case) = some new) (accepted : P f.definition new)
    (others : ∀ other, other ≠ f.wireName case →
      Keyed.get? changed other = Keyed.get? members other) :
    MeetsShape case [] P shape changed where
  known := by
    intro key hk
    by_cases hf : key = f.wireName case
    · exact .inl (hf ▸ List.mem_map_of_mem alone.mem)
    · obtain ⟨x, hx⟩ := (Keyed.mem_keys_iff _ _).mp hk
      exact meets.known key (Keyed.mem_keys_of_get? ((others key hf).symm.trans hx))
  present := by
    intro g hg x hx
    by_cases same : g.wireName case = f.wireName case
    · obtain rfl := alone.eq_of_wireName hg same
      cases there.symm.trans hx
      exact accepted
    · exact meets.present g hg x ((others _ same).symm.trans hx)
  absent := by
    intro g hg hn
    by_cases same : g.wireName case = f.wireName case
    · rw [same, there] at hn
      cases hn
    · exact meets.absent g hg ((others _ same).symm.trans hn)

theorem paramsWithin_reference {target : String} {definition : Definition}
    (hk : d.kind = .reference target) (hd : c.view.definition? target = some definition) {j : Json}
    (present : j.isNull = false) :
    c.paramsWithin (n + 1) d j = c.paramsWithin n definition j := by
  rw [Context.paramsWithin, judge_succ, step]
  simp [present, hk, hd, Context.paramsWithin]

theorem paramsWithin_object (hk : d.kind = .object shape) (members : Keyed Json) :
    c.paramsWithin (n + 1) d (.object members) =
      .object (named c.case (c.paramsWithin n) shape members) := by
  rw [Context.paramsWithin, judge_succ, step]
  simp only [Json.isNull, Bool.false_and, Bool.false_eq_true, if_false, hk]
  exact params_object (placed_judge c n) [] shape members

/-- The params of a list are those of its elements, one level further down. -/
theorem paramsWithin_elements {element : Definition} (hk : d.kind = .array (.of element))
    (elements : List Json) : c.paramsWithin (n + 1) d (.array elements) =
      .array (elements.map (c.paramsWithin n element)) := by
  have same : ∀ (p : Path) (j : Json),
      (judge c n p element j).params = (judge c n [] element j).params := by
    intro p j
    rw [(placed_judge c n).at_path p]
    rfl
  rw [Context.paramsWithin, judge_succ, step]
  simp only [Json.isNull, Bool.false_and, Bool.false_eq_true, if_false, hk]
  exact params_array same [] d elements

/-- What is put into an accepted value is accepted with it and stands in its params, under the names
of the fields that lead to it. -/
theorem putAt_params (holds : Definition.HoldsAt c ts e way k d)
    (clean : CleanBy (judge c n) [] e v) (param : c.paramsWithin n e v = v)
    {old : Option Json} {new : Json}
    (put : Json.PutAt v (way.map (Field.wireName c.case)) old new)
    (accepted : ∀ j, old = some j → CleanBy (judge c (n + k)) [] d j) :
    CleanBy (judge c (n + k)) [] d new ∧
      Json.PutAt v (way.map Field.name) (old.map (c.paramsWithin (n + k) d))
        (c.paramsWithin (n + k) d new) := by
  induction holds generalizing old new with
  | here =>
    cases put
    exact ⟨clean, by rw [Nat.add_zero, param]; exact .here⟩
  | @reference d target definition f way k hk hd _ _ ih =>
    obtain ⟨members, changed, rfl, rfl⟩ := put.exists_objects
    obtain ⟨_, hd', before⟩ := (cleanBy_reference_iff hk rfl).mp (accepted _ rfl)
    cases hd.symm.trans hd'
    obtain ⟨after, there⟩ := ih put (by rintro _ ⟨⟩; exact before)
    rw [← Nat.add_assoc, cleanBy_reference_iff hk rfl, Option.map_some,
      paramsWithin_reference hk hd rfl, paramsWithin_reference hk hd rfl]
    exact ⟨⟨definition, hd, after⟩, there⟩
  | @field d shape f way k hk alone _ _ ih =>
    cases put with
    | @inside _ _ members changed new there below others =>
      have meets := (cleanBy_object_iff hk).mp (accepted _ rfl)
      obtain ⟨after, stands⟩ := ih below (meets.present f alone.mem)
      rw [← Nat.add_assoc, cleanBy_object_iff hk, Option.map_some, paramsWithin_object hk,
        paramsWithin_object hk]
      have param : Keyed.get? (named c.case (c.paramsWithin (n + k)) shape changed) f.name =
          some (c.paramsWithin (n + k) f.definition new) := by
        rw [get?_named_alone alone, fieldParam, there]
        rfl
      have beside : ∀ other, other ≠ f.name →
          Keyed.get? (named c.case (c.paramsWithin (n + k)) shape changed) other =
            Keyed.get? (named c.case (c.paramsWithin (n + k)) shape members) other := by
        intro other ne
        apply get?_named_congr
        rintro g hg rfl
        exact others _ (alone.name_ne hg ne)
      refine ⟨meetsShape_of_put alone meets there after others, .inside param ?_ beside⟩
      -- a default may have stood in for the value that was missing
      rw [get?_named_alone alone, fieldParam]
      cases hx : Keyed.get? members (f.wireName c.case) with
      | some x => simpa [hx] using stands
      | none =>
        rw [hx] at stands
        exact stands.of_none _

end Validation

/-! ### Decoding -/

namespace Transformation

variable {view : View} {transform : Transform} {members changed done : Keyed Json} {key : String}

def membersOf (transform : Transform) (shape : List Field) (members : Keyed Json) :
    Except ConfigurationError (Keyed Json) :=
  shape.foldlM (fun members f => modifyM f.name (transform f.definition) members) members

theorem membersOf_cons (transform : Transform) (g : Field) (rest : List Field)
    (members : Keyed Json) : membersOf transform (g :: rest) members =
      modifyM g.name (transform g.definition) members >>= membersOf transform rest :=
  List.foldlM_cons

theorem membersOf_append (transform : Transform) (front back : List Field)
    (members : Keyed Json) : membersOf transform (front ++ back) members =
      membersOf transform front members >>= membersOf transform back :=
  List.foldlM_append

theorem object_eq (transform : Transform) (shape : List Field) (members : Keyed Json) :
    object transform shape (.object members) =
      (membersOf transform shape members >>= fun done => .ok (.object done)) := rfl

/-- A change that can be made under a key, or need not be, can be made. -/
theorem exists_modifyM {f : Json → Except ConfigurationError Json} {t : Keyed Json}
    (h : ∀ x, Keyed.get? t key = some x → ∃ y, f x = .ok y) : ∃ u, modifyM key f t = .ok u := by
  induction t with
  | nil => exact ⟨[], rfl⟩
  | cons entry rest ih =>
    obtain ⟨k, j⟩ := entry
    rw [modifyM]
    split
    · rename_i hk
      obtain ⟨y, hy⟩ := h j (by simp [Keyed.get?, hk])
      exact ⟨(k, y) :: rest, by rw [hy]; rfl⟩
    · rename_i hk
      have hb : (key == k) = false := by simpa using Ne.symm hk
      obtain ⟨u, hu⟩ := ih fun x hx => h x (by rw [Keyed.get?, List.lookup_cons, hb]; exact hx)
      exact ⟨(k, j) :: u, by rw [hu]; rfl⟩

/-- What becomes of one member does not depend on another one. -/
theorem modifyM_of_agree {name : String} {f : Json → Except ConfigurationError Json}
    (ne : name ≠ key)
    (agree : ∀ other, other ≠ key → Keyed.get? changed other = Keyed.get? members other)
    (h : modifyM name f members = .ok done) :
    ∃ after, modifyM name f changed = .ok after ∧
      Keyed.get? after key = Keyed.get? changed key ∧
      ∀ other, other ≠ key → Keyed.get? after other = Keyed.get? done other := by
  obtain ⟨keys, others, there⟩ := modifyM_ok h
  obtain ⟨after, ha⟩ : ∃ after, modifyM name f changed = .ok after :=
    exists_modifyM fun x hx => (there x ((agree name ne).symm.trans hx)).imp fun _ => And.left
  obtain ⟨keys', others', there'⟩ := modifyM_ok ha
  refine ⟨after, ha, others' key ne.symm, fun other hne => ?_⟩
  by_cases same : other = name
  · subst same
    cases hx : Keyed.get? changed other with
    | some x =>
      obtain ⟨y, hy, hd⟩ := there x ((agree other ne).symm.trans hx)
      obtain ⟨y', hy', ha⟩ := there' x hx
      cases hy.symm.trans hy'
      rw [ha, hd]
    | none =>
      have hm := (agree other ne).symm.trans hx
      rw [Keyed.get?_eq_none_iff] at hx hm
      rw [(Keyed.get?_eq_none_iff after other).mpr (keys' ▸ hx),
        (Keyed.get?_eq_none_iff done other).mpr (keys ▸ hm)]
  · rw [others' other same, others other same, agree other hne]

/-- Nor does what becomes of the members of fields with other names. -/
theorem membersOf_of_agree (unlike : ∀ g ∈ shape, g.name ≠ key)
    (agree : ∀ other, other ≠ key → Keyed.get? changed other = Keyed.get? members other)
    (h : membersOf transform shape members = .ok done) :
    ∃ after, membersOf transform shape changed = .ok after ∧
      Keyed.get? after key = Keyed.get? changed key ∧
      ∀ other, other ≠ key → Keyed.get? after other = Keyed.get? done other := by
  induction shape generalizing members changed with
  | nil =>
    cases h
    exact ⟨changed, rfl, rfl, agree⟩
  | cons g rest ih =>
    rw [membersOf_cons] at h
    obtain ⟨mid, hm, h⟩ := Except.bind_eq_ok h
    obtain ⟨mid', hm', kept, agree'⟩ := modifyM_of_agree (unlike g List.mem_cons_self) agree hm
    obtain ⟨after, ha, kept', agree''⟩ :=
      ih (fun g' hg => unlike g' (List.mem_cons_of_mem g hg)) agree' h
    refine ⟨after, ?_, kept'.trans kept, agree''⟩
    rw [membersOf_cons, hm']
    exact ha

theorem get?_of_membersOf (unlike : ∀ g ∈ shape, g.name ≠ key)
    (h : membersOf transform shape members = .ok done) :
    Keyed.get? done key = Keyed.get? members key := by
  obtain ⟨after, ha, kept, -⟩ := membersOf_of_agree unlike (fun _ _ => rfl) h
  cases h.symm.trans ha
  exact kept

/-- The member of a field that stands alone is transformed by its definition. -/
theorem exists_of_membersOf (alone : f.AloneIn case shape)
    (h : membersOf transform shape members = .ok done) {x : Json}
    (hx : Keyed.get? members f.name = some x) :
    ∃ y, transform f.definition x = .ok y ∧ Keyed.get? done f.name = some y := by
  obtain ⟨front, back, rfl, apart⟩ := alone
  rw [membersOf_append] at h
  obtain ⟨first, hf, h⟩ := Except.bind_eq_ok h
  rw [membersOf_cons] at h
  obtain ⟨second, hs, h⟩ := Except.bind_eq_ok h
  have before : Keyed.get? first f.name = Keyed.get? members f.name :=
    get?_of_membersOf (fun g hg => (apart g (List.mem_append_left back hg)).1) hf
  have after : Keyed.get? done f.name = Keyed.get? second f.name :=
    get?_of_membersOf (fun g hg => (apart g (List.mem_append_right front hg)).1) h
  obtain ⟨y, hy, there⟩ := (modifyM_ok hs).2.2 x (before.trans hx)
  exact ⟨y, hy, after.trans there⟩

/-- Members can be transformed with another value for a field that stands alone. -/
theorem membersOf_of_put (alone : f.AloneIn case shape)
    (agree : ∀ other, other ≠ f.name → Keyed.get? changed other = Keyed.get? members other)
    (h : membersOf transform shape members = .ok done) {x y : Json}
    (hx : Keyed.get? changed f.name = some x) (hy : transform f.definition x = .ok y) :
    ∃ after, membersOf transform shape changed = .ok after ∧ Keyed.get? after f.name = some y ∧
      ∀ other, other ≠ f.name → Keyed.get? after other = Keyed.get? done other := by
  obtain ⟨front, back, rfl, apart⟩ := alone
  rw [membersOf_append] at h
  obtain ⟨first, hf, h⟩ := Except.bind_eq_ok h
  rw [membersOf_cons] at h
  obtain ⟨second, hs, h⟩ := Except.bind_eq_ok h
  obtain ⟨first', hf', kept, agree⟩ := membersOf_of_agree
    (fun g hg => (apart g (List.mem_append_left back hg)).1) agree hf
  have hx' := kept.trans hx
  obtain ⟨second', hs'⟩ : ∃ second', modifyM f.name (transform f.definition) first' = .ok second' :=
    exists_modifyM fun z hz => ⟨y, by cases hx'.symm.trans hz; exact hy⟩
  obtain ⟨-, others, -⟩ := modifyM_ok hs
  obtain ⟨-, others', here'⟩ := modifyM_ok hs'
  obtain ⟨y', hy', there⟩ := here' x hx'
  cases hy.symm.trans hy'
  have agree' : ∀ other, other ≠ f.name →
      Keyed.get? second' other = Keyed.get? second other := by
    intro other ne
    rw [others' other ne, others other ne, agree other ne]
  obtain ⟨after, ha, kept', agree'⟩ := membersOf_of_agree
    (fun g hg => (apart g (List.mem_append_right front hg)).1) agree' h
  refine ⟨after, ?_, kept'.trans there, agree'⟩
  rw [membersOf_append, hf']
  change membersOf transform (f :: back) first' = .ok after
  rw [membersOf_cons, hs']
  exact ha

theorem transform_of_inside {m : Nat} {p q r : Json} (hp : p.isNull = false)
    (inner : inside view (Transformation.transform view ts .decode m)
      (Transformation.transform view ts .decode (m - 1)) d p = .ok q)
    (own : ts.decodeOwn d q = .ok r) :
    Transformation.transform view ts .decode (m + 1) d p = .ok r := by
  rw [transform_succ, step, if_neg (by simp [hp]), inner]
  exact own

/-- What is put into a value that can be decoded stands in the decoded value as well. -/
theorem putAt_decoded (holds : Definition.HoldsAt c ts e way k d)
    (decoded : ∀ m, Transformation.transform c.view ts .decode m e v = .ok v) (m : Nat)
    {old : Option Json} {new : Json} (put : Json.PutAt v (way.map Field.name) old new)
    {done : Option Json}
    (before : ∀ j, old = some j →
      ∃ q, Transformation.transform c.view ts .decode m d j = .ok q ∧ done = some q) :
    ∃ q, Transformation.transform c.view ts .decode m d new = .ok q ∧
      Json.PutAt v (way.map Field.name) done q := by
  induction holds generalizing m old new done with
  | here =>
    cases put
    exact ⟨v, decoded m, .here⟩
  | @reference d target definition f way k hk hd keeps _ ih =>
    obtain ⟨members, changed, rfl, rfl⟩ := put.exists_objects
    obtain ⟨r, hr, rfl⟩ := before _ rfl
    cases m with
    | zero =>
      cases hr
      exact ⟨_, rfl, put⟩
    | succ m =>
      obtain ⟨q, hq, own⟩ := transform_succ_ok rfl hr
      rw [inside_reference hk hd] at hq
      have below : ∀ j, some (Json.object members) = some j → ∃ p,
          Transformation.transform c.view ts .decode m definition j = .ok p ∧ some q = some p := by
        rintro _ ⟨⟩
        exact ⟨q, hq, rfl⟩
      obtain ⟨q', hq', there⟩ := ih m put below
      obtain ⟨ms, ns, same, rfl⟩ := there.exists_objects
      cases same
      cases (keeps ms).symm.trans own
      refine ⟨.object ns, transform_of_inside rfl ?_ (keeps ns), there⟩
      rw [inside_reference hk hd, hq']
  | @field d shape f way k hk alone keeps _ ih =>
    obtain ⟨members, changed, rfl, rfl⟩ := put.exists_objects
    obtain ⟨r, hr, rfl⟩ := before _ rfl
    cases m with
    | zero =>
      cases hr
      exact ⟨_, rfl, put⟩
    | succ m =>
      obtain ⟨q, hq, own⟩ := transform_succ_ok rfl hr
      rw [inside_object hk, object_eq] at hq
      obtain ⟨ms, hm, hq⟩ := Except.bind_eq_ok hq
      cases hq
      cases (keeps ms).symm.trans own
      cases put with
      | inside there below others =>
        obtain ⟨y, hy, stands⟩ := ih m below fun j hj => exists_of_membersOf alone hm hj
        obtain ⟨ns, hn, there', others'⟩ := membersOf_of_put alone others hm there hy
        refine ⟨.object ns, transform_of_inside rfl ?_ (keeps ns), .inside there' stands others'⟩
        rw [inside_object hk, object_eq, hn]
        rfl

end Transformation

end Stages

/-- A body that is accepted once it is coerced, and whose params can be decoded, comes in. -/
theorem Exchange.process_body_of {x : Exchange} {d : Definition} {raw params : Json}
    (accepted : ((x.context .body).validate d ((x.context .body).coerce d raw)).issues = [])
    (decoded : x.view.transform x.transformers .decode d
      ((x.context .body).validate d ((x.context .body).coerce d raw)).params = .ok params) :
    x.process .body d raw = .ok ⟨params, []⟩ := by
  simp only [process, reduceCtorEq, if_false, accepted, List.isEmpty_nil, if_true, decoded]
  rfl

/-- A value that passes may be put into an accepted payload. It then stands in the params, under the
names of the fields that lead to it, and nothing beside it changes. -/
theorem Exchange.process_body_put {x : Exchange} {d e : Definition} {way : List Field} {k n : Nat}
    {v old new params : Json}
    (holds : Definition.HoldsAt (x.context .body) x.transformers e way k d)
    (levels : n + k = nestingLimit + 1)
    (passes : e.Passes (x.context .body) x.transformers n v)
    (accepted : x.process .body d old = .ok ⟨params, []⟩)
    (put : Json.PutAt v (way.map (Field.wireName (x.context .body).case)) (some old) new) :
    ∃ params', x.process .body d new = .ok ⟨params', []⟩ ∧
      Json.PutAt v (way.map Field.name) (some params) params' := by
  obtain ⟨valid, decoded⟩ := x.of_process_body accepted rfl
  have converted := Coercion.putAt_convert holds passes.converted (nestingLimit + 1) put
  obtain ⟨clean, named⟩ := Validation.putAt_params holds passes.clean passes.param converted
    (by rintro _ ⟨⟩; rw [levels]; exact (acceptsWithin_iff _ (nestingLimit + 1) d _).mp valid)
  rw [levels] at clean named
  have before : ∀ j, ((some ((x.context .body).coerce d old)).map
      ((x.context .body).paramsWithin (nestingLimit + 1) d)) = some j → ∃ q,
      x.view.transform x.transformers .decode d j = .ok q ∧ some params = some q := by
    rintro _ ⟨⟩
    exact ⟨params, decoded, rfl⟩
  obtain ⟨params', hp, there⟩ := Transformation.putAt_decoded holds passes.decoded
    (nestingLimit + 1) named before
  exact ⟨params', x.process_body_of ((clean_nil_iff _).mp clean) hp, there⟩

end ApiContract
