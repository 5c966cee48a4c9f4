import Mathlib
import ApiContract.Proofs.RespelledRecords

/-!
# Entries that go out

Two entries of a record that go out under one key leave one of them. A response keeps all its entries
exactly if no two keys of a record on the way are spelled alike: the count of all entries tells, since
no step makes it greater and a step that spells two keys alike makes it less.
-/

namespace ApiContract

namespace Json

/-- The second value is the first one with each object's entries under keys of their own. -/
inductive SameEntries : Json → Json → Prop where
  | leaf {j} (h : j.isLeaf = true) : SameEntries j j
  | array {elements others} (count : others.length = elements.length)
      (kept : ∀ (i : Nat) x y, elements[i]? = some x → others[i]? = some y → SameEntries x y) :
      SameEntries (.array elements) (.array others)
  | object {members others} (name : String → String) (count : others.length = members.length)
      (apart : ∀ k ∈ Keyed.keys members, ∀ l ∈ Keyed.keys members, name k = name l → k = l)
      (there : ∀ k ∈ Keyed.keys members, name k ∈ Keyed.keys others)
      (kept : ∀ k x y, Keyed.get? members k = some x → Keyed.get? others (name k) = some y →
        SameEntries x y) :
      SameEntries (.object members) (.object others)

theorem SameEntries.length_eq {members others : List (String × Json)}
    (h : (Json.object members).SameEntries (.object others)) : others.length = members.length := by
  cases h with
  | leaf h => cases h
  | object _ count => exact count

/-- A value in key order has the entries of itself, as no key is there twice. -/
theorem Ordered.sameEntries {j : Json} (h : j.Ordered) : j.SameEntries j := by
  induction h with
  | leaf h => exact .leaf h
  | array _ ih =>
    refine .array rfl ?_
    intro i x y hx hy
    rw [hx] at hy
    cases hy
    exact ih x (List.mem_of_getElem? hx)
  | object _ _ ih =>
    refine .object id rfl (fun _ _ _ _ => id) (fun _ => id) ?_
    intro k x y hx hy
    rw [id, hx] at hy
    cases hy
    exact ih k x hx

/-- Keys may be renamed in turn. -/
theorem SameEntries.trans {j k l : Json} (h : j.SameEntries k) (h' : k.SameEntries l) :
    j.SameEntries l := by
  induction h generalizing l with
  | leaf => exact h'
  | array count _ ih =>
    cases h' with
    | leaf h => cases h
    | array count' kept' =>
      refine .array (count'.trans count) ?_
      intro i x z hx hz
      have hi : i < _ := (List.getElem?_eq_some_iff.mp hz).1
      rw [count'] at hi
      exact ih i x _ hx (List.getElem?_eq_getElem hi) (kept' i _ z (List.getElem?_eq_getElem hi) hz)
  | object name count apart there _ ih =>
    cases h' with
    | leaf h => cases h
    | object name' count' apart' there' kept' =>
      refine .object (name' ∘ name) (count'.trans count) ?_ ?_ ?_
      · intro k hk l hl he
        exact apart k hk l hl (apart' _ (there k hk) _ (there l hl) he)
      · intro k hk
        exact there' _ (there k hk)
      · intro k x z hx hz
        obtain ⟨y, hy⟩ := (Keyed.mem_keys_iff _ _).mp (there k (Keyed.mem_keys_of_get? hx))
        exact ih k x y hx hy (kept' _ y z hy hz)

/-! ### How many entries -/

mutual

def entryCount : Json → Nat
  | array elements => elementsCount elements
  | object members => membersCount members
  | _ => 0

def elementsCount : List Json → Nat
  | [] => 0
  | x :: rest => entryCount x + elementsCount rest

def membersCount : List (String × Json) → Nat
  | [] => 0
  | (_, x) :: rest => (1 + entryCount x) + membersCount rest

end

theorem elementsCount_eq_sum (elements : List Json) :
    elementsCount elements = (elements.map entryCount).sum := by
  induction elements with
  | nil => rfl
  | cons x rest ih => simp [elementsCount, ih]

theorem membersCount_eq_sum (members : List (String × Json)) :
    membersCount members = (members.map fun p => 1 + p.2.entryCount).sum := by
  induction members with
  | nil => rfl
  | cons p rest ih => simp [membersCount, ih]

theorem membersCount_perm {members others : List (String × Json)} (h : members.Perm others) :
    membersCount members = membersCount others := by
  rw [membersCount_eq_sum, membersCount_eq_sum]
  exact (h.map _).sum_eq

/-- An insertion brings in one entry at most; what stood there is lost. -/
theorem membersCount_insert_le {t : Keyed Json} (h : Keyed.Sorted t) (key : String) (v : Json) :
    membersCount (Keyed.insert key v t) ≤ 1 + v.entryCount + membersCount t := by
  rw [membersCount_perm (h.insert_perm key v), membersCount]
  cases hw : Keyed.get? t key with
  | none =>
    have hp := h.insert_perm key v
    have hk : key ∉ Keyed.keys t := (Keyed.get?_eq_none_iff t key).mp hw
    have he := membersCount_perm (hp.symm.trans (Keyed.insert_perm hk v))
    simp only [membersCount] at he
    omega
  | some w =>
    rw [membersCount_perm (Keyed.perm_cons_erase h.nodup hw), membersCount]
    omega

/-- An insertion over another value takes at least one entry out. -/
theorem not_mem_keys_of_membersCount_insert {t : Keyed Json} (h : Keyed.Sorted t) {key : String}
    {v : Json} (he : 1 + v.entryCount + membersCount t ≤ membersCount (Keyed.insert key v t)) :
    key ∉ Keyed.keys t := by
  intro hk
  obtain ⟨w, hw⟩ := (Keyed.mem_keys_iff key t).mp hk
  rw [membersCount_perm (h.insert_perm key v), membersCount_perm (Keyed.perm_cons_erase h.nodup hw),
    membersCount, membersCount] at he
  omega

/-- So many entries at most come together. -/
theorem membersCount_union_le {pairs t : Keyed Json} (h : Keyed.Sorted t) :
    membersCount (Keyed.union t pairs) ≤ membersCount pairs + membersCount t := by
  induction pairs generalizing t with
  | nil => simp [Keyed.union, membersCount]
  | cons p rest ih =>
    have hu : Keyed.union t (p :: rest) = Keyed.union (Keyed.insert p.1 p.2 t) rest := rfl
    have hr := ih (h.insert p.1 p.2)
    have hi := membersCount_insert_le h p.1 p.2
    rw [hu, membersCount]
    omega

/-- Where no entry is lost the keys are all different. -/
theorem nodup_of_membersCount_union {pairs t : Keyed Json} (h : Keyed.Sorted t)
    (he : membersCount pairs + membersCount t ≤ membersCount (Keyed.union t pairs)) :
    (Keyed.keys (pairs ++ t)).Nodup := by
  induction pairs generalizing t with
  | nil => exact h.nodup
  | cons p rest ih =>
    have hu : Keyed.union t (p :: rest) = Keyed.union (Keyed.insert p.1 p.2 t) rest := rfl
    have hr : membersCount (Keyed.union (Keyed.insert p.1 p.2 t) rest) ≤
        membersCount rest + membersCount (Keyed.insert p.1 p.2 t) :=
      membersCount_union_le (h.insert p.1 p.2)
    have hi := membersCount_insert_le h p.1 p.2
    rw [hu, membersCount] at he
    have hp : 1 + p.2.entryCount + membersCount t ≤ membersCount (Keyed.insert p.1 p.2 t) := by
      omega
    have hk := not_mem_keys_of_membersCount_insert h hp
    have hn := ih (h.insert p.1 p.2) (by omega)
    have hp : (rest ++ Keyed.insert p.1 p.2 t).Perm (p :: (rest ++ t)) :=
      ((Keyed.insert_perm hk p.2).append_left rest).trans List.perm_middle
    exact (hp.map Prod.fst).nodup_iff.mp hn

/-- Renaming keys apart changes no count. -/
theorem SameEntries.entryCount_eq {j k : Json} (h : j.SameEntries k) (hj : j.Ordered)
    (hk : k.Ordered) : k.entryCount = j.entryCount := by
  induction h with
  | leaf => rfl
  | @array elements others count _ ih =>
    have he : others.map entryCount = elements.map entryCount := by
      apply List.ext_getElem (by simpa using count)
      intro i hi hi'
      simp only [List.length_map] at hi hi'
      simp only [List.getElem_map]
      exact ih i _ _ (List.getElem?_eq_getElem hi') (List.getElem?_eq_getElem hi)
        (hj.of_mem (List.getElem_mem hi')) (hk.of_mem (List.getElem_mem hi))
    simp only [entryCount, elementsCount_eq_sum, he]
  | @object members others name count apart there _ ih =>
    -- the entries of the second object are those found under the names of the first one's keys
    let images : List (String × Json) :=
      members.map fun p => (name p.1, (Keyed.get? others (name p.1)).getD .null)
    have found : ∀ p ∈ members, ∃ y, Keyed.get? others (name p.1) = some y :=
      fun p hp => (Keyed.mem_keys_iff _ _).mp (there p.1 (Keyed.mem_keys_of_mem hp))
    have nodup : (Keyed.keys images).Nodup := by
      have hn : ((Keyed.keys members).map name).Nodup :=
        List.Nodup.map_on (fun k hk l hl => apart k hk l hl) hj.sorted.nodup
      simpa [images, Keyed.keys, Function.comp_def] using hn
    have subset : images ⊆ others := by
      intro q hq
      obtain ⟨p, hp, rfl⟩ := List.mem_map.mp hq
      obtain ⟨y, hy⟩ := found p hp
      rw [hy]
      exact Keyed.mem_of_get? hy
    have perm : images.Perm others :=
      (List.subperm_of_subset (Keyed.nodup_of_nodup_keys nodup) subset).perm_of_length_le
        (by simp [images, count])
    simp only [entryCount]
    rw [← membersCount_perm perm, membersCount_eq_sum, membersCount_eq_sum, List.map_map]
    congr 1
    apply List.map_congr_left
    intro p hp
    obtain ⟨y, hy⟩ := found p hp
    have hx : Keyed.get? members p.1 = some p.2 := Keyed.get?_of_mem hj.sorted.nodup hp
    simp only [Function.comp_apply, hy, Option.getD_some]
    rw [ih p.1 p.2 y hx hy (hj.of_get? hx) (hk.of_get? hy)]

end Json

namespace WireKeys

variable {case : KeyCase} {next : Rekeying}

/-! ### Spelled apart -/

/-- The walk with some levels left comes to a record, whose keys it respells along a shape. -/
inductive Respells (c : Context) (shape : List Field) (record : Keyed Json) :
    Nat → Definition → Json → Prop where
  | object {n d} (hk : d.kind = .object shape) : Respells c shape record (n + 1) d (.object record)
  | shapes {n d elements} (hk : d.kind = .array (.shape shape))
      (he : .object record ∈ elements) : Respells c shape record (n + 1) d (.array elements)
  | reference {n d j target definition} (hk : d.kind = .reference target)
      (hd : c.view.definition? target = some definition)
      (h : Respells c shape record n definition j) : Respells c shape record (n + 1) d j
  | member {n d fields members key f x} (hk : d.kind = .object fields)
      (hf : fields.find? (·.name == key) = some f) (hx : Keyed.get? members key = some x)
      (h : Respells c shape record n f.definition x) :
      Respells c shape record (n + 1) d (.object members)
  | element {n d element elements x} (hk : d.kind = .array (.of element)) (hx : x ∈ elements)
      (h : Respells c shape record n element x) :
      Respells c shape record (n + 1) d (.array elements)
  | shapeMember {n d fields elements members key f x} (hk : d.kind = .array (.shape fields))
      (he : .object members ∈ elements) (hf : fields.find? (·.name == key) = some f)
      (hx : Keyed.get? members key = some x) (h : Respells c shape record n f.definition x) :
      Respells c shape record (n + 1) d (.array elements)
  | tagged {n d key variants variant j} (hk : d.kind = .union (some key) variants)
      (hv : Variant.chosenBy? variants key j = some variant)
      (h : Respells c shape record n variant.definition j) : Respells c shape record (n + 1) d j
  | untagged {n d variants variant j} (hk : d.kind = .union none variants)
      (hv : variants.find? (fun v => fits v.definition j) = some variant)
      (h : Respells c shape record n variant.definition j) : Respells c shape record (n + 1) d j

/-- A scalar has no keys to respell. -/
theorem not_respells_scalar {c : Context} {shape : List Field} {record : Keyed Json} {n : Nat}
    {d : Definition} {j : Json} {kind : ScalarKind} (hs : d.kind = .scalar kind) :
    ¬ Respells c shape record n d j := by
  intro h
  cases h with
  | object hk => rw [hs] at hk; cases hk
  | shapes hk => rw [hs] at hk; cases hk
  | reference hk => rw [hs] at hk; cases hk
  | member hk => rw [hs] at hk; cases hk
  | element hk => rw [hs] at hk; cases hk
  | shapeMember hk => rw [hs] at hk; cases hk
  | tagged hk => rw [hs] at hk; cases hk
  | untagged hk => rw [hs] at hk; cases hk

/-- No two keys of a record go out under one key. -/
def SpelledApart (case : KeyCase) (shape : List Field) (record : Keyed Json) : Prop :=
  ((Keyed.keys record).map (spelling case shape)).Nodup

/-- A record whose keys go out apart keeps its entries if the values of its fields do. -/
theorem sameEntries_object {shape : List Field} {record : Keyed Json}
    (ho : (Json.object record).Ordered) (apart : SpelledApart case shape record)
    (hr : ∀ key f x, shape.find? (·.name == key) = some f → Keyed.get? record key = some x →
      x.SameEntries (next f.definition x)) :
    (Json.object record).SameEntries (object case next shape (.object record)) := by
  have perm : (members case next shape record).Perm (record.map (outEntry case next shape)) :=
    members_perm apart
  have hn : (Keyed.keys (members case next shape record)).Nodup := by
    rw [members_eq_ofList]
    exact (Keyed.sorted_ofList _).nodup
  have goes : ∀ k x, Keyed.get? record k = some x →
      Keyed.get? (members case next shape record) (spelling case shape k) =
        some (respelled next shape k x) := by
    intro k x hx
    refine Keyed.get?_of_mem hn (perm.mem_iff.mpr ?_)
    exact List.mem_map.mpr ⟨(k, x), Keyed.mem_of_get? hx, rfl⟩
  refine .object (spelling case shape) ?_ ?_ ?_ ?_
  · simpa using perm.length_eq
  · intro k hk l hl
    exact List.inj_on_of_nodup_map apart hk hl
  · intro k hk
    obtain ⟨x, hx⟩ := (Keyed.mem_keys_iff _ _).mp hk
    exact Keyed.mem_keys_of_get? (goes k x hx)
  · intro k x y hx hy
    rw [goes k x hx] at hy
    cases hy
    unfold respelled
    split
    · rename_i f hf
      exact hr k f x hf hx
    · exact (ho.of_get? hx).sameEntries

theorem sameEntries_array {next : Json → Json} {elements : List Json}
    (h : ∀ x ∈ elements, x.SameEntries (next x)) :
    (Json.array elements).SameEntries (array next (.array elements)) := by
  refine .array (List.length_map _) ?_
  intro i x y hx hy
  simp only [List.getElem?_map, hx, Option.map_some, Option.some.injEq] at hy
  rw [← hy]
  exact h x (List.mem_of_getElem? hx)

/-- A tag is moved only to a key that is free. -/
theorem sameEntries_moveTag {j : Json} (hj : j.Ordered) (key : String) :
    j.SameEntries (moveTag case key j) := by
  cases j with
  | object ms =>
    simp only [moveTag]
    split
    · exact hj.sameEntries
    · rename_i hfree
      obtain ⟨hne, hfree⟩ := not_or.mp hfree
      have hnone : Keyed.get? ms (case.apply key) = none := by
        simpa [Keyed.contains] using hfree
      have hfresh : case.apply key ∉ Keyed.keys ms := (Keyed.get?_eq_none_iff _ _).mp hnone
      cases ht : Keyed.get? ms key with
      | none => exact hj.sameEntries
      | some tag =>
        have hw : case.apply key ∉ Keyed.keys (Keyed.erase key ms) := by
          rw [← Keyed.get?_eq_none_iff, Keyed.get?_erase, if_neg hne, hnone]
        have hout := (Keyed.insert_perm hw tag).length_eq
        have hin := (Keyed.perm_cons_erase hj.sorted.nodup ht).length_eq
        refine .object (fun k => if k = key then case.apply key else k) (hout.trans hin.symm) ?_ ?_ ?_
        · intro k hk l hl he
          by_cases hkk : k = key <;> by_cases hlk : l = key
          · rw [hkk, hlk]
          · simp only [hkk, hlk, if_true, if_false] at he
            exact absurd (he ▸ hl) hfresh
          · simp only [hkk, hlk, if_true, if_false] at he
            exact absurd (he ▸ hk) hfresh
          · simpa only [hkk, hlk, if_false] using he
        · intro k hk
          obtain ⟨x, hx⟩ := (Keyed.mem_keys_iff _ _).mp hk
          rw [Keyed.mem_keys_insert]
          by_cases hkk : k = key
          · exact .inl (if_pos hkk)
          · have he : Keyed.get? (Keyed.erase key ms) k = some x := by
              rw [Keyed.get?_erase, if_neg hkk, hx]
            simp only [hkk, if_false]
            exact .inr (Keyed.mem_keys_of_get? he)
        · intro k x y hx hy
          by_cases hkk : k = key
          · simp only [hkk, if_true, Keyed.get?_insert_self, Option.some.injEq] at hy
            rw [hkk, ht] at hx
            cases hx
            cases hy
            exact (hj.of_get? ht).sameEntries
          · have hkw : k ≠ case.apply key := fun he => hfresh (he ▸ Keyed.mem_keys_of_get? hx)
            simp only [hkk, if_false, Keyed.get?_insert, hkw, Keyed.get?_erase, hx] at hy
            cases hy
            exact (hj.of_get? hx).sameEntries
  | _ => exact hj.sameEntries

/-- If keys go out apart wherever the walk comes, all entries are kept, by induction on the levels. -/
theorem sameEntries_rekey (c : Context) {n : Nat} {d : Definition} {j : Json} (hj : j.Ordered)
    (apart : ∀ shape record, Respells c shape record n d j → SpelledApart c.case shape record) :
    j.SameEntries (rekey c n d j) := by
  induction n generalizing d j with
  | zero => exact hj.sameEntries
  | succ n ih =>
    cases hk : d.kind with
    | reference target =>
      cases hd : c.view.definition? target with
      | none =>
        rw [rekey_eq_self j (by simp [hk, hd])]
        exact hj.sameEntries
      | some definition =>
        rw [rekey_reference hk hd]
        exact ih hj fun shape record h => apart shape record (.reference hk hd h)
    | object fields =>
      rw [rekey_object hk]
      cases j with
      | object members =>
        refine sameEntries_object hj (apart fields members (.object hk)) ?_
        intro key f x hf hx
        exact ih (hj.of_get? hx) fun shape record h => apart shape record (.member hk hf hx h)
      | _ => exact hj.sameEntries
    | array items =>
      cases items with
      | of element =>
        rw [rekey_array hk]
        cases j with
        | array elements =>
          apply sameEntries_array
          intro x hx
          exact ih (hj.of_mem hx) fun shape record h => apart shape record (.element hk hx h)
        | _ => exact hj.sameEntries
      | shape fields =>
        rw [rekey_shapes hk]
        cases j with
        | array elements =>
          apply sameEntries_array
          intro y hy
          have ho := hj.of_mem hy
          cases y with
          | object members =>
            refine sameEntries_object ho (apart fields members (.shapes hk hy)) ?_
            intro key f x hf hx
            exact ih (ho.of_get? hx)
              fun shape record h => apart shape record (.shapeMember hk hy hf hx h)
          | _ => exact ho.sameEntries
        | _ => exact hj.sameEntries
    | union discriminator variants =>
      cases discriminator with
      | some key =>
        cases hv : Variant.chosenBy? variants key j with
        | none =>
          simp only [rekey, step, hk, hv]
          exact sameEntries_moveTag hj key
        | some variant =>
          rw [rekey_tagged hk hv]
          have hs : j.SameEntries (rekey c n variant.definition j) :=
            ih hj fun shape record h => apart shape record (.tagged hk hv h)
          exact hs.trans (sameEntries_moveTag (ordered_rekey c n variant.definition hj) key)
      | none =>
        cases hv : variants.find? fun v => fits v.definition j with
        | none =>
          rw [rekey_eq_self j (by simp [hk, hv])]
          exact hj.sameEntries
        | some variant =>
          rw [rekey_untagged hk hv]
          exact ih hj fun shape record h => apart shape record (.untagged hk hv h)
    | literal value =>
      rw [rekey_eq_self j (by simp [hk])]
      exact hj.sameEntries
    | scalar kind =>
      rw [rekey_eq_self j (by simp [hk])]
      exact hj.sameEntries

/-! ### What the count of entries tells -/

variable {shape : List Field} {record : Keyed Json}

def GainsNone (next : Rekeying) (shape : List Field) (record : Keyed Json) : Prop :=
  ∀ key f x, shape.find? (·.name == key) = some f → Keyed.get? record key = some x →
    (next f.definition x).entryCount ≤ x.entryCount

theorem entryCount_respelled_le (hn : (Keyed.keys record).Nodup)
    (hle : GainsNone next shape record) {p : String × Json} (hp : p ∈ record) :
    (respelled next shape p.1 p.2).entryCount ≤ p.2.entryCount := by
  unfold respelled
  split
  · rename_i f hf
    exact hle p.1 f p.2 hf (Keyed.get?_of_mem hn hp)
  · exact Nat.le_refl _

theorem membersCount_outEntries (hn : (Keyed.keys record).Nodup) :
    Json.membersCount (outEntries case next shape record) =
      (record.map fun p => 1 + (respelled next shape p.1 p.2).entryCount).sum := by
  have hp : (outEntries case next shape record).Perm (record.map (outEntry case next shape)) :=
    outEntries_perm shape hn
  rw [Json.membersCount_perm hp, Json.membersCount_eq_sum, List.map_map]
  rfl

theorem membersCount_outEntries_le (hn : (Keyed.keys record).Nodup)
    (hle : GainsNone next shape record) :
    Json.membersCount (outEntries case next shape record) ≤ Json.membersCount record := by
  rw [membersCount_outEntries hn, Json.membersCount_eq_sum]
  apply List.sum_le_sum
  intro p hp
  have h := entryCount_respelled_le hn hle hp
  omega

theorem membersCount_members_le (case : KeyCase) (next : Rekeying) (shape : List Field)
    (record : Keyed Json) :
    Json.membersCount (members case next shape record) ≤
      Json.membersCount (outEntries case next shape record) := by
  rw [members_eq_ofList]
  exact Json.membersCount_union_le Keyed.sorted_nil

theorem entryCount_object_le (hn : (Keyed.keys record).Nodup)
    (hle : GainsNone next shape record) :
    (object case next shape (.object record)).entryCount ≤ (Json.object record).entryCount :=
  Nat.le_trans (membersCount_members_le case next shape record) (membersCount_outEntries_le hn hle)

/-- A record that keeps the count of its entries is spelled apart, and so do its values keep
theirs. -/
theorem of_entryCount_object (hn : (Keyed.keys record).Nodup)
    (hle : GainsNone next shape record)
    (he : (Json.object record).entryCount ≤ (object case next shape (.object record)).entryCount) :
    SpelledApart case shape record ∧
      ∀ key f x, shape.find? (·.name == key) = some f → Keyed.get? record key = some x →
        x.entryCount ≤ (next f.definition x).entryCount := by
  have hm := membersCount_members_le case next shape record
  have ho : Json.membersCount (outEntries case next shape record) ≤ Json.membersCount record :=
    membersCount_outEntries_le hn hle
  have hc : Json.membersCount record ≤ Json.membersCount (members case next shape record) := he
  constructor
  · have hk : (Keyed.keys (outEntries case next shape record ++ [])).Nodup := by
      apply Json.nodup_of_membersCount_union Keyed.sorted_nil
      rw [members_eq_ofList] at hc
      exact Nat.le_trans ho hc
    have hp : (outEntries case next shape record).Perm (record.map (outEntry case next shape)) :=
      outEntries_perm shape hn
    rw [List.append_nil] at hk
    have hs := (hp.map Prod.fst).nodup_iff.mp hk
    simpa [SpelledApart, Keyed.keys, outEntry, Function.comp_def] using hs
  · intro key f x hf hx
    by_contra hlt
    have hs : respelled next shape key x = next f.definition x := by simp [respelled, hf]
    have hsum : Json.membersCount (outEntries case next shape record) <
        Json.membersCount record := by
      rw [membersCount_outEntries hn, Json.membersCount_eq_sum]
      refine List.sum_lt_sum _ _ ?_ ⟨(key, x), Keyed.mem_of_get? hx, ?_⟩
      · intro p hp
        have h := entryCount_respelled_le hn hle hp
        omega
      · have h : 1 + (respelled next shape key x).entryCount < 1 + x.entryCount := by
          rw [hs]
          omega
        exact h
    omega

theorem entryCount_array_le {next : Json → Json} {elements : List Json}
    (hle : ∀ x ∈ elements, (next x).entryCount ≤ x.entryCount) :
    (array next (.array elements)).entryCount ≤ (Json.array elements).entryCount := by
  simp only [array, Json.entryCount, Json.elementsCount_eq_sum, List.map_map]
  exact List.sum_le_sum hle

/-- If no element gains an entry and the list loses none, no element loses one. -/
theorem of_entryCount_array {next : Json → Json} {elements : List Json}
    (hle : ∀ x ∈ elements, (next x).entryCount ≤ x.entryCount)
    (he : (Json.array elements).entryCount ≤ (array next (.array elements)).entryCount) :
    ∀ x ∈ elements, x.entryCount ≤ (next x).entryCount := by
  intro x hx
  by_contra hlt
  have hsum : ((elements.map next).map Json.entryCount).sum <
      (elements.map Json.entryCount).sum := by
    rw [List.map_map]
    exact List.sum_lt_sum _ _ hle ⟨x, hx, by simpa using hlt⟩
  simp only [array, Json.entryCount, Json.elementsCount_eq_sum] at he
  omega

theorem entryCount_moveTag {j : Json} (hj : j.Ordered) (key : String) :
    (moveTag case key j).entryCount = j.entryCount :=
  (sameEntries_moveTag hj key).entryCount_eq hj (ordered_moveTag hj)

theorem gainsNone_of_ordered {f : Rekeying} (h : (Json.object record).Ordered)
    (hf : ∀ d x, x.Ordered → (f d x).entryCount ≤ x.entryCount) : GainsNone f shape record :=
  fun _ _ _ _ hx => hf _ _ (h.of_get? hx)

/-- Going out brings in no entry. -/
theorem entryCount_rekey_le (c : Context) (n : Nat) (d : Definition) {j : Json} (hj : j.Ordered) :
    (rekey c n d j).entryCount ≤ j.entryCount := by
  induction n generalizing d j with
  | zero => exact Nat.le_refl _
  | succ n ih =>
    have record : ∀ shape (y : Json), y.Ordered →
        (object c.case (rekey c n) shape y).entryCount ≤ y.entryCount := by
      intro shape y hy
      cases y with
      | object members =>
        exact entryCount_object_le hy.sorted.nodup
          (gainsNone_of_ordered hy fun d _ => ih d)
      | _ => exact Nat.le_refl _
    have list : ∀ next : Json → Json, (∀ x, x.Ordered → (next x).entryCount ≤ x.entryCount) →
        (array next j).entryCount ≤ j.entryCount := by
      intro next hn
      cases j with
      | array elements => exact entryCount_array_le fun x hx => hn x (hj.of_mem hx)
      | _ => exact Nat.le_refl _
    simp only [rekey, step]
    split
    · split
      · exact ih _ hj
      · exact Nat.le_refl _
    · exact record _ j hj
    · exact list _ fun _ => ih _
    · exact list _ fun x => record _ x
    · split
      · rw [entryCount_moveTag (ordered_rekey c n _ hj)]
        exact ih _ hj
      · rw [entryCount_moveTag hj]
    · split
      · exact ih _ hj
      · exact Nat.le_refl _
    · exact Nat.le_refl _
    · exact Nat.le_refl _

/-- A walk that keeps the count of entries comes only to records whose keys are spelled apart. -/
theorem spelledApart_of_entryCount {c : Context} {n : Nat} {d : Definition} {j : Json}
    (h : Respells c shape record n d j) (hj : j.Ordered)
    (he : j.entryCount ≤ (rekey c n d j).entryCount) : SpelledApart c.case shape record := by
  have gains : ∀ {n shape record}, (Json.object record).Ordered →
      GainsNone (rekey c n) shape record :=
    fun ho => gainsNone_of_ordered ho fun d _ => entryCount_rekey_le c _ d
  have record_le : ∀ n fields, ∀ x : Json, x.Ordered →
      (object c.case (rekey c n) fields x).entryCount ≤ x.entryCount := by
    intro n fields x hx
    cases x with
    | object members => exact entryCount_object_le hx.sorted.nodup (gains hx)
    | _ => exact Nat.le_refl _
  induction h with
  | object hk =>
    rw [rekey_object hk] at he
    exact (of_entryCount_object hj.sorted.nodup (gains hj) he).1
  | shapes hk hm =>
    rw [rekey_shapes hk] at he
    have hx := of_entryCount_array (fun x hx => record_le _ _ x (hj.of_mem hx)) he _ hm
    have ho := hj.of_mem hm
    exact (of_entryCount_object ho.sorted.nodup (gains ho) hx).1
  | reference hk hd _ ih =>
    rw [rekey_reference hk hd] at he
    exact ih hj he
  | member hk hf hx _ ih =>
    rw [rekey_object hk] at he
    exact ih (hj.of_get? hx) ((of_entryCount_object hj.sorted.nodup (gains hj) he).2 _ _ _ hf hx)
  | element hk hx _ ih =>
    rw [rekey_array hk] at he
    exact ih (hj.of_mem hx)
      (of_entryCount_array (fun x hx => entryCount_rekey_le c _ _ (hj.of_mem hx)) he _ hx)
  | shapeMember hk hm hf hx _ ih =>
    rw [rekey_shapes hk] at he
    have ho := hj.of_mem hm
    have hy := of_entryCount_array (fun x hx => record_le _ _ x (hj.of_mem hx)) he _ hm
    exact ih (ho.of_get? hx) ((of_entryCount_object ho.sorted.nodup (gains ho) hy).2 _ _ _ hf hx)
  | tagged hk hv _ ih =>
    rw [rekey_tagged hk hv, entryCount_moveTag (ordered_rekey c _ _ hj)] at he
    exact ih hj he
  | untagged hk hv _ ih =>
    rw [rekey_untagged hk hv] at he
    exact ih hj he

end WireKeys

/-- A record keeps all its entries on the way out if and only if no two keys of a record in it go out
under one key. -/
theorem toWire_sameEntries_iff_spelledApart (c : Context) (d : Definition) (j : Json)
    (ordered : j.Ordered) :
    j.SameEntries (c.toWire d j) ↔
      ∀ shape record, WireKeys.Respells c shape record (nestingLimit + 1) d j →
        WireKeys.SpelledApart c.case shape record := by
  constructor
  · intro same shape record h
    have he := same.entryCount_eq ordered (WireKeys.ordered_rekey c _ d ordered)
    exact WireKeys.spelledApart_of_entryCount h ordered he.ge
  · exact WireKeys.sameEntries_rekey c ordered

/-! ### An order and a payment -/

def checkout : Context := { view := ⟨.empty, .global⟩, case := .camel }

def order : Definition :=
  .object [{ name := "placed_at", definition := .scalar .string },
    { name := "total", definition := .scalar .integer }]

def orderRecord : Json :=
  .object [("note", .string "fragile"), ("placed_at", .string "noon"), ("total", .int 5)]

theorem orderRecord_ordered : orderRecord.Ordered :=
  Json.ordered_of_leaves (by decide) (by decide)

theorem checkout_placed_at : checkout.case.apply "placed_at" = "placedAt" := by decide +kernel

theorem checkout_total : checkout.case.apply "total" = "total" := by decide +kernel

theorem orderRecord_kept :
    orderRecord.Ordered ∧ orderRecord.SameEntries (checkout.toWire order orderRecord) := by
  refine ⟨orderRecord_ordered,
    (toWire_sameEntries_iff_spelledApart checkout order orderRecord orderRecord_ordered).mpr ?_⟩
  intro shape record h
  cases h with
  | object hk =>
    cases hk
    simp [WireKeys.SpelledApart, Keyed.keys, WireKeys.spelling, Field.wireName,
      checkout_placed_at, checkout_total]
  | @member _ _ _ _ key f x hk hf hx h =>
    -- both fields are scalars, and the walk ends there
    cases hk
    have hs : ∃ kind, f.definition.kind = .scalar kind := by
      have hm := List.mem_of_find?_eq_some hf
      simp only [List.mem_cons, List.not_mem_nil, or_false] at hm
      rcases hm with rfl | rfl <;> exact ⟨_, rfl⟩
    obtain ⟨kind, hs⟩ := hs
    exact absurd h (WireKeys.not_respells_scalar hs)
  | reference hk => cases hk
  | tagged hk => cases hk
  | untagged hk => cases hk

def network : Field :=
  { name := "kind", rename := some "payment_kind", definition := .scalar .string }

def taggedPayment : Definition :=
  .taggedUnion "payment_kind" [{ tag := some "card", definition := .object [network] }]

def paymentRecord : Json := .object [("kind", .string "visa"), ("payment_kind", .string "card")]

/-- The tag takes the place of the network before it is moved to a key of its own. -/
theorem paymentRecord_loses_network :
    checkout.toWire taggedPayment paymentRecord = .object [("paymentKind", .string "card")] ∧
      ¬ paymentRecord.SameEntries (checkout.toWire taggedPayment paymentRecord) := by
  have hw : checkout.toWire taggedPayment paymentRecord =
      .object [("paymentKind", .string "card")] := by decide +kernel
  refine ⟨hw, ?_⟩
  rw [hw]
  intro h
  exact absurd h.length_eq (by decide)

end ApiContract
