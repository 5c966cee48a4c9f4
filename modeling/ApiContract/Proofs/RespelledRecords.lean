import ApiContract.Payload.WireKeys
import ApiContract.Proofs.KeyOrder
import Mathlib.Data.List.Nodup

/-!
# Records under their wire keys

The entries of a record go out one by one under the keys of their fields, and those without a field
under their own. Where no two of these keys are the same, the record that goes out has exactly those
entries. It is in key order again.
-/

namespace ApiContract

namespace WireKeys

/-! ### One step -/

theorem rekey_reference {c : Context} {n : Nat} {d definition : Definition} {target : String}
    (hk : d.kind = .reference target) (hd : c.view.definition? target = some definition)
    (j : Json) : rekey c (n + 1) d j = rekey c n definition j := by
  change step c (rekey c n) d j = _
  simp only [step, hk, hd]

theorem rekey_object {c : Context} {n : Nat} {d : Definition} {shape : List Field}
    (hk : d.kind = .object shape) (j : Json) :
    rekey c (n + 1) d j = object c.case (rekey c n) shape j := by
  change step c (rekey c n) d j = _
  simp only [step, hk]

theorem rekey_array {c : Context} {n : Nat} {d element : Definition}
    (hk : d.kind = .array (.of element)) (j : Json) :
    rekey c (n + 1) d j = array (rekey c n element) j := by
  change step c (rekey c n) d j = _
  simp only [step, hk]

theorem rekey_shapes {c : Context} {n : Nat} {d : Definition} {fields : List Field}
    (hk : d.kind = .array (.shape fields)) (j : Json) :
    rekey c (n + 1) d j = array (object c.case (rekey c n) fields) j := by
  change step c (rekey c n) d j = _
  simp only [step, hk]

theorem rekey_tagged {c : Context} {n : Nat} {d : Definition} {key : String}
    {variants : List Variant} {variant : Variant} {j : Json}
    (hk : d.kind = .union (some key) variants)
    (hv : Variant.chosenBy? variants key j = some variant) :
    rekey c (n + 1) d j = moveTag c.case key (rekey c n variant.definition j) := by
  change step c (rekey c n) d j = _
  simp only [step, hk, hv]

theorem rekey_untagged {c : Context} {n : Nat} {d : Definition} {variants : List Variant}
    {variant : Variant} {j : Json} (hk : d.kind = .union none variants)
    (hv : variants.find? (fun v => fits v.definition j) = some variant) :
    rekey c (n + 1) d j = rekey c n variant.definition j := by
  change step c (rekey c n) d j = _
  simp only [step, hk, hv]

/-- What has no part to go on to stays as it is. -/
theorem rekey_eq_self {c : Context} {n : Nat} {d : Definition} (j : Json)
    (h : match d.kind with
      | .reference target => c.view.definition? target = none
      | .union none variants => variants.find? (fun v => fits v.definition j) = none
      | .scalar _ | .literal _ => True
      | _ => False) : rekey c (n + 1) d j = j := by
  change step c (rekey c n) d j = j
  simp only [step]
  split at h <;> first | simp only [*] | cases h

/-! ### The entries of one record -/

def spelling (case : KeyCase) (shape : List Field) (key : String) : String :=
  match shape.find? (·.name == key) with
  | some f => f.wireName case
  | none => key

def respelled (next : Rekeying) (shape : List Field) (key : String) (j : Json) : Json :=
  match shape.find? (·.name == key) with
  | some f => next f.definition j
  | none => j

def outEntry (case : KeyCase) (next : Rekeying) (shape : List Field) (p : String × Json) :
    String × Json :=
  (spelling case shape p.1, respelled next shape p.1 p.2)

def outEntries (case : KeyCase) (next : Rekeying) : List Field → Keyed Json → List (String × Json)
  | [], record => record
  | f :: rest, record =>
    match Keyed.get? record f.name with
    | some j =>
      (f.wireName case, next f.definition j) ::
        outEntries case next rest (Keyed.erase f.name record)
    | none => outEntries case next rest record

variable {case : KeyCase} {next : Rekeying}

/-- Entries go out one after another, the later over the earlier. -/
theorem members_eq_ofList (shape : List Field) (record : Keyed Json) :
    members case next shape record = Keyed.ofList (outEntries case next shape record) := by
  have h : ∀ (rest out : Keyed Json),
      (let (rest, out) := shape.foldl
        (fun (rest, out) f =>
          match Keyed.get? rest f.name with
          | some j =>
            (Keyed.erase f.name rest, Keyed.insert (f.wireName case) (next f.definition j) out)
          | none => (rest, out))
        (rest, out)
      Keyed.union out rest) = Keyed.union out (outEntries case next shape rest) := by
    induction shape with
    | nil => intro rest out; rfl
    | cons f shape ih =>
      intro rest out
      simp only [List.foldl_cons, outEntries]
      cases Keyed.get? rest f.name with
      | some j => exact ih _ _
      | none => exact ih _ _
  exact h record []

theorem outEntry_of_ne {f : Field} {p : String × Json} (h : p.1 ≠ f.name) (shape : List Field) :
    outEntry case next (f :: shape) p = outEntry case next shape p := by
  have hb : (f.name == p.1) = false := by simpa using Ne.symm h
  simp [outEntry, spelling, respelled, hb]

/-- The entries go out in another order, with those of fields last. -/
theorem outEntries_perm (shape : List Field) {record : Keyed Json}
    (hn : (Keyed.keys record).Nodup) :
    (outEntries case next shape record).Perm (record.map (outEntry case next shape)) := by
  induction shape generalizing record with
  | nil =>
    have he : record.map (outEntry case next []) = record := List.map_id' record
    rw [he]
    exact .refl record
  | cons f shape ih =>
    simp only [outEntries]
    have hne : ∀ rest : Keyed Json, f.name ∉ Keyed.keys rest →
        rest.map (outEntry case next (f :: shape)) = rest.map (outEntry case next shape) := by
      intro rest hr
      apply List.map_congr_left
      intro p hp
      exact outEntry_of_ne (fun he => hr (he ▸ Keyed.mem_keys_of_mem hp)) shape
    cases hj : Keyed.get? record f.name with
    | some j =>
      have hp := Keyed.perm_cons_erase hn hj
      have hd : (Keyed.keys ((f.name, j) :: Keyed.erase f.name record)).Nodup :=
        (hp.map Prod.fst).nodup_iff.mp hn
      obtain ⟨hf, he⟩ := List.nodup_cons.mp hd
      have hh : outEntry case next (f :: shape) (f.name, j) =
          (f.wireName case, next f.definition j) := by
        simp [outEntry, spelling, respelled]
      refine .trans ?_ (hp.map _).symm
      rw [List.map_cons, hh, hne _ hf]
      exact (ih he).cons _
    | none =>
      have hf : f.name ∉ Keyed.keys record := (Keyed.get?_eq_none_iff record f.name).mp hj
      rw [hne record hf]
      exact ih hn

/-- The entries of a record whose keys are spelled apart, as they go out. -/
theorem members_perm {shape : List Field} {record : Keyed Json}
    (apart : ((Keyed.keys record).map (spelling case shape)).Nodup) :
    (members case next shape record).Perm (record.map (outEntry case next shape)) := by
  have hp : (outEntries case next shape record).Perm (record.map (outEntry case next shape)) :=
    outEntries_perm shape (List.Nodup.of_map _ apart)
  have hk : (Keyed.keys (outEntries case next shape record)).Nodup := by
    refine (hp.map Prod.fst).nodup_iff.mpr ?_
    simpa [Keyed.keys, outEntry, Function.comp_def] using apart
  rw [members_eq_ofList]
  exact (Keyed.ofList_perm hk).trans hp

/-! ### Values in order -/

theorem ordered_object {shape : List Field} {j : Json} (h : j.Ordered)
    (hr : ∀ d x, x.Ordered → (next d x).Ordered) : (object case next shape j).Ordered := by
  cases j with
  | object record =>
    refine .object ?_ ?_
    · rw [members_eq_ofList]
      exact Keyed.sorted_ofList _
    · intro key y hy
      rw [members_eq_ofList] at hy
      have hm := (outEntries_perm shape h.sorted.nodup).mem_iff.mp (Keyed.mem_of_get?_ofList hy)
      obtain ⟨p, hp, he⟩ := List.mem_map.mp hm
      have hx : p.2.Ordered := h.of_get? (Keyed.get?_of_mem h.sorted.nodup hp)
      obtain rfl : respelled next shape p.1 p.2 = y := congrArg Prod.snd he
      unfold respelled
      split
      · exact hr _ _ hx
      · exact hx
  | _ => exact h

theorem ordered_array {next : Json → Json} {j : Json} (h : j.Ordered)
    (hn : ∀ x, x.Ordered → (next x).Ordered) : (array next j).Ordered := by
  cases j with
  | array elements =>
    refine .array ?_
    intro y hy
    obtain ⟨x, hx, rfl⟩ := List.mem_map.mp hy
    exact hn x (h.of_mem hx)
  | _ => exact h

/-- A tag is moved in key order. -/
theorem ordered_moveTag {key : String} {j : Json} (h : j.Ordered) :
    (moveTag case key j).Ordered := by
  cases j with
  | object ms =>
    simp only [moveTag]
    split
    · exact h
    · cases ht : Keyed.get? ms key with
      | none => exact h
      | some tag =>
        refine .object ((h.sorted.erase key).insert _ tag) ?_
        intro k y hy
        rw [Keyed.get?_insert] at hy
        split at hy
        · cases hy
          exact h.of_get? ht
        · rw [Keyed.get?_erase] at hy
          split at hy
          · cases hy
          · exact h.of_get? hy
  | _ => exact h

/-- Whatever goes out in key order stays so, on every level. -/
theorem ordered_rekey (c : Context) (n : Nat) (d : Definition) {j : Json} (h : j.Ordered) :
    (rekey c n d j).Ordered := by
  induction n generalizing d j with
  | zero => exact h
  | succ n ih =>
    simp only [rekey, step]
    split
    · split
      · exact ih _ h
      · exact h
    · exact ordered_object h fun d _ => ih d
    · exact ordered_array h fun _ => ih _
    · exact ordered_array h fun _ hx => ordered_object hx fun d _ => ih d
    · apply ordered_moveTag
      split
      · exact ih _ h
      · exact h
    · split
      · exact ih _ h
      · exact h
    · exact h
    · exact h

end WireKeys

end ApiContract
