import ApiContract.Proofs.Conformance
import ApiContract.Proofs.KeyOrder

/-!
# Excused keys

Inside a tagged union the key of the tag is excused. In an object that conforms with a key excused,
the key is one of a field, or the object conforms without it.
-/

namespace ApiContract

open Validation

/-- Without a key that no field has, an object meets its shape with the key no longer excused. -/
theorem Validation.MeetsShape.erase {case : KeyCase} {tags tags' : List String} {key : String}
    {P : Definition → Json → Prop} {shape : List Field} {members : Keyed Json}
    (h : MeetsShape case tags P shape members) (free : ∀ f ∈ shape, f.wireName case ≠ key)
    (more : tags ⊆ key :: tags') : MeetsShape case tags' P shape (Keyed.erase key members) where
  known other ho := by
    obtain ⟨ho, different⟩ := Keyed.mem_keys_erase.mp ho
    exact (h.known other ho).imp_right fun ht => (List.mem_cons.mp (more ht)).resolve_left different
  present f hf m hm := h.present f hf m (by rwa [Keyed.get?_erase, if_neg (free f hf)] at hm)
  absent f hf hm := h.absent f hf (by rwa [Keyed.get?_erase, if_neg (free f hf)] at hm)

/-- A key that no field has may be put back if it is excused. -/
theorem Validation.MeetsShape.of_erase {case : KeyCase} {key : String}
    {P : Definition → Json → Prop} {shape : List Field} {members : Keyed Json}
    (h : MeetsShape case [] P shape (Keyed.erase key members))
    (free : ∀ f ∈ shape, f.wireName case ≠ key) : MeetsShape case [key] P shape members where
  known other ho := by
    by_cases here : other = key
    · exact .inr (here ▸ List.mem_cons_self)
    · exact .inl ((h.known other (Keyed.mem_keys_erase.mpr ⟨ho, here⟩)).resolve_right nofun)
  present f hf m hm := h.present f hf m (by rwa [Keyed.get?_erase, if_neg (free f hf)])
  absent f hf hm := h.absent f hf (by rwa [Keyed.get?_erase, if_neg (free f hf)])

/-- Excusing more keys refuses no value. -/
theorem Conforms.mono {c : Context} {tags tags' : List String} {d : Definition} {j : Json}
    (h : Conforms c tags d j) (more : tags ⊆ tags') : Conforms c tags' d j := by
  induction h generalizing tags' with
  | null hn => exact .null hn
  | reference hk hd _ ih => exact .reference hk hd (ih more)
  | object hk known present absent =>
    exact .object hk (fun key h => (known key h).imp_right (@more key)) present absent
  | array hk hc h => exact .array hk hc h
  | shapes hk hc h => exact .shapes hk hc h
  | tagged hk ht hv _ ih => exact .tagged hk ht hv (ih (List.cons_subset_cons _ more))
  | untagged hk hv h => exact .untagged hk hv h
  | literal hk hs => exact .literal hk hs
  | scalar hk hn h => exact .scalar hk hn h

/-- A key that is excused in an object is one of a field, or could as well be missing. -/
theorem Conforms.excused {c : Context} {tags tags' : List String} {d : Definition} {j : Json}
    (h : Conforms c tags d j) {key : String} (more : tags ⊆ key :: tags') {members : Keyed Json}
    (is : j = .object members) :
    Conforms c tags' d (.object members) ∨
      Conforms c tags' d (.object (Keyed.erase key members)) := by
  induction h generalizing tags' with
  | null hn => cases is
  | reference hk hd _ ih => exact (ih more is).imp (.reference hk hd) (.reference hk hd)
  | @object tags d shape _ hk known present absent =>
    cases is
    by_cases field : key ∈ shape.map (Field.wireName c.case)
    · refine .inl (.object hk (fun other ho => ?_) present absent)
      rcases known other ho with hs | ht
      · exact .inl hs
      · rcases List.mem_cons.mp (more ht) with rfl | ht
        · exact .inl field
        · exact .inr ht
    · have free (f : Field) (hf : f ∈ shape) : f.wireName c.case ≠ key :=
        fun here => field (List.mem_map.mpr ⟨f, hf, here⟩)
      have meets : MeetsShape c.case tags (Conforms c []) shape _ := ⟨known, present, absent⟩
      have rest := meets.erase free more
      exact .inr (.object hk rest.known rest.present rest.absent)
  | array => cases is
  | shapes => cases is
  | @tagged tags d key' variants _ tag variant hk ht hv h ih =>
    cases is
    by_cases here : c.case.apply key' = key
    · refine .inl (.tagged hk ht hv (h.mono ?_))
      exact List.cons_subset.mpr ⟨List.mem_cons_self, here ▸ more⟩
    · have more : c.case.apply key' :: tags ⊆ key :: c.case.apply key' :: tags' := by
        intro other ho
        rcases List.mem_cons.mp ho with rfl | ho
        · simp
        · rcases List.mem_cons.mp (more ho) with rfl | ho <;> simp [*]
      refine (ih more rfl).imp (.tagged hk ht hv) (.tagged hk ?_ hv)
      rw [Keyed.get?_erase, if_neg here, ht]
  | untagged hk hv h => exact .inl (is ▸ .untagged hk hv h)
  | literal hk hs => exact .inl (is ▸ .literal hk hs)
  | scalar hk hn h => exact .inl (is ▸ .scalar hk hn h)

/-- A walk gets no deeper when a key is taken out. -/
theorem endsWithin_erase {c : Context} {n : Nat} {d : Definition} {members : Keyed Json}
    (key : String) (h : c.endsWithin n d (.object members) = true) :
    c.endsWithin n d (.object (Keyed.erase key members)) = true := by
  induction n generalizing d with
  | zero => cases h
  | succ n ih =>
    unfold Context.endsWithin at h ⊢
    cases hk : d.kind with
    | reference target =>
      simp only [hk, Option.all_eq_true] at h ⊢
      exact fun e he => ih (h e he)
    | object shape =>
      simp only [hk, List.all_eq_true, Option.all_eq_true, Keyed.get?_erase] at h ⊢
      intro f hf m hm
      split at hm
      · cases hm
      · exact h f hf m hm
    | union discriminator variants =>
      cases discriminator with
      | none =>
        simp only [hk, List.all_eq_true] at h ⊢
        exact fun v hv => ih (h v hv)
      | some key' =>
        simp only [hk, Keyed.get?_erase] at h ⊢
        by_cases here : c.case.apply key' = key
        · simp [here]
        · rw [if_neg here]
          split at h
          · simp only [Option.all_eq_true] at h ⊢
            exact fun v hv => ih (h v hv)
          · rfl
    | array items => cases items <;> rfl
    | _ => rfl

/-- To an object whose fields leave the key alone it makes no difference. -/
theorem conforms_erase_iff {c : Context} {key : String} {d : Definition} {shape : List Field}
    (hk : d.kind = .object shape) (free : ∀ f ∈ shape, f.wireName c.case ≠ key)
    (members : Keyed Json) :
    Conforms c [key] d (.object members) ↔ Conforms c [] d (.object (Keyed.erase key members)) := by
  rw [conforms_iff [key] rfl, conforms_iff [] rfl]
  unfold StepMeets
  rw [hk]
  simp only [Json.object.injEq, exists_eq_left']
  exact ⟨fun h => h.erase free (List.Subset.refl _), fun h => h.of_erase free⟩

/-- Where the walk over an object ends in time, a type that takes nothing without a key takes it
with the key excused just where it takes it as it is. -/
theorem accepts_iff_excused {c : Context} {key tag : String} {d : Definition} {members : Keyed Json}
    (tagged : ∀ j, j ≠ .null → c.accepts d j = true → j.get? key = some (.string tag))
    (ends : c.endsWithin nestingLimit d (.object members) = true) :
    c.accepts d (.object members) = true ↔ Conforms c [key] d (.object members) := by
  have few : nestingLimit ≤ nestingLimit + 1 := Nat.le_succ _
  constructor
  · intro h
    exact ((accepts_iff_conforms few ends).mp h).mono (List.nil_subset _)
  · intro h
    have only : [key] ⊆ key :: [] := List.Subset.refl _
    refine (accepts_iff_conforms few ends).mpr ((h.excused only rfl).resolve_right fun rest => ?_)
    have found := tagged _ Json.noConfusion
      ((accepts_iff_conforms few (endsWithin_erase key ends)).mpr rest)
    simp [Json.get?, Keyed.get?_erase] at found

end ApiContract
