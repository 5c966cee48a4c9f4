import ApiContract.Json.Reader
import ApiContract.Proofs.PayloadPlaces

/-!
# Tables and values in key order

A table in key order is settled by its look-ups. Insertions keep the order, and of several values
inserted for one key the last one stays. A JSON value is in order if all its objects are, which is
so for every value that is read from a text.
-/

namespace ApiContract

namespace Keyed

variable {α : Type}

/-! ### Look-ups -/

theorem get?_cons (k : String) (v : α) (rest : Keyed α) (key : String) :
    get? ((k, v) :: rest) key = if key = k then some v else get? rest key := by
  by_cases h : key = k
  · simp [get?, h]
  · have hb : (key == k) = false := by simpa using h
    simp [get?, List.lookup_cons, h, hb]

theorem get?_eq_none_iff (t : Keyed α) (key : String) : get? t key = none ↔ key ∉ t.keys := by
  rw [mem_keys_iff]
  cases get? t key <;> simp

/-- What is looked up is in the table. -/
theorem mem_of_get? {t : Keyed α} {key : String} {v : α} (h : get? t key = some v) :
    (key, v) ∈ t := by
  induction t with
  | nil => cases h
  | cons p rest ih =>
    obtain ⟨k, w⟩ := p
    rw [get?_cons] at h
    split at h
    · rename_i hk
      cases h
      rw [hk]
      exact List.mem_cons_self
    · exact List.mem_cons_of_mem _ (ih h)

theorem mem_keys_of_get? {t : Keyed α} {key : String} {v : α} (h : get? t key = some v) :
    key ∈ t.keys :=
  (mem_keys_iff key t).mpr ⟨v, h⟩

theorem mem_keys_of_mem {t : Keyed α} {p : String × α} (h : p ∈ t) : p.1 ∈ t.keys :=
  List.mem_map_of_mem h

/-- An entry is found if no other one has its key. -/
theorem get?_of_mem {t : Keyed α} {key : String} {v : α} (hn : t.keys.Nodup) (h : (key, v) ∈ t) :
    get? t key = some v := by
  induction t with
  | nil => cases h
  | cons p rest ih =>
    obtain ⟨k, w⟩ := p
    obtain ⟨hk, hr⟩ := List.nodup_cons.mp hn
    rw [get?_cons]
    rcases List.mem_cons.mp h with he | hm
    · cases he
      rw [if_pos rfl]
    · have hm' : key ∈ keys rest := mem_keys_of_mem hm
      have hne : key ≠ k := fun he => hk (he ▸ hm')
      rw [if_neg hne]
      exact ih hr hm

/-- An insertion changes the look-up of its own key only. -/
theorem get?_insert (key : String) (v : α) (t : Keyed α) (other : String) :
    get? (insert key v t) other = if other = key then some v else get? t other := by
  induction t with
  | nil => simp [insert, get?_cons]
  | cons p rest ih =>
    obtain ⟨k, w⟩ := p
    simp only [insert]
    split
    · simp [get?_cons]
    · split
      · rename_i hk
        subst hk
        simp only [get?_cons]
        split <;> rfl
      · rename_i hk
        simp only [get?_cons, ih]
        by_cases ho : other = k
        · have hok : other ≠ key := fun h => hk (h ▸ ho)
          simp [ho, Ne.symm hk]
        · simp [ho]

theorem get?_filter (keep : String → Bool) (t : Keyed α) (key : String) :
    get? (t.filter fun p => keep p.1) key = if keep key then get? t key else none := by
  induction t with
  | nil => simp
  | cons p rest ih =>
    obtain ⟨k, v⟩ := p
    rw [List.filter_cons, get?_cons]
    grind [get?_cons]

theorem get?_erase (key : String) (t : Keyed α) (other : String) :
    get? (erase key t) other = if other = key then none else get? t other := by
  have kept := get?_filter (fun k => k != key) t other
  rw [erase, kept]
  by_cases same : other = key <;> simp [same]

theorem mem_keys_erase {key other : String} {t : Keyed α} :
    other ∈ (erase key t).keys ↔ other ∈ t.keys ∧ other ≠ key := by
  rw [mem_keys_iff, mem_keys_iff, get?_erase]
  split
  · rename_i same
    simp [same]
  · rename_i different
    simp [different]

/-! ### The order -/

theorem mem_keys_insert (key : String) (v : α) (t : Keyed α) (other : String) :
    other ∈ (insert key v t).keys ↔ other = key ∨ other ∈ t.keys := by
  simp only [mem_keys_iff, get?_insert]
  by_cases h : other = key <;> simp [h]

instance (t : Keyed α) : Decidable (Sorted t) :=
  inferInstanceAs (Decidable (t.keys.Pairwise (· < ·)))

@[simp] theorem sorted_nil : Sorted ([] : Keyed α) := List.Pairwise.nil

theorem sorted_cons_iff (k : String) (v : α) (rest : Keyed α) :
    Sorted ((k, v) :: rest) ↔ (∀ key ∈ keys rest, k < key) ∧ Sorted rest :=
  List.pairwise_cons

/-- The place of an insertion is where the key belongs. -/
theorem Sorted.insert {t : Keyed α} (h : Sorted t) (key : String) (v : α) :
    Sorted (insert key v t) := by
  induction t with
  | nil => simp [Keyed.insert, sorted_cons_iff, keys]
  | cons p rest ih =>
    obtain ⟨k, w⟩ := p
    obtain ⟨hk, hr⟩ := (sorted_cons_iff k w rest).mp h
    simp only [Keyed.insert]
    split
    · rename_i hlt
      refine (sorted_cons_iff _ _ _).mpr ⟨?_, h⟩
      intro other ho
      rcases List.mem_cons.mp ho with rfl | ho
      · exact hlt
      · exact String.lt_trans hlt (hk other ho)
    · rename_i hlt
      split
      · rename_i he
        subst he
        exact (sorted_cons_iff _ _ _).mpr ⟨hk, hr⟩
      · rename_i hne
        refine (sorted_cons_iff _ _ _).mpr ⟨?_, ih hr⟩
        intro other ho
        rcases (mem_keys_insert key v rest other).mp ho with rfl | ho
        · rcases String.le_total other k with hle | hle
          · exact absurd (String.le_antisymm (String.not_lt.mp hlt) hle).symm hne
          · exact String.not_le.mp fun hle' => hne (String.le_antisymm hle' hle)
        · exact hk other ho

theorem Sorted.erase {t : Keyed α} (h : Sorted t) (key : String) : Sorted (erase key t) :=
  List.Pairwise.sublist (List.filter_sublist.map _) h

theorem Sorted.nodup {t : Keyed α} (h : Sorted t) : t.keys.Nodup :=
  List.Pairwise.imp (fun {a b} (hlt : a < b) (he : a = b) => String.lt_irrefl b (he ▸ hlt)) h

theorem nodup_of_nodup_keys {t : Keyed α} (h : t.keys.Nodup) : t.Nodup :=
  (List.pairwise_map.mp h).imp fun hne he => hne (congrArg Prod.fst he)

/-- A table in key order is settled by its look-ups. -/
theorem Sorted.ext {t u : Keyed α} (ht : Sorted t) (hu : Sorted u)
    (h : ∀ key, get? t key = get? u key) : t = u := by
  have hp : t.Perm u := by
    refine (List.perm_ext_iff_of_nodup (nodup_of_nodup_keys ht.nodup)
      (nodup_of_nodup_keys hu.nodup)).mpr ?_
    rintro ⟨key, v⟩
    constructor
    · intro hm
      exact mem_of_get? ((h key).symm.trans (get?_of_mem ht.nodup hm))
    · intro hm
      exact mem_of_get? ((h key).trans (get?_of_mem hu.nodup hm))
  have ht' : t.Pairwise fun p q => p.1 < q.1 := List.pairwise_map.mp ht
  have hu' : u.Pairwise fun p q => p.1 < q.1 := List.pairwise_map.mp hu
  refine hp.eq_of_pairwise ?_ ht' hu'
  intro p q _ _ hpq hqp
  exact absurd hqp (String.lt_asymm hpq)

/-! ### Many insertions -/

theorem Sorted.union {t : Keyed α} (h : Sorted t) (pairs : Keyed α) : Sorted (union t pairs) := by
  induction pairs generalizing t with
  | nil => exact h
  | cons p rest ih => exact ih (h.insert p.1 p.2)

theorem sorted_ofList (pairs : List (String × α)) : Sorted (ofList pairs) := sorted_nil.union pairs

theorem get?_union_of_not_mem {pairs : Keyed α} {key : String} (h : key ∉ keys pairs)
    (t : Keyed α) : get? (union t pairs) key = get? t key := by
  induction pairs generalizing t with
  | nil => rfl
  | cons p rest ih =>
    obtain ⟨hp, hr⟩ : key ≠ p.1 ∧ key ∉ keys rest := by simpa [keys] using h
    have hs : get? (union t (p :: rest)) key = get? (insert p.1 p.2 t) key := ih hr _
    rw [hs, get?_insert, if_neg hp]

/-- A key into which only one value is ever put has that value. -/
theorem get?_union_of_mem {pairs : Keyed α} {key : String} {v : α} (h : key ∈ keys pairs)
    (same : ∀ w, (key, w) ∈ pairs → w = v) (t : Keyed α) :
    get? (union t pairs) key = some v := by
  induction pairs generalizing t with
  | nil => cases h
  | cons p rest ih =>
    have hr : ∀ w, (key, w) ∈ rest → w = v := fun w hw => same w (List.mem_cons_of_mem _ hw)
    by_cases hm : key ∈ keys rest
    · exact ih hm hr _
    · obtain rfl : key = p.1 := (List.mem_cons.mp h).resolve_right hm
      have hs : get? (union t (p :: rest)) p.1 = get? (insert p.1 p.2 t) p.1 :=
        get?_union_of_not_mem hm _
      rw [hs, get?_insert, if_pos rfl, same p.2 List.mem_cons_self]

theorem get?_ofList_of_mem {pairs : List (String × α)} {key : String} {v : α}
    (h : (key, v) ∈ pairs) (same : ∀ w, (key, w) ∈ pairs → w = v) :
    get? (ofList pairs) key = some v :=
  get?_union_of_mem (mem_keys_of_mem h) same []

theorem get?_ofList_of_not_mem {pairs : List (String × α)} {key : String} (h : key ∉ keys pairs) :
    get? (ofList pairs) key = none :=
  get?_union_of_not_mem h []

/-- Of pairs with distinct keys each one stays. -/
theorem get?_ofList_of_nodup {pairs : List (String × α)} (distinct : (keys pairs).Nodup)
    (key : String) : get? (ofList pairs) key = get? pairs key := by
  cases h : get? pairs key with
  | none => exact get?_ofList_of_not_mem ((get?_eq_none_iff _ _).mp h)
  | some v =>
    refine get?_ofList_of_mem (mem_of_get? h) fun w hw => ?_
    rw [get?_of_mem distinct hw] at h
    exact Option.some.inj h

/-- Insertions take nothing in but their own pairs. -/
theorem mem_of_get?_union {pairs t : Keyed α} {key : String} {v : α}
    (h : get? (union t pairs) key = some v) : (key, v) ∈ pairs ∨ get? t key = some v := by
  induction pairs generalizing t with
  | nil => exact .inr h
  | cons p rest ih =>
    have h' : get? (union (insert p.1 p.2 t) rest) key = some v := h
    rcases ih h' with hm | hi
    · exact .inl (List.mem_cons_of_mem p hm)
    · rw [get?_insert] at hi
      split at hi
      · rename_i hk
        cases hi
        exact .inl (by rw [hk]; exact List.mem_cons_self)
      · exact .inr hi

theorem mem_of_get?_ofList {pairs : List (String × α)} {key : String} {v : α}
    (h : get? (ofList pairs) key = some v) : (key, v) ∈ pairs :=
  (mem_of_get?_union h).resolve_right nofun

/-! ### Entries in any order -/

/-- A new key adds one entry. -/
theorem insert_perm {key : String} {t : Keyed α} (h : key ∉ t.keys) (v : α) :
    (insert key v t).Perm ((key, v) :: t) := by
  induction t with
  | nil => exact .refl _
  | cons p rest ih =>
    obtain ⟨k, w⟩ := p
    obtain ⟨hk, hr⟩ : key ≠ k ∧ key ∉ keys rest := by simpa [keys] using h
    simp only [insert]
    split
    · exact .refl _
    · exact ((ih hr).cons (k, w)).trans (.swap _ _ _)

/-- Of distinct keys none is lost. -/
theorem union_perm {pairs t : Keyed α} (h : (keys (pairs ++ t)).Nodup) :
    (union t pairs).Perm (pairs ++ t) := by
  induction pairs generalizing t with
  | nil => exact .refl t
  | cons p rest ih =>
    obtain ⟨hp, hr⟩ : p.1 ∉ keys (rest ++ t) ∧ (keys (rest ++ t)).Nodup := List.nodup_cons.mp h
    have ht : p.1 ∉ t.keys := by
      intro hm
      exact hp (by simpa [keys] using .inr (by simpa [keys] using hm))
    have hi : (rest ++ insert p.1 p.2 t).Perm (p :: (rest ++ t)) :=
      ((insert_perm ht p.2).append_left rest).trans List.perm_middle
    have hn : (keys (rest ++ insert p.1 p.2 t)).Nodup := (hi.map Prod.fst).nodup_iff.mpr h
    exact (ih hn).trans hi

theorem ofList_perm {pairs : List (String × α)} (h : (keys pairs).Nodup) :
    (ofList pairs).Perm pairs := by
  have hp : (union [] pairs).Perm (pairs ++ []) := union_perm (by rwa [List.append_nil])
  rwa [List.append_nil] at hp

/-- An entry taken out and put in front leaves a rearranged table. -/
theorem perm_cons_erase {t : Keyed α} (hn : t.keys.Nodup) {key : String} {v : α}
    (h : get? t key = some v) : t.Perm ((key, v) :: erase key t) := by
  induction t with
  | nil => cases h
  | cons p rest ih =>
    obtain ⟨k, w⟩ := p
    obtain ⟨hk, hr⟩ : k ∉ keys rest ∧ (keys rest).Nodup := List.nodup_cons.mp hn
    rw [get?_cons] at h
    split at h
    · rename_i he
      cases h
      subst he
      have hf : erase key ((key, v) :: rest) = rest := by
        simp only [erase, List.filter_cons, bne_self_eq_false, Bool.false_eq_true, if_false]
        refine List.filter_eq_self.mpr fun q hq => ?_
        have hne : q.1 ≠ key := fun he => hk (he ▸ mem_keys_of_mem hq)
        simpa using hne
      rw [hf]
    · rename_i he
      have hf : erase key ((k, w) :: rest) = (k, w) :: erase key rest := by
        have hb : (k != key) = true := by simpa using Ne.symm he
        simp [erase, hb]
      rw [hf]
      exact ((ih hr h).cons _).trans (.swap _ _ _)

/-- An insertion takes out what stood under its key. -/
theorem Sorted.insert_perm {t : Keyed α} (h : Sorted t) (key : String) (v : α) :
    (Keyed.insert key v t).Perm ((key, v) :: Keyed.erase key t) := by
  have he : Keyed.insert key v t = Keyed.insert key v (Keyed.erase key t) := by
    refine (h.insert key v).ext ((h.erase key).insert key v) ?_
    intro other
    simp only [get?_insert, get?_erase]
    split <;> rfl
  have hk : key ∉ Keyed.keys (Keyed.erase key t) := by
    rw [← get?_eq_none_iff, get?_erase, if_pos rfl]
  rw [he]
  exact Keyed.insert_perm hk v

end Keyed

/-! ### Values in order -/

namespace Json

/-- The members of every object stand in key order. -/
inductive Ordered : Json → Prop where
  | leaf {j} (h : j.isLeaf = true) : Ordered j
  | array {elements} (h : ∀ m ∈ elements, Ordered m) : Ordered (.array elements)
  | object {members} (sorted : Keyed.Sorted members)
      (h : ∀ key m, Keyed.get? members key = some m → Ordered m) : Ordered (.object members)

theorem Ordered.of_mem {elements : List Json} (h : (Json.array elements).Ordered) {m : Json}
    (hm : m ∈ elements) : m.Ordered := by
  cases h with
  | leaf h => cases h
  | array h => exact h m hm

theorem Ordered.sorted {members : Keyed Json} (h : (Json.object members).Ordered) :
    Keyed.Sorted members := by
  cases h with
  | leaf h => cases h
  | object sorted _ => exact sorted

theorem Ordered.of_get? {members : Keyed Json} (h : (Json.object members).Ordered) {key : String}
    {m : Json} (hm : Keyed.get? members key = some m) : m.Ordered := by
  cases h with
  | leaf h => cases h
  | object _ h => exact h key m hm

theorem Ordered.of_mem_members {members : Keyed Json} (h : (Json.object members).Ordered)
    {p : String × Json} (hp : p ∈ members) : p.2.Ordered :=
  h.of_get? (Keyed.get?_of_mem h.sorted.nodup hp)

theorem ordered_of_leaves {members : Keyed Json} (sorted : Keyed.Sorted members)
    (leaves : ∀ p ∈ members, p.2.isLeaf = true) : (object members).Ordered :=
  .object sorted fun key m hm => .leaf (leaves (key, m) (Keyed.mem_of_get? hm))

theorem ordered_ofMembers {members : List (String × Json)} (h : ∀ p ∈ members, p.2.Ordered) :
    (ofMembers members).Ordered := by
  refine .object (Keyed.sorted_ofList members) ?_
  intro key m hm
  exact h (key, m) (Keyed.mem_of_get?_ofList hm)

/-! ### Values that are read -/

theorem int_of_wholeNumber {negative : Bool} {n : Nat} {v : Json}
    (h : wholeNumber negative n = some v) : ∃ m, v = .int m := by
  unfold wholeNumber at h
  split at h
  · split at h <;> cases h
    exact ⟨_, rfl⟩
  · split at h <;> cases h
    exact ⟨_, rfl⟩

theorem number_of_value? {l : NumberLiteral} {v : Json} (h : l.value? = some v) :
    (∃ n, v = .int n) ∨ ∃ x, v = .float x := by
  rcases Option.or_eq_some_iff.mp h with h | ⟨-, h⟩
  · split at h
    · exact .inl (int_of_wholeNumber h)
    · cases h
  · obtain ⟨x, -, rfl⟩ := Option.map_eq_some_iff.mp h
    exact .inr ⟨x, rfl⟩

/-- What is read where a number must stand is one. -/
theorem number_of_readNumber {cs rest : List Char} {v : Json}
    (h : readNumber cs = some (v, rest)) : (∃ n, v = .int n) ∨ ∃ x, v = .float x := by
  obtain ⟨⟨l, _⟩, -, h⟩ := Option.bind_eq_some_iff.mp h
  obtain ⟨v, hv, h⟩ := Option.bind_eq_some_iff.mp h
  cases h
  exact number_of_value? hv

theorem isLeaf_of_readNumber {cs rest : List Char} {v : Json}
    (h : readNumber cs = some (v, rest)) : v.isLeaf = true := by
  rcases number_of_readNumber h with ⟨n, rfl⟩ | ⟨x, rfl⟩ <;> rfl

section

variable {fuel nesting : Nat} {cs rest : List Char}

/-- Objects are read member by member into tables, which keep the order. -/
theorem ordered_of_readValue_succ
    (elements : ∀ nesting cs vs rest, readElements fuel nesting cs = some (vs, rest) →
      ∀ v ∈ vs, v.Ordered)
    (members : ∀ nesting cs ps rest, readMembers fuel nesting cs = some (ps, rest) →
      ∀ p ∈ ps, p.2.Ordered)
    {v : Json} (h : readValue (fuel + 1) nesting cs = some (v, rest)) : v.Ordered := by
  unfold readValue at h
  split at h
  · split at h
    · cases h
    · cases h
      exact .array nofun
    · obtain ⟨⟨xs, _⟩, hxs, h⟩ := Option.bind_eq_some_iff.mp h
      cases h
      exact .array (elements _ _ _ _ hxs)
  · split at h
    · cases h
    · cases h
      exact .object Keyed.sorted_nil nofun
    · obtain ⟨⟨ps, _⟩, hps, h⟩ := Option.bind_eq_some_iff.mp h
      cases h
      exact ordered_ofMembers (members _ _ _ _ hps)
  · obtain ⟨⟨s, _⟩, -, h⟩ := Option.bind_eq_some_iff.mp h
    cases h
    exact .leaf rfl
  · cases h
    exact .leaf rfl
  · cases h
    exact .leaf rfl
  · cases h
    exact .leaf rfl
  · exact .leaf (isLeaf_of_readNumber h)

variable (value : ∀ nesting cs v rest, readValue fuel nesting cs = some (v, rest) → v.Ordered)
include value

theorem ordered_of_readElements_succ
    (elements : ∀ nesting cs vs rest, readElements fuel nesting cs = some (vs, rest) →
      ∀ v ∈ vs, v.Ordered)
    {vs : List Json} (h : readElements (fuel + 1) nesting cs = some (vs, rest)) :
    ∀ v ∈ vs, v.Ordered := by
  unfold readElements at h
  obtain ⟨⟨x, _⟩, hx, h⟩ := Option.bind_eq_some_iff.mp h
  have hx := value _ _ _ _ hx
  simp only at h
  split at h
  · obtain ⟨⟨xs, _⟩, hxs, h⟩ := Option.bind_eq_some_iff.mp h
    cases h
    exact List.forall_mem_cons.mpr ⟨hx, elements _ _ _ _ hxs⟩
  · cases h
    exact List.forall_mem_singleton.mpr hx
  · cases h

theorem ordered_of_readMembers_succ
    (members : ∀ nesting cs ps rest, readMembers fuel nesting cs = some (ps, rest) →
      ∀ p ∈ ps, p.2.Ordered)
    {ps : List (String × Json)} (h : readMembers (fuel + 1) nesting cs = some (ps, rest)) :
    ∀ p ∈ ps, p.2.Ordered := by
  unfold readMembers at h
  split at h
  · obtain ⟨⟨key, _⟩, -, h⟩ := Option.bind_eq_some_iff.mp h
    simp only at h
    split at h
    · obtain ⟨⟨v, _⟩, hv, h⟩ := Option.bind_eq_some_iff.mp h
      have hv := value _ _ _ _ hv
      simp only at h
      split at h
      · obtain ⟨⟨qs, _⟩, hqs, h⟩ := Option.bind_eq_some_iff.mp h
        cases h
        exact List.forall_mem_cons.mpr ⟨hv, members _ _ _ _ hqs⟩
      · cases h
        exact List.forall_mem_singleton.mpr hv
      · cases h
    · cases h
  · cases h

end

/-- Values, elements and members that are read are in order, by induction on the steps. -/
theorem ordered_of_readValue (fuel : Nat) :
    (∀ nesting cs v rest, readValue fuel nesting cs = some (v, rest) → v.Ordered) ∧
      (∀ nesting cs vs rest, readElements fuel nesting cs = some (vs, rest) →
        ∀ v ∈ vs, v.Ordered) ∧
      ∀ nesting cs ps rest, readMembers fuel nesting cs = some (ps, rest) →
        ∀ p ∈ ps, p.2.Ordered := by
  induction fuel with
  | zero =>
    refine ⟨fun _ _ _ _ h => ?_, fun _ _ _ _ h => ?_, fun _ _ _ _ h => ?_⟩
    · rw [readValue] at h
      cases h
    · rw [readElements] at h
      cases h
    · rw [readMembers] at h
      cases h
  | succ fuel ih =>
    obtain ⟨value, elements, members⟩ := ih
    exact ⟨fun _ _ _ _ h => ordered_of_readValue_succ elements members h,
      fun _ _ _ _ h => ordered_of_readElements_succ value elements h,
      fun _ _ _ _ h => ordered_of_readMembers_succ value members h⟩

/-- Every value that is read from a text is in order. -/
theorem ordered_of_read? {nesting : Nat} {text : String} {j : Json}
    (h : read? nesting text = some j) : j.Ordered := by
  simp only [read?] at h
  split at h
  · rename_i v rest hv
    split at h
    · cases h
      exact (ordered_of_readValue _).1 _ _ _ _ hv
    · cases h
  · cases h

end Json

end ApiContract
