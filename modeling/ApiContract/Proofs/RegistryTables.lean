import ApiContract.Proofs.KeyOrder
import ApiContract.Registry.Basic

/-!
# The tables of a registry

A registry has one table for a scope, and the tables stand in scope order. Putting an entry changes
what is found under its name in its scope and nothing else, and keeps that order. So a scope that
has an entry needs no new table, and registries that are built by putting entries are equal if they
have the same ones.
-/

namespace ApiContract

/-- An insertion brings in its own entry only. -/
theorem Keyed.mem_insert {α : Type} {key : String} {value : α} {t : Keyed α} {p : String × α}
    (h : p ∈ Keyed.insert key value t) : p = (key, value) ∨ p ∈ t := by
  induction t with
  | nil => simpa [Keyed.insert] using h
  | cons q rest ih =>
    obtain ⟨k, v⟩ := q
    simp only [Keyed.insert] at h
    split at h
    · simpa using h
    · split at h
      · rcases List.mem_cons.mp h with h | h
        · exact .inl h
        · exact .inr (List.mem_cons_of_mem _ h)
      · rcases List.mem_cons.mp h with h | h
        · exact .inr (h ▸ List.mem_cons_self)
        · exact (ih h).imp_right (List.mem_cons_of_mem _)

namespace Scope

/-! ### The order of scopes -/

theorem before_api_iff (a b : String) : (api a).before (api b) = true ↔ a < b := by
  simp only [before, decide_eq_true_eq]

theorem before_contract_iff (a c b d : String) :
    (contract a c).before (contract b d) = true ↔ a < b ∨ a = b ∧ c < d := by
  simp only [before, Bool.or_eq_true, Bool.and_eq_true, decide_eq_true_eq, beq_iff_eq]

theorem not_before_self (s : Scope) : ¬ s.before s = true := by
  cases s with
  | global => exact Bool.false_ne_true
  | api a =>
    rw [before_api_iff]
    exact String.lt_irrefl a
  | contract a c =>
    rw [before_contract_iff]
    rintro (h | ⟨-, h⟩)
    · exact String.lt_irrefl a h
    · exact String.lt_irrefl c h

/-- The order of scopes, kind by kind and then by name. -/
theorem before_trans {s t u : Scope} (hst : s.before t = true) (htu : t.before u = true) :
    s.before u = true := by
  cases s with
  | global =>
    cases u with
    | global => cases t <;> cases htu
    | api _ => rfl
    | contract _ _ => rfl
  | api a =>
    cases t with
    | global => cases hst
    | api b =>
      cases u with
      | global => cases htu
      | api d =>
        rw [before_api_iff] at hst htu ⊢
        exact String.lt_trans hst htu
      | contract _ _ => rfl
    | contract _ _ =>
      cases u with
      | global => cases htu
      | api _ => cases htu
      | contract _ _ => rfl
  | contract a c =>
    cases t with
    | global => cases hst
    | api _ => cases hst
    | contract b d =>
      cases u with
      | global => cases htu
      | api _ => cases htu
      | contract e f =>
        rw [before_contract_iff] at hst htu ⊢
        rcases hst with hab | ⟨rfl, hcd⟩
        · rcases htu with hbe | ⟨rfl, -⟩
          · exact .inl (String.lt_trans hab hbe)
          · exact .inl hab
        · rcases htu with hbe | ⟨rfl, hdf⟩
          · exact .inl hbe
          · exact .inr ⟨rfl, String.lt_trans hcd hdf⟩

/-- Any two scopes are ordered. -/
theorem before_or_eq_or_before (s t : Scope) : s.before t = true ∨ s = t ∨ t.before s = true := by
  have total (x y : String) : x < y ∨ x = y ∨ y < x := by
    by_cases hxy : x < y
    · exact .inl hxy
    · by_cases hyx : y < x
      · exact .inr (.inr hyx)
      · exact .inr (.inl (String.le_antisymm (String.not_lt.mp hyx) (String.not_lt.mp hxy)))
  cases s with
  | global =>
    cases t with
    | global => exact .inr (.inl rfl)
    | api _ => exact .inl rfl
    | contract _ _ => exact .inl rfl
  | api a =>
    cases t with
    | global => exact .inr (.inr rfl)
    | api b =>
      rw [before_api_iff, before_api_iff, api.injEq]
      exact total a b
    | contract _ _ => exact .inl rfl
  | contract a c =>
    cases t with
    | global => exact .inr (.inr rfl)
    | api _ => exact .inr (.inr rfl)
    | contract b d =>
      rw [before_contract_iff, before_contract_iff, contract.injEq]
      rcases total a b with hab | rfl | hba
      · exact .inl (.inl hab)
      · rcases total c d with hcd | rfl | hdc
        · exact .inl (.inr ⟨rfl, hcd⟩)
        · exact .inr (.inl ⟨rfl, rfl⟩)
        · exact .inr (.inr (.inr ⟨rfl, hdc⟩))
      · exact .inr (.inr (.inl hba))

end Scope

namespace Registry

variable {r : Registry}

/-! ### Tables -/

theorem lookup_table_cons (s : Scope) (t : Keyed Entry) (rest : List (Scope × Keyed Entry))
    (other : Scope) :
    ((s, t) :: rest).lookup other = if other = s then some t else rest.lookup other := by
  by_cases h : other = s
  · simp [h]
  · have hb : (other == s) = false := by simpa using h
    simp [List.lookup_cons, hb, h]

/-- Putting a table changes that of its own scope only. -/
theorem lookup_putTable (scope : Scope) (table : Keyed Entry) (tables : List (Scope × Keyed Entry))
    (other : Scope) :
    (putTable scope table tables).lookup other =
      if other = scope then some table else tables.lookup other := by
  induction tables with
  | nil => simp [putTable, lookup_table_cons]
  | cons p rest ih =>
    obtain ⟨s, t⟩ := p
    simp only [putTable]
    split
    · simp only [lookup_table_cons]
    · split
      · rename_i he
        subst he
        by_cases h : other = scope <;> simp [lookup_table_cons, h]
      · rename_i hne
        by_cases h : other = s
        · simp [h, Ne.symm hne]
        · simp [lookup_table_cons, h, ih]

theorem entry_put (r : Registry) (scope : Scope) (name : String) (e : Entry) (s : Scope)
    (n : String) :
    entry? (r.put scope name e) s n =
      if s = scope ∧ n = name then some e else r.entry? s n := by
  simp only [table, entry?, put, lookup_putTable]
  by_cases hs : s = scope
  · subst hs
    simp [Keyed.get?_insert]
  · simp [hs]

/-- A reservation leaves an entry and makes up for a missing one. -/
theorem entry_reserve (r : Registry) (scope : Scope) (name : String) (s : Scope) (n : String) :
    entry? (r.reserve scope name).1 s n =
      if s = scope ∧ n = name then some ((r.entry? scope name).getD .placeholder)
      else r.entry? s n := by
  cases he : r.entry? scope name with
  | none => rw [reserve, he, entry_put, Option.getD_none]
  | some e =>
    rw [reserve, he]
    by_cases here : s = scope ∧ n = name
    · rw [if_pos here, here.1, here.2, he, Option.getD_some]
    · rw [if_neg here]

/-- Putting a table brings in no other one. -/
theorem mem_putTable {scope : Scope} {table : Keyed Entry} {tables : List (Scope × Keyed Entry)}
    {p : Scope × Keyed Entry} (h : p ∈ putTable scope table tables) :
    p = (scope, table) ∨ p ∈ tables := by
  induction tables with
  | nil => simpa [putTable] using h
  | cons q rest ih =>
    obtain ⟨s, t⟩ := q
    simp only [putTable] at h
    split at h
    · simpa using h
    · split at h
      · rcases List.mem_cons.mp h with h | h
        · exact .inl h
        · exact .inr (List.mem_cons_of_mem _ h)
      · rcases List.mem_cons.mp h with h | h
        · exact .inr (h ▸ List.mem_cons_self)
        · exact (ih h).imp_right (List.mem_cons_of_mem _)

theorem mem_of_lookup {tables : List (Scope × Keyed Entry)} {scope : Scope} {table : Keyed Entry}
    (h : tables.lookup scope = some table) : (scope, table) ∈ tables := by
  induction tables with
  | nil => cases h
  | cons p rest ih =>
    rw [lookup_table_cons] at h
    split at h
    · rename_i he
      cases h
      exact he ▸ List.mem_cons_self
    · exact List.mem_cons_of_mem _ (ih h)

/-- The tables stand in scope order, so that no scope has two. -/
def Ordered (r : Registry) : Prop := r.tables.Pairwise fun p q => p.1.before q.1 = true

/-- Tables stay in the order of their scopes. -/
theorem Ordered.put (h : r.Ordered) (scope : Scope) (name : String) (e : Entry) :
    (r.put scope name e).Ordered := by
  obtain ⟨tables⟩ := r
  simp only [Ordered, Registry.put] at h ⊢
  generalize Keyed.insert name e (Registry.table { tables } scope) = table
  induction tables with
  | nil => exact List.pairwise_singleton _ _
  | cons p rest ih =>
    obtain ⟨s, t⟩ := p
    obtain ⟨hs, hr⟩ := List.pairwise_cons.mp h
    simp only [putTable]
    split
    · rename_i hb
      refine List.pairwise_cons.mpr ⟨?_, h⟩
      intro q hq
      rcases List.mem_cons.mp hq with rfl | hq
      · exact hb
      · exact Scope.before_trans hb (hs q hq)
    · rename_i hb
      split
      · rename_i he
        subst he
        exact List.pairwise_cons.mpr ⟨hs, hr⟩
      · rename_i hne
        refine List.pairwise_cons.mpr ⟨?_, ih hr⟩
        intro q hq
        rcases mem_putTable hq with rfl | hq
        · rcases Scope.before_or_eq_or_before s scope with h | h | h
          · exact h
          · exact absurd h.symm hne
          · exact absurd h hb
        · exact hs q hq

def opened (r : Registry) (scope : Scope) : Registry :=
  { r with tables := putTable scope (r.table scope) r.tables }

/-- Where a scope has an entry, it needs no new table. -/
theorem Ordered.opened_eq_self (h : r.Ordered) {scope : Scope} {name : String} {e : Entry}
    (he : r.entry? scope name = some e) : r.opened scope = r := by
  obtain ⟨tables⟩ := r
  simp only [opened, table, entry?, Ordered, mk.injEq] at h he ⊢
  induction tables with
  | nil => cases he
  | cons p rest ih =>
    obtain ⟨s, t⟩ := p
    obtain ⟨hs, hr⟩ := List.pairwise_cons.mp h
    by_cases hscope : scope = s
    · subst hscope
      rw [lookup_table_cons, if_pos rfl, Option.getD_some, putTable,
        if_neg (Scope.not_before_self scope), if_pos rfl]
    · rw [lookup_table_cons, if_neg hscope] at he ⊢
      -- the scope's own table stands later, so the scope is not before this one
      have later : s.before scope = true := by
        cases hl : rest.lookup scope with
        | none => simp [hl] at he
        | some found => exact hs _ (mem_of_lookup hl)
      have not_before : ¬ scope.before s = true :=
        fun before => Scope.not_before_self s (Scope.before_trans later before)
      rw [putTable, if_neg not_before, if_neg hscope, ih hr he]

/-- In order there is one table for each scope. -/
theorem Ordered.lookup_of_mem (h : r.Ordered) {s : Scope} {t : Keyed Entry}
    (hm : (s, t) ∈ r.tables) : r.tables.lookup s = some t := by
  obtain ⟨tables⟩ := r
  simp only [Ordered] at h hm ⊢
  induction tables with
  | nil => cases hm
  | cons p rest ih =>
    obtain ⟨s', t'⟩ := p
    obtain ⟨hs, hr⟩ := List.pairwise_cons.mp h
    rw [lookup_table_cons]
    rcases List.mem_cons.mp hm with he | later
    · cases he
      rw [if_pos rfl]
    · have hne : s ≠ s' := by
        rintro rfl
        exact Scope.not_before_self s (hs (s, t) later)
      rw [if_neg hne]
      exact ih hr later

/-! ### Registries that are settled by their entries -/

/-- The tables stand in scope order, each is in key order, and none is without an entry. -/
structure Canonical (r : Registry) : Prop where
  ordered : r.Ordered
  sorted : ∀ p ∈ r.tables, Keyed.Sorted p.2
  filled : ∀ p ∈ r.tables, p.2 ≠ []

theorem canonical_empty : Registry.empty.Canonical where
  ordered := List.Pairwise.nil
  sorted := nofun
  filled := nofun

namespace Canonical

variable {r' : Registry}

theorem sorted_table (h : r.Canonical) (s : Scope) : Keyed.Sorted (r.table s) := by
  rw [table]
  cases hl : r.tables.lookup s with
  | none => exact Keyed.sorted_nil
  | some t => exact h.sorted _ (mem_of_lookup hl)

/-- A registry with one more entry is as canonical as before. -/
theorem put (h : r.Canonical) (scope : Scope) (name : String) (e : Entry) :
    (r.put scope name e).Canonical where
  ordered := h.ordered.put scope name e
  sorted p hp := by
    rcases mem_putTable hp with rfl | hp
    · exact (h.sorted_table scope).insert name e
    · exact h.sorted p hp
  filled p hp := by
    rcases mem_putTable hp with rfl | hp
    · intro none
      have here : name ∈ Keyed.keys (Keyed.insert name e (r.table scope)) :=
        (Keyed.mem_keys_insert _ _ _ _).mpr (.inl rfl)
      have none : Keyed.insert name e (r.table scope) = [] := none
      rw [none] at here
      cases here
    · exact h.filled p hp

/-- A table of one registry is in every other that has the same entries. -/
theorem mem_tables (h : r.Canonical) (h' : r'.Canonical)
    (same : ∀ s n, r.entry? s n = r'.entry? s n) {p : Scope × Keyed Entry} (hp : p ∈ r.tables) :
    p ∈ r'.tables := by
  obtain ⟨s, t⟩ := p
  have here : r.table s = t := by rw [table, h.ordered.lookup_of_mem hp, Option.getD_some]
  have there : r'.table s = t :=
    here ▸ (Keyed.Sorted.ext (h.sorted_table s) (h'.sorted_table s) (same s)).symm
  rw [table] at there
  cases hl : r'.tables.lookup s with
  | none =>
    rw [hl] at there
    exact absurd there.symm (h.filled _ hp)
  | some t' =>
    rw [hl, Option.getD_some] at there
    exact there ▸ mem_of_lookup hl

theorem nodup (h : r.Canonical) : r.tables.Nodup := by
  refine List.Pairwise.imp (fun {p q} before same => ?_) h.ordered
  exact Scope.not_before_self q.1 (by rwa [same] at before)

/-- A canonical registry is settled by its entries. -/
theorem ext (h : r.Canonical) (h' : r'.Canonical)
    (same : ∀ s n, r.entry? s n = r'.entry? s n) : r = r' := by
  have hp : r.tables.Perm r'.tables :=
    (List.perm_ext_iff_of_nodup h.nodup h'.nodup).mpr fun p =>
      ⟨h.mem_tables h' same, h'.mem_tables h fun s n => (same s n).symm⟩
  have tables : r.tables = r'.tables := by
    refine hp.eq_of_pairwise ?_ h.ordered h'.ordered
    intro p q _ _ hpq hqp
    exact absurd (Scope.before_trans hpq hqp) (Scope.not_before_self _)
  cases r
  cases r'
  cases tables
  rfl

end Canonical

end Registry

end ApiContract
