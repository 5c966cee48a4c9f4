import Mathlib.Data.Finset.Card
import Mathlib.Tactic.Choose
import ApiContract.Proofs.DependencyGraph

/-!
# How far names are followed

Seen from a scope, a name has the entry of the nearest scope that has one. Where that is another
name, a hop leads there, and to the scope where it is looked up in its turn. A resolution takes
fifteen hops at most. It answers with the type or the placeholder that it comes to by then; what is
left are names without an entry, names that are followed in a circle, and those that are followed
for longer.
-/

namespace ApiContract

/-- What holds of a scope as soon as it holds of the one around it holds of all scopes. -/
theorem Scope.induction_around {P : Scope → Prop}
    (step : ∀ s, (∀ around, s.parent? = some around → P around) → P s) (s : Scope) : P s := by
  have outermost : P .global := step _ nofun
  have middle (a : String) : P (.api a) := by
    refine step _ fun around h => ?_
    cases h
    exact outermost
  cases s with
  | global => exact outermost
  | api a => exact middle a
  | contract a c =>
    refine step _ fun around h => ?_
    cases h
    exact middle a

namespace Registry

variable {r : Registry}

/-! ### What is seen -/

/-- Seen from a scope, a name has an entry, which another scope may hold: where a scope has none of
its own, the scope around it decides. -/
inductive Sees (r : Registry) : Scope → String → Scope → Entry → Prop where
  | own {s name e} (h : r.entry? s name = some e) : Sees r s name s e
  | outer {s around name found e} (free : r.entry? s name = none)
      (parent : s.parent? = some around) (h : Sees r around name found e) : Sees r s name found e

theorem lookup_eq_around (r : Registry) (s : Scope) (name : String) :
    r.lookup s name = match r.entry? s name with
      | some e => some (s, e)
      | none => s.parent?.bind fun around => r.lookup around name := by
  rw [lookup, Scope.chain_eq, lookupIn]
  cases r.entry? s name with
  | some e => rfl
  | none => cases s.parent? <;> rfl

/-- A look-up finds what is seen, scope after scope outwards. -/
theorem lookup_eq_some_iff {s found : Scope} {name : String} {e : Entry} :
    r.lookup s name = some (found, e) ↔ r.Sees s name found e := by
  constructor
  · intro h
    induction s using Scope.induction_around with
    | step s ih =>
      rw [lookup_eq_around] at h
      split at h
      · rename_i he
        cases h
        exact .own he
      · rename_i free
        obtain ⟨around, parent, h⟩ := Option.bind_eq_some_iff.mp h
        exact .outer free parent (ih around parent h)
  · intro h
    induction h with
    | own he => exact lookup_of_entry he
    | outer free parent _ ih =>
      rw [lookup_eq_around, free, parent, ← ih]
      rfl

theorem lookup_eq_none_iff {s : Scope} {name : String} :
    r.lookup s name = none ↔ ∀ found e, ¬ r.Sees s name found e := by
  simp [Option.eq_none_iff_forall_ne_some, lookup_eq_some_iff]

theorem Sees.unique {s found found' : Scope} {name : String} {e e' : Entry}
    (h : r.Sees s name found e) (h' : r.Sees s name found' e') : found = found' ∧ e = e' := by
  rw [← lookup_eq_some_iff] at h h'
  simpa using h.symm.trans h'

/-! ### Hops -/

/-- A number of hops leads from a name, looked up from a scope, to another. -/
inductive Follows (r : Registry) : Nat → String × Scope → String × Scope → Prop where
  | here {p} : Follows r 0 p p
  | hop {n name s found target around q} (h : r.Sees s name found (.aliasOf around target))
      (next : Follows r n (target, around) q) : Follows r (n + 1) (name, s) q

section

variable {m n : Nat} {p q q' : String × Scope}

/-- Each name has one entry, so the way is determined. -/
theorem Follows.unique (h : r.Follows n p q) (h' : r.Follows n p q') : q = q' := by
  induction h with
  | here =>
    cases h'
    rfl
  | hop sees _ ih =>
    cases h' with
    | hop sees' next' =>
      cases (sees.unique sees').2
      exact ih next'

theorem Follows.trans (h : r.Follows m p q) (h' : r.Follows n q q') : r.Follows (m + n) p q' := by
  induction h with
  | here => rwa [Nat.zero_add]
  | hop sees _ ih =>
    rw [Nat.succ_add]
    exact .hop sees (ih h')

theorem Follows.split (h : r.Follows (m + n) p q') : ∃ q, r.Follows m p q ∧ r.Follows n q q' := by
  induction m generalizing p with
  | zero => exact ⟨p, .here, by rwa [Nat.zero_add] at h⟩
  | succ m ih =>
    rw [Nat.succ_add] at h
    cases h with
    | hop sees next =>
      obtain ⟨q, first, rest⟩ := ih next
      exact ⟨q, .hop sees first, rest⟩

theorem Follows.of_le (h : r.Follows n p q) (le : m ≤ n) : ∃ q, r.Follows m p q := by
  obtain ⟨k, rfl⟩ := Nat.exists_eq_add_of_le le
  obtain ⟨q, first, -⟩ := h.split
  exact ⟨q, first⟩

theorem Follows.hops_beyond (h : r.Follows m p q) (further : r.Follows n p q') (lt : m < n) :
    ∃ k, r.Follows (k + 1) q q' := by
  obtain ⟨k, rfl⟩ := Nat.exists_eq_add_of_lt lt
  obtain ⟨mid, first, rest⟩ := Follows.split (m := m) (n := k + 1) further
  obtain rfl := h.unique first
  exact ⟨k, rest⟩

end

/-! ### Answers -/

/-- The answer that a resolution gives at a name that it has come to. -/
inductive Answers (r : Registry) :
    String × Scope → Except ConfigurationError NamedType → Prop where
  | defined {name s found t} (h : r.Sees s name found (.defined t)) : Answers r (name, s) (.ok t)
  | reserved {name s found} (h : r.Sees s name found .placeholder) :
    Answers r (name, s) (.error (.undefinedPlaceholder name found))
  | missing {name s} (h : ∀ found e, ¬ r.Sees s name found e) :
    Answers r (name, s) (.error (.unknownType name s))

section

variable {m n : Nat} {p q q' : String × Scope} {answer : Except ConfigurationError NamedType}

theorem Answers.resolveWithin_eq (h : r.Answers p answer) (hops : Nat) :
    r.resolveWithin (hops + 1) p.2 p.1 = answer := by
  cases h with
  | defined sees => rw [resolveWithin, lookup_eq_some_iff.mpr sees]
  | reserved sees => rw [resolveWithin, lookup_eq_some_iff.mpr sees]
  | missing unseen => rw [resolveWithin, lookup_eq_none_iff.mpr unseen]

theorem answers_ok_iff {t : NamedType} :
    r.Answers p (.ok t) ↔ ∃ found, r.Sees p.2 p.1 found (.defined t) := by
  constructor
  · intro h
    cases h with
    | defined sees => exact ⟨_, sees⟩
  · rintro ⟨found, sees⟩
    exact .defined sees

theorem answers_undefinedPlaceholder_iff {name : String} {found : Scope} :
    r.Answers p (.error (.undefinedPlaceholder name found)) ↔
      p.1 = name ∧ r.Sees p.2 name found .placeholder := by
  constructor
  · intro h
    cases h with
    | reserved sees => exact ⟨rfl, sees⟩
  · rintro ⟨rfl, sees⟩
    exact .reserved sees

theorem answers_unknownType_iff {name : String} {s : Scope} :
    r.Answers p (.error (.unknownType name s)) ↔
      p = (name, s) ∧ ∀ found e, ¬ r.Sees s name found e := by
  constructor
  · intro h
    cases h with
    | missing unseen => exact ⟨rfl, unseen⟩
  · rintro ⟨rfl, unseen⟩
    exact .missing unseen

/-- A name is another one or has an answer. -/
theorem hop_or_answers (r : Registry) (p : String × Scope) :
    (∃ q, r.Follows 1 p q) ∨ ∃ answer, r.Answers p answer := by
  obtain ⟨name, s⟩ := p
  cases hl : r.lookup s name with
  | none => exact .inr ⟨_, .missing (lookup_eq_none_iff.mp hl)⟩
  | some seen =>
    obtain ⟨found, e⟩ := seen
    have sees := lookup_eq_some_iff.mp hl
    cases e with
    | placeholder => exact .inr ⟨_, .reserved sees⟩
    | defined t => exact .inr ⟨_, .defined sees⟩
    | aliasOf around target => exact .inl ⟨_, .hop sees .here⟩

theorem Answers.not_hop (h : r.Answers p answer) : ¬ r.Follows (n + 1) p q := by
  intro hop
  cases hop with
  | hop sees' next =>
    cases h with
    | defined sees => cases (sees.unique sees').2
    | reserved sees => cases (sees.unique sees').2
    | missing unseen => exact unseen _ _ sees'

/-- No name is followed further than to an answer. -/
theorem Answers.le_of_follows (h : r.Answers q answer) (first : r.Follows m p q)
    (other : r.Follows n p q') : n ≤ m := by
  by_contra further
  obtain ⟨k, beyond⟩ := first.hops_beyond other (Nat.lt_of_not_le further)
  exact h.not_hop beyond

/-- A number of hops can be taken, or an answer comes before. -/
theorem follows_or_answers (r : Registry) (n : Nat) (p : String × Scope) :
    (∃ q, r.Follows n p q) ∨ ∃ m < n, ∃ q answer, r.Follows m p q ∧ r.Answers q answer := by
  induction n generalizing p with
  | zero => exact .inl ⟨p, .here⟩
  | succ n ih =>
    rcases hop_or_answers r p with ⟨next, hop⟩ | ⟨answer, answers⟩
    · rcases ih next with ⟨q, further⟩ | ⟨m, lt, q, answer, further, answers⟩
      · exact .inl ⟨q, Nat.add_comm n 1 ▸ hop.trans further⟩
      · exact .inr ⟨m + 1, Nat.succ_lt_succ lt, q, answer,
          Nat.add_comm m 1 ▸ hop.trans further, answers⟩
    · exact .inr ⟨0, Nat.succ_pos n, p, answer, .here, answers⟩

/-! ### Resolution -/

/-- One look-up takes one hop. By induction on the hops. -/
theorem Follows.resolveWithin_eq (h : r.Follows n p q) (hops : Nat) :
    r.resolveWithin (n + hops) p.2 p.1 = r.resolveWithin hops q.2 q.1 := by
  induction h with
  | here => rw [Nat.zero_add]
  | hop sees _ ih =>
    rw [Nat.succ_add, resolveWithin, lookup_eq_some_iff.mpr sees]
    exact ih

/-- A resolution answers on the way, or gives up at the name it has come to when its hops are used
up. -/
theorem resolveWithin_eq_iff (r : Registry) (hops : Nat) (p : String × Scope)
    (answer : Except ConfigurationError NamedType) :
    r.resolveWithin hops p.2 p.1 = answer ↔
      (∃ n < hops, ∃ q, r.Follows n p q ∧ r.Answers q answer) ∨
        ∃ q, r.Follows hops p q ∧ answer = .error (.unknownType q.1 q.2) := by
  have of_answers {n : Nat} {q answer} (lt : n < hops) (follows : r.Follows n p q)
      (answers : r.Answers q answer) : r.resolveWithin hops p.2 p.1 = answer := by
    obtain ⟨k, rfl⟩ := Nat.exists_eq_add_of_lt lt
    rw [Nat.add_assoc, follows.resolveWithin_eq, answers.resolveWithin_eq]
  have of_follows {q} (follows : r.Follows hops p q) :
      r.resolveWithin hops p.2 p.1 = .error (.unknownType q.1 q.2) := follows.resolveWithin_eq 0
  constructor
  · rintro rfl
    rcases follows_or_answers r hops p with ⟨q, follows⟩ | ⟨n, lt, q, answer, follows, answers⟩
    · exact .inr ⟨q, follows, of_follows follows⟩
    · exact .inl ⟨n, lt, q, follows, of_answers lt follows answers ▸ answers⟩
  · rintro (⟨n, lt, q, follows, answers⟩ | ⟨q, follows, rfl⟩)
    · exact of_answers lt follows answers
    · exact of_follows follows

end

/-! ### Circles -/

/-- Followed for some hops, a name comes to one that leads back to itself. -/
def Circles (r : Registry) (p : String × Scope) : Prop :=
  ∃ m n q, r.Follows m p q ∧ r.Follows (n + 1) q q

section

variable {m n : Nat} {p q : String × Scope}

theorem Circles.of_returns (lt : m < n) (first : r.Follows m p q) (again : r.Follows n p q) :
    r.Circles p := by
  obtain ⟨k, around⟩ := first.hops_beyond again lt
  exact ⟨m, k, q, first, around⟩

/-- In a circle, any number of hops can be taken. -/
theorem Circles.follows (h : r.Circles p) (hops : Nat) : ∃ q, r.Follows hops p q := by
  obtain ⟨m, n, q, to_circle, around⟩ := h
  have turns (k : Nat) : r.Follows (k * (n + 1)) q q := by
    induction k with
    | zero =>
      rw [Nat.zero_mul]
      exact .here
    | succ k ih =>
      rw [Nat.succ_mul]
      exact ih.trans around
  refine (to_circle.trans (turns hops)).of_le ?_
  exact Nat.le_add_left_of_le (Nat.le_mul_of_pos_right hops n.succ_pos)

/-- Each hop goes through an entry of the registry. -/
theorem Follows.exists_entry (h : r.Follows n p q) {i : Nat} (lt : i < n) :
    ∃ (held : Scope × String) (target : String × Scope),
      r.entry? held.1 held.2 = some (.aliasOf target.2 target.1) ∧ r.Follows (i + 1) p target := by
  obtain ⟨mid, to_mid⟩ := h.of_le lt.le
  obtain ⟨k, beyond⟩ := to_mid.hops_beyond h lt
  cases beyond with
  | @hop _ name s found target around _ sees next =>
    exact ⟨(found, name), (target, around), entry_of_lookup (lookup_eq_some_iff.mpr sees),
      to_mid.trans (.hop sees .here)⟩

/-- Of more hops than there are entries, two go through the same one, and lead to the same name. -/
theorem Follows.circles (h : r.Follows (r.entries.length + 1) p q) : r.Circles p := by
  have step := fun i (lt : i < r.entries.length + 1) => h.exists_entry lt
  choose! held target entry follows using step
  have fewer : r.entries.toFinset.card < (Finset.range (r.entries.length + 1)).card := by
    rw [Finset.card_range]
    exact Nat.lt_succ_of_le (List.toFinset_card_le _)
  obtain ⟨i, hi, j, hj, apart, same⟩ := Finset.exists_ne_map_eq_of_card_lt_of_maps_to fewer
    (f := held) fun i hi => List.mem_toFinset.mpr (mem_entries (entry i (Finset.mem_range.mp hi)))
  rw [Finset.mem_range] at hi hj
  have alike : target i = target j := by
    have through := entry i hi
    rw [same, entry j hj, Option.some.injEq, Entry.aliasOf.injEq] at through
    exact Prod.ext through.2.symm through.1.symm
  rcases Nat.lt_or_gt_of_ne apart with lt | gt
  · exact .of_returns (Nat.succ_lt_succ lt) (follows i hi) (alike ▸ follows j hj)
  · exact .of_returns (Nat.succ_lt_succ gt) (follows j hj) (alike ▸ follows i hi)

/-- A number of hops can be taken if the names lead in a circle, or to an answer no nearer. -/
theorem exists_follows_iff (r : Registry) (n : Nat) (p : String × Scope) :
    (∃ q, r.Follows n p q) ↔
      r.Circles p ∨ ∃ m ≥ n, ∃ q answer, r.Follows m p q ∧ r.Answers q answer := by
  constructor
  · rintro ⟨q, follows⟩
    rcases follows_or_answers r (r.entries.length + 1) p with
      ⟨q', further⟩ | ⟨m, -, q', answer, last, answers⟩
    · exact .inl further.circles
    · exact .inr ⟨m, answers.le_of_follows last follows, q', answer, last, answers⟩
  · rintro (circles | ⟨m, le, q, -, follows, -⟩)
    · exact circles.follows n
    · exact follows.of_le le

end

end Registry

/-- A resolution takes fifteen hops at most. It answers with a type or a placeholder exactly if it
comes to one by then. Else it knows no type: it comes to a name that is not seen, or would take a
sixteenth hop, since the names lead in a circle or to an answer that is further away. -/
theorem resolve_follows_fifteen_hops (r : Registry) (scope : Scope) (name : String) :
    (∀ t, r.resolve scope name = .ok t ↔
      ∃ n ≤ 15, ∃ m s found, r.Follows n (name, scope) (m, s) ∧ r.Sees s m found (.defined t)) ∧
    (∀ m found, r.resolve scope name = .error (.undefinedPlaceholder m found) ↔
      ∃ n ≤ 15, ∃ s, r.Follows n (name, scope) (m, s) ∧ r.Sees s m found .placeholder) ∧
    (∀ m s, r.resolve scope name = .error (.unknownType m s) ↔
      (∃ n ≤ 15, r.Follows n (name, scope) (m, s) ∧ ∀ found e, ¬ r.Sees s m found e) ∨
        r.Follows 16 (name, scope) (m, s)) ∧
    ((∃ t, r.resolve scope name = .ok t) ∨
      (∃ m found, r.resolve scope name = .error (.undefinedPlaceholder m found)) ∨
      ∃ m s, r.resolve scope name = .error (.unknownType m s)) ∧
    ((∃ q, r.Follows 16 (name, scope) q) ↔ r.Circles (name, scope) ∨
      ∃ n ≥ 16, ∃ q answer, r.Follows n (name, scope) q ∧ r.Answers q answer) := by
  have outcome (answer : Except ConfigurationError NamedType) :
      r.resolve scope name = answer ↔
        (∃ n ≤ 15, ∃ q, r.Follows n (name, scope) q ∧ r.Answers q answer) ∨
          ∃ q, r.Follows 16 (name, scope) q ∧ answer = .error (.unknownType q.1 q.2) := by
    simp only [← Nat.lt_succ_iff]
    exact Registry.resolveWithin_eq_iff r 16 (name, scope) answer
  refine ⟨fun t => ?_, fun m found => ?_, fun m s => ?_, ?_, Registry.exists_follows_iff r 16 _⟩
  · simp [outcome, Registry.answers_ok_iff]
  · simp [outcome, Registry.answers_undefinedPlaceholder_iff]
  · simp [outcome, Registry.answers_unknownType_iff]
  · obtain ⟨answer, is⟩ : ∃ answer, r.resolve scope name = answer := ⟨_, rfl⟩
    rw [is]
    rcases (outcome answer).mp is with ⟨_, -, _, -, answers⟩ | ⟨q, -, rfl⟩
    · cases answers with
      | defined => exact .inl ⟨_, rfl⟩
      | reserved => exact .inr (.inl ⟨_, _, rfl⟩)
      | missing => exact .inr (.inr ⟨_, _, rfl⟩)
    · exact .inr (.inr ⟨_, _, rfl⟩)

/-- Fifteen names in a row that stand for the next one each lead to a type, and sixteen do not. -/
example :
    let row (n : Nat) : Registry :=
      { tables := [(.global, (toString n, .defined { name := "T", definition := .scalar .string }) ::
          (List.range n).map fun i => (toString i, .aliasOf .global (toString (i + 1))))] }
    ((row 15).resolve .global "0").isOk = true ∧ ((row 16).resolve .global "0").isOk = false := by
  decide +kernel

end ApiContract
