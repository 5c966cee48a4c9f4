import ApiContract.Proofs.Conformance
import Mathlib.Data.Fintype.EquivFin

/-!
# Enumerations that are given by name

A name may stand for an enumeration itself, through aliases of the registry, or through types that
are second names of others. A string is held to the values of a named enumeration as long as the
name resolves to the enumeration itself. Behind a second name the values are not found, and then
every string is taken.
-/

namespace ApiContract

open Validation

/-- A name stands for an enumeration with some values: it resolves to the enumeration, or to a
second name of what stands for it. -/
inductive View.NamesEnum (v : View) (values : List String) : String → Prop where
  | direct {name t} (resolved : v.resolve name = .ok t) (string : t.definition.isEnum = true)
      (listed : t.definition.inlineValues? = some values) : NamesEnum v values name
  | second {name t target} (resolved : v.resolve name = .ok t)
      (second : t.aliasTarget? = some target) (stands : NamesEnum v values target) :
      NamesEnum v values name

namespace View

variable {v : View} {values : List String} {name target : String} {t : NamedType}

/-- The values that are found under a name are those of the type it resolves to. -/
theorem enumValues_toOption (resolved : v.resolve name = .ok t) :
    (v.enumValues name).toOption = t.definition.inlineValues? := by
  simp only [enumValues, resolved, bind, Except.bind]
  cases t.definition.inlineValues? <;> rfl

/-- A second name adds nothing of its own, so it lists no values. -/
theorem inlineValues?_of_second (second : t.aliasTarget? = some target) :
    t.definition.inlineValues? = none := by
  have bare : t.definition.isAlias = true := by
    by_contra other
    simp [NamedType.aliasTarget?, other] at second
  simp only [Definition.isAlias, Bool.and_eq_true, Option.isNone_iff_eq_none] at bare
  rw [Definition.inlineValues?, bare.1.2]

end View

/-- A string is held to the values that are found under the name of an enumeration. -/
theorem accepts_namedEnum_iff (c : Context) (name s : String) :
    c.accepts (.namedEnum name) (.string s) = true ↔
      ∀ values, (c.view.enumValues name).toOption = some values → s ∈ values := by
  rw [accepts_iff_meetsScalar rfl rfl]
  constructor
  · exact fun h => h.2.allowed
  · intro h
    have unbounded (x : Binary64) : (Definition.namedEnum name).Bounds x := by
      constructor <;> intro _ bound <;> cases bound
    refine ⟨Json.noConfusion, rfl, ?_, fun _ _ _ x _ => unbounded x, ?_, ?_⟩
    · intro numeric
      cases numeric
    · intro _ _ format formatted
      cases formatted
    · intro values found
      exact h values found

/-- The strings that a named enumeration takes are its values if and only if the name resolves to
the enumeration itself, and not to a second name of it. -/
theorem named_enum_enforced_iff (c : Context) {values : List String} {name : String}
    (stands : c.view.NamesEnum values name) :
    (∀ s, c.accepts (.namedEnum name) (.string s) = true ↔ s ∈ values) ↔
      ∃ t, c.view.resolve name = .ok t ∧ t.aliasTarget? = none := by
  cases stands with
  | @direct _ t resolved string listed =>
    have own : t.aliasTarget? = none := by
      cases second : t.aliasTarget? with
      | none => rfl
      | some target => cases listed.symm.trans (View.inlineValues?_of_second second)
    refine iff_of_true (fun s => ?_) ⟨t, resolved, own⟩
    simp [accepts_namedEnum_iff, View.enumValues_toOption resolved, listed]
  | @second _ t target resolved second =>
    refine iff_of_false (fun held => ?_) ?_
    · obtain ⟨s, other⟩ := Infinite.exists_notMem_finset values.toFinset
      refine other (List.mem_toFinset.mpr ((held s).mp ?_))
      simp [accepts_namedEnum_iff, View.enumValues_toOption resolved,
        View.inlineValues?_of_second second]
    · rintro ⟨t', resolved', own⟩
      obtain rfl : t' = t := Except.ok.inj (resolved'.symm.trans resolved)
      cases own.symm.trans second

def mill : View where
  registry := { tables :=
    [(.api "mill", [("Phase", .aliasOf (.api "shared") "Phase"),
        ("Stage", .defined ⟨"Stage", .reference "Phase"⟩)]),
      (.api "shared", [("Phase", .defined ⟨"Phase", .enumeration ["begun", "done"]⟩)])] }
  scope := .api "mill"

theorem mill_phases : mill.NamesEnum ["begun", "done"] "Phase" := .direct rfl rfl rfl

/-- A string is a phase, through the alias, if and only if it is one of the two. -/
theorem phases_enforced : mill.NamesEnum ["begun", "done"] "Phase" ∧
    ∀ s, Context.accepts ⟨mill, .camel⟩ (.namedEnum "Phase") (.string s) = true ↔
      s ∈ ["begun", "done"] :=
  ⟨mill_phases, (named_enum_enforced_iff ⟨mill, .camel⟩ mill_phases).mpr ⟨_, rfl, rfl⟩⟩

/-- A stage is a phase as well, and yet any string is taken for one. -/
theorem stages_not_enforced : mill.NamesEnum ["begun", "done"] "Stage" ∧
    Context.accepts ⟨mill, .camel⟩ (.namedEnum "Stage") (.string "lost") = true ∧
    "lost" ∉ ["begun", "done"] :=
  ⟨.second rfl rfl mill_phases, by decide +kernel, by decide⟩

end ApiContract
