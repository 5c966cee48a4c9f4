import Mathlib.Logic.Relation
import ApiContract.Proofs.DefinitionSearch
import ApiContract.Proofs.DerivedReferences

/-!
# Definitions without a contradiction

A definition is free of contradictions when each of its parts is, at any depth, for itself: the
search for flaws finds none exactly then. A type can be registered if and only if it has a name and
its definition is of this kind.
-/

namespace ApiContract

open Relation (ReflTransGen)

/-- A definition does not contradict itself. Nothing is asked of its parts, nor of the definitions
that it refers to. -/
@[mk_iff]
structure Definition.Coherent (d : Definition) : Prop where
  bounds : ∀ min max, d.min = some min → d.max = some max → min.le max = true
  pattern : ∀ source, d.format = some (.pattern source) → isPattern source = true
  names : (d.fields.map Field.name).Nodup
  variants : ∀ key, d.kind ≠ .union key []
  tagged : ∀ v ∈ d.taggedVariants, v.tag.isSome = true
  tags : (d.taggedVariants.map Variant.tag).Nodup
  target : d.kind ≠ .reference ""

/-! ### Names seen before -/

/-- The first of several names that differ from each other and from those seen before is itself
seen by the later ones. -/
theorem nodup_disjoint_cons_iff {α : Type} {a : α} {l seen : List α} :
    (a :: l).Nodup ∧ (a :: l).Disjoint seen ↔
      a ∉ seen ∧ l.Nodup ∧ l.Disjoint (a :: seen) := by
  rw [List.nodup_cons, List.disjoint_cons_left, List.disjoint_cons_right]
  tauto

namespace Field

theorem listFlaws_cons (place : String) (seen : List String) (f : Field) (rest : List Field) :
    listFlaws place seen (f :: rest) =
      (if seen.contains f.name then [⟨place, .duplicateField f.name⟩] else []) ++
        f.definition.flaws (place ++ "." ++ f.name) ++ listFlaws place (f.name :: seen) rest := by
  cases f
  rw [listFlaws]

/-- Fields are sound if they are named apart, among each other and from those before. -/
theorem listFlaws_eq_nil_iff {P : Definition → Prop} {shape : List Field}
    (told : ∀ f ∈ shape, ∀ place, f.definition.flaws place = [] ↔ P f.definition)
    (place : String) (seen : List String) :
    listFlaws place seen shape = [] ↔
      ((shape.map name).Nodup ∧ (shape.map name).Disjoint seen) ∧
        ∀ f ∈ shape, P f.definition := by
  induction shape generalizing seen with
  | nil => simp [listFlaws]
  | cons f rest ih =>
    have fresh : (if seen.contains f.name then [Flaw.mk place (.duplicateField f.name)] else []) =
        [] ↔ f.name ∉ seen := by
      simp
    rw [listFlaws_cons, List.append_eq_nil_iff, List.append_eq_nil_iff, fresh,
      told f List.mem_cons_self, ih fun g hg => told g (List.mem_cons_of_mem _ hg), List.map_cons,
      nodup_disjoint_cons_iff, List.forall_mem_cons]
    tauto

end Field

namespace Variant

variable {P : Definition → Prop} {variants : List Variant}

theorem listFlaws_cons (place : String) (key : Option String) (index : Nat) (seen : List String)
    (v : Variant) (rest : List Variant) :
    listFlaws place key index seen (v :: rest) =
      Definition.tagFlaws (place ++ "|" ++ toString index) key seen v.tag ++
        v.definition.flaws (place ++ "|" ++ toString index) ++
          listFlaws place key (index + 1) (v.tag.toList ++ seen) rest := by
  cases v
  rw [listFlaws]

/-- The tags of a union without a discriminator do not matter. -/
theorem listFlaws_untagged_eq_nil_iff
    (told : ∀ v ∈ variants, ∀ place, v.definition.flaws place = [] ↔ P v.definition)
    (place : String) (index : Nat) (seen : List String) :
    listFlaws place none index seen variants = [] ↔ ∀ v ∈ variants, P v.definition := by
  induction variants generalizing index seen with
  | nil => simp [listFlaws]
  | cons v rest ih =>
    have silent (here : String) : Definition.tagFlaws here none seen v.tag = [] := by
      cases h : v.tag <;> rfl
    rw [listFlaws_cons, silent, List.nil_append, List.append_eq_nil_iff,
      told v List.mem_cons_self, ih fun w hw => told w (List.mem_cons_of_mem _ hw),
      List.forall_mem_cons]

/-- With a discriminator each variant needs a tag of its own. -/
theorem listFlaws_tagged_eq_nil_iff
    (told : ∀ v ∈ variants, ∀ place, v.definition.flaws place = [] ↔ P v.definition)
    (place key : String) (index : Nat) (seen : List String) :
    listFlaws place (some key) index seen variants = [] ↔
      (∀ v ∈ variants, v.tag.isSome = true) ∧
        ((variants.map tag).Nodup ∧ (variants.map tag).Disjoint (seen.map some)) ∧
          ∀ v ∈ variants, P v.definition := by
  induction variants generalizing index seen with
  | nil => simp [listFlaws]
  | cons v rest ih =>
    have later := fun seen => ih (fun w hw => told w (List.mem_cons_of_mem _ hw)) (index + 1) seen
    rw [listFlaws_cons, List.append_eq_nil_iff, List.append_eq_nil_iff,
      told v List.mem_cons_self, later, List.map_cons, nodup_disjoint_cons_iff,
      List.forall_mem_cons, List.forall_mem_cons]
    cases v.tag with
    | none => simp [Definition.tagFlaws]
    | some tag =>
      have fresh (here : String) :
          Definition.tagFlaws here (some key) seen (some tag) = [] ↔
            some tag ∉ seen.map some := by
        simp [Definition.tagFlaws]
      rw [fresh]
      simp only [Option.toList_some, List.singleton_append, List.map_cons, Option.isSome_some]
      tauto

end Variant

namespace Definition

variable {d e : Definition} {P : Definition → Prop}

/-! ### One definition -/

theorem flaws_eq (place : String) (d : Definition) :
    d.flaws place =
      boundFlaws place d.min d.max ++ formatFlaws place d.format ++ d.kind.flaws place := by
  cases d
  rw [flaws]

theorem boundFlaws_eq_nil_iff {place : String} {min max : Option Binary64} :
    boundFlaws place min max = [] ↔
      ∀ x y, min = some x → max = some y → x.le y = true := by
  cases min <;> cases max <;> simp [boundFlaws, Binary64.lt]

theorem formatFlaws_eq_nil_iff {place : String} {format : Option StringFormat} :
    formatFlaws place format = [] ↔
      ∀ source, format = some (.pattern source) → isPattern source = true := by
  rcases format with _ | format
  · simp [formatFlaws]
  · cases format <;> simp [formatFlaws]

/-! ### Parts of a definition -/

theorem forall_part_of_field {shape : List Field} (hk : d.kind = .object shape) :
    (∀ e, Part e d → P e) ↔ ∀ f ∈ shape, P f.definition := by
  refine ⟨fun h f hf => h _ (.field hk hf), fun h e part => ?_⟩
  cases part <;> simp_all

theorem forall_part_of_shapeField {fields : List Field} (hk : d.kind = .array (.shape fields)) :
    (∀ e, Part e d → P e) ↔ ∀ f ∈ fields, P f.definition := by
  refine ⟨fun h f hf => h _ (.shapeField hk hf), fun h e part => ?_⟩
  cases part <;> simp_all

theorem forall_part_of_element (hk : d.kind = .array (.of e)) :
    (∀ e, Part e d → P e) ↔ P e := by
  refine ⟨fun h => h _ (.element hk), fun h e part => ?_⟩
  cases part <;> simp_all

theorem forall_part_of_variant {key : Option String} {variants : List Variant}
    (hk : d.kind = .union key variants) :
    (∀ e, Part e d → P e) ↔ ∀ v ∈ variants, P v.definition := by
  refine ⟨fun h v hv => h _ (.variant hk hv), fun h e part => ?_⟩
  cases part <;> simp_all

theorem sizeOf_field_of_mem {shape : List Field} {f : Field} (hf : f ∈ shape) :
    sizeOf f.definition < sizeOf shape := by
  have listed := List.sizeOf_lt_of_mem hf
  have own : sizeOf f.definition < sizeOf f := by
    cases f
    simp only [Field.mk.sizeOf_spec]
    omega
  omega

theorem sizeOf_variant_of_mem {variants : List Variant} {v : Variant} (hv : v ∈ variants) :
    sizeOf v.definition < sizeOf variants := by
  have listed := List.sizeOf_lt_of_mem hv
  have own : sizeOf v.definition < sizeOf v := by
    cases v
    simp only [Variant.mk.sizeOf_spec]
    omega
  omega

/-- Parts are smaller, so a definition is no part of itself. -/
theorem sizeOf_part (part : Part e d) : sizeOf e < sizeOf d := by
  have inside : sizeOf d.kind < sizeOf d := by
    cases d
    simp only [Definition.mk.sizeOf_spec]
    omega
  refine lt_trans ?_ inside
  cases part with
  | element hk =>
    simp only [hk, Kind.array.sizeOf_spec, Items.of.sizeOf_spec]
    omega
  | shapeField hk hf =>
    have below := sizeOf_field_of_mem hf
    simp only [hk, Kind.array.sizeOf_spec, Items.shape.sizeOf_spec]
    omega
  | field hk hf =>
    have below := sizeOf_field_of_mem hf
    simp only [hk, Kind.object.sizeOf_spec]
    omega
  | variant hk hv =>
    have below := sizeOf_variant_of_mem hv
    simp only [hk, Kind.union.sizeOf_spec]
    omega

/-- What is asked of a definition because of its kind. -/
theorem flaws_kind_eq_nil_iff (told : ∀ e, Part e d → ∀ place, e.flaws place = [] ↔ P e)
    (place : String) :
    d.kind.flaws place = [] ↔
      ((d.fields.map Field.name).Nodup ∧ (∀ key, d.kind ≠ .union key []) ∧
        (∀ v ∈ d.taggedVariants, v.tag.isSome = true) ∧
        (d.taggedVariants.map Variant.tag).Nodup ∧ d.kind ≠ .reference "") ∧
      ∀ e, Part e d → P e := by
  cases hk : d.kind with
  | scalar kind => 
    have none : ∀ e, ¬ Part e d := fun e part => by cases part <;> simp_all
    simp [Kind.flaws, fields, taggedVariants, hk, none]
  | literal value =>
    have none : ∀ e, ¬ Part e d := fun e part => by cases part <;> simp_all
    simp [Kind.flaws, fields, taggedVariants, hk, none]
  | reference target =>
    have none : ∀ e, ¬ Part e d := fun e part => by cases part <;> simp_all
    simp [Kind.flaws, fields, taggedVariants, hk, none]
  | object shape =>
    have told := (forall_part_of_field hk).mp told
    rw [forall_part_of_field hk, Kind.flaws, Field.listFlaws_eq_nil_iff told]
    simp [fields, taggedVariants, hk]
  | array items =>
    cases items with
    | of element =>
      have told := (forall_part_of_element hk).mp told
      rw [forall_part_of_element hk, Kind.flaws, Items.flaws, told]
      simp [fields, taggedVariants, hk]
    | shape fields =>
      have told := (forall_part_of_shapeField hk).mp told
      rw [forall_part_of_shapeField hk, Kind.flaws, Items.flaws, Field.listFlaws_eq_nil_iff told]
      simp [fields_of_shapes hk, taggedVariants, hk]
  | union key variants =>
    have told := (forall_part_of_variant hk).mp told
    rw [forall_part_of_variant hk, Kind.flaws, List.append_eq_nil_iff]
    cases key with
    | none =>
      rw [Variant.listFlaws_untagged_eq_nil_iff told]
      simp [fields, taggedVariants, hk]
    | some key =>
      rw [Variant.listFlaws_tagged_eq_nil_iff told]
      simp [fields, taggedVariants, hk]
      tauto

/-- Nothing is found in a definition exactly if it is coherent and nothing is found in its parts. -/
theorem flaws_eq_nil_iff_parts (told : ∀ e, Part e d → ∀ place, e.flaws place = [] ↔ P e)
    (place : String) : d.flaws place = [] ↔ d.Coherent ∧ ∀ e, Part e d → P e := by
  rw [flaws_eq, List.append_eq_nil_iff, List.append_eq_nil_iff, boundFlaws_eq_nil_iff,
    formatFlaws_eq_nil_iff, flaws_kind_eq_nil_iff told, coherent_iff]
  tauto

/-- Nothing is found in a definition exactly if all that it is made of is coherent. -/
theorem flaws_eq_nil_iff (d : Definition) (place : String) :
    d.flaws place = [] ↔ ∀ e, ReflTransGen Part e d → e.Coherent := by
  have below : ∀ e, Part e d → ∀ place,
      e.flaws place = [] ↔ ∀ e', ReflTransGen Part e' e → e'.Coherent :=
    fun e part place =>
      have : sizeOf e < sizeOf d := sizeOf_part part
      flaws_eq_nil_iff e place
  rw [flaws_eq_nil_iff_parts below]
  constructor
  · rintro ⟨here, parts⟩ e standing
    rcases ReflTransGen.cases_tail standing with same | ⟨e', standing, part⟩
    · exact same ▸ here
    · exact parts e' part e standing
  · intro all
    exact ⟨all d .refl, fun e part e' standing => all e' (standing.tail part)⟩
termination_by sizeOf d

end Definition

namespace NamedType

theorem check_ok_iff_flaws {t : NamedType} :
    t.check = .ok () ↔ t.name ≠ "" ∧ t.definition.flaws t.name = [] := by
  rw [check]
  simp only [String.isEmpty_iff, List.isEmpty_iff]
  split_ifs <;> simp_all

/-- A type can be registered if and only if it has a name and all that its definition is made of is
coherent, at any depth. -/
theorem check_ok_iff (t : NamedType) :
    t.check = .ok () ↔
      t.name ≠ "" ∧ ∀ e, ReflTransGen Definition.Part e t.definition → e.Coherent := by
  rw [check_ok_iff_flaws, Definition.flaws_eq_nil_iff]

end NamedType

end ApiContract
