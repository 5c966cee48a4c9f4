import ApiContract.Proofs.DerivedReferences
import ApiContract.Proofs.LoadedEntries
import ApiContract.Proofs.SameDefinitions

/-!
# Tags of derived unions

A tagged union that is derived from resources lists variants in place or refers to types by name. A
variant agrees with the union if it comes to an object that says the variant's tag under the union's
key. The type that a variant was derived with does so; but another one may have its name, and where
a conflict is passed over the first of them stays.
-/

namespace ApiContract

/-- The tag that an object says under a key: the text that its field of that name must be. -/
def Definition.tag? (d : Definition) (key : String) : Option String := do
  let shape ← d.shape?
  let f ← shape.find? (·.name == key)
  match f.definition.kind with
  | .literal (.string tag) => some tag
  | _ => none

/-- The tag that a definition says under a key, where references are followed. -/
def View.tag? (v : View) (key : String) (d : Definition) : Option String :=
  (v.deref d).toOption.bind fun p => p.1.tag? key

/-! ### Definitions that say a tag -/

namespace Definition

variable {d e : Definition} {key tag : String}

/-- A definition says a tag if it is an object in which the first field of the key's name is the
literal of the tag. -/
theorem tag?_eq_some_iff : d.tag? key = some tag ↔ ∃ shape f, d.kind = .object shape ∧
    shape.find? (·.name == key) = some f ∧ f.definition.kind = .literal (.string tag) := by
  constructor
  · intro h
    obtain ⟨shape, hs, h⟩ := Option.bind_eq_some_iff.mp h
    obtain ⟨f, hf, h⟩ := Option.bind_eq_some_iff.mp h
    refine ⟨shape, f, ?_, hf, ?_⟩
    · rw [shape?] at hs
      split at hs
      · rename_i hk
        cases hs
        exact hk
      · cases hs
    · split at h
      · rename_i hl
        cases h
        exact hl
      · cases h
  · rintro ⟨shape, f, hk, hf, hl⟩
    have own : d.shape? = some shape := by rw [shape?, hk]
    rw [tag?, own, Option.bind_eq_bind, Option.bind_some, hf, Option.bind_eq_bind, Option.bind_some,
      hl]

/-- An object whose first field is the tag says it. -/
theorem tag?_object (key tag : String) (rest : List Field) :
    (object (Resource.field key (literal (.string tag)) :: rest)).tag? key = some tag :=
  tag?_eq_some_iff.mpr ⟨_, Resource.field key (literal (.string tag)), rfl,
    List.find?_cons_of_pos (by simp [Resource.field]), rfl⟩

/-- A definition that is written like one that says a tag says it, too. -/
theorem Alike.tag? (h : d.Alike e) (he : e.tag? key = some tag) : d.tag? key = some tag := by
  obtain ⟨shape, g, hk, hg, hl⟩ := tag?_eq_some_iff.mp he
  have kinds := h.kind
  rw [hk] at kinds
  obtain ⟨other, hd, fields⟩ := kinds.eq_object
  obtain ⟨f, hf, alike⟩ := Field.exists_find?_of_alike fields hg
  have values := alike.definition.kind
  rw [hl] at values
  obtain ⟨value, hf', same⟩ := values.eq_literal
  rw [Json.eq_string_of_sameValue same] at hf'
  exact tag?_eq_some_iff.mpr ⟨other, f, hd, hf, hf'⟩

end Definition

namespace View

variable {v : View} {key tag : String} {d : Definition}

/-- What says a tag is no reference, so there is nothing to follow. -/
theorem tag?_of_tag? (h : d.tag? key = some tag) : v.tag? key d = some tag := by
  obtain ⟨shape, f, hk, -⟩ := Definition.tag?_eq_some_iff.mp h
  have here : v.deref d = .ok (d, d.nullable) := by
    rw [deref, Registry.maxHops, derefWithin, hk]
  rw [tag?, here]
  exact h

/-- A reference to a type in the view's own scope says what that type says. -/
theorem tag?_reference {t : NamedType} {name : String}
    (here : v.registry.entry? v.scope name = some (.defined t))
    (h : t.definition.tag? key = some tag) : v.tag? key (.reference name) = some tag := by
  obtain ⟨shape, f, hk, -⟩ := Definition.tag?_eq_some_iff.mp h
  have resolved : v.resolve name = .ok t :=
    Registry.resolve_of_lookup (Registry.lookup_of_entry here)
  have followed : v.deref (.reference name) = .ok (t.definition, t.definition.nullable) := by
    have kind : (Definition.reference name).kind = .reference name := rfl
    rw [deref, Registry.maxHops, derefWithin, kind]
    simp only [resolved, bind, Except.bind, derefWithin, hk]
    rfl
  rw [tag?, followed]
  exact h

end View

/-! ### Unions that are derived -/

/-- A tagged union that is derived from a resource of a catalog: its records by their form, what an
association points at by its tag, or the operations by which a parent writes it. -/
inductive Catalog.Unites (catalog : Catalog) (key : String) (variants : List Variant) : Prop where
  | record {r : Resource} (hr : r ∈ Keyed.values catalog)
    (union : (r.recordType catalog).definition.kind = .union (some key) variants)
  | association {r : Resource} {a : Association} {d : Definition} (hr : r ∈ Keyed.values catalog)
    (ha : a ∈ r.associations) (hd : a.readTarget? catalog = some d)
    (union : d.kind = .union (some key) variants)
  | operation {r : Resource} (hr : r ∈ Keyed.values catalog)
    (accepts : r.acceptsNestedWrites = true)
    (union : (r.nestedOperationType catalog).definition.kind = .union (some key) variants)

namespace Catalog

variable {catalog : Catalog} {scope : Scope} {key : String} {variants : List Variant} {v : Variant}

/-- A type with the variant's tag is derived for it: in place, or in the scope and under the name
that the variant refers to. -/
inductive Backs (catalog : Catalog) (scope : Scope) (key tag : String) : Variant → Prop
  | inline {d : Definition} (told : d.tag? key = some tag) :
    Backs catalog scope key tag { tag := some tag, definition := d }
  | named {t : NamedType} (derived : catalog.Derives scope scope t)
    (told : t.definition.tag? key = some tag) : Backs catalog scope key tag (.naming tag t.name)

theorem backs_form {r : Resource} {a : Association} (hr : r ∈ Keyed.values catalog)
    (ha : a ∈ r.associations) {targets : List (String × Resource)}
    (ht : catalog.targets? a = some targets) {p : String × Resource} (hp : p ∈ targets) :
    catalog.Backs scope a.discriminator p.1 (.naming p.1 (a.formName p.2)) := by
  have form : a.form p.1 p.2 ∈ a.forms catalog := by
    rw [Association.forms, ht]
    exact List.mem_map_of_mem hp
  exact .named ⟨r, hr, .form ha form⟩ (Definition.tag?_object _ _ _)

theorem backs_variantType {r : Resource} (hr : r ∈ Keyed.values catalog) {w : ResourceVariant}
    (hw : w ∈ r.variants) : catalog.Backs scope r.discriminator w.tag (.naming w.tag w.name) :=
  .named ⟨r, hr, .variant hw⟩ (Definition.tag?_object _ _ _)

/-- Every variant of a derived union has a tag, and a type with that tag is derived for it. -/
theorem Unites.backs (h : catalog.Unites key variants) (hv : v ∈ variants) (scope : Scope) :
    ∃ tag, v.tag = some tag ∧ catalog.Backs scope key tag v := by
  cases h with
  | @record r hr union =>
    rw [Resource.recordType, Resource.described] at union
    simp only at union
    split at union
    · cases union
    · cases union
      obtain ⟨w, hw, rfl⟩ := List.mem_map.mp hv
      exact ⟨w.tag, rfl, backs_variantType hr hw⟩
  | @association r a d hr ha hd union =>
    rw [Association.readTarget?] at hd
    split at hd
    · obtain ⟨targets, ht, rfl⟩ := Option.map_eq_some_iff.mp hd
      cases union
      obtain ⟨p, hp, rfl⟩ := List.mem_map.mp hv
      exact ⟨p.1, rfl, backs_form hr ha ht hp⟩
    · obtain ⟨target, ht, hd⟩ := Option.bind_eq_some_iff.mp hd
      obtain ⟨named, hn, hd⟩ := Option.bind_eq_some_iff.mp hd
      cases hd
      cases union
      obtain ⟨tag, -, found⟩ := exists_of_mem_mapM hn hv
      obtain ⟨w, hw, rfl⟩ := Option.map_eq_some_iff.mp found
      obtain rfl : w.tag = tag := by simpa using List.find?_some hw
      exact ⟨w.tag, rfl,
        backs_variantType (mem_values_of_target? ht) (List.mem_of_find?_eq_some hw)⟩
    · obtain ⟨target, -, rfl⟩ := Option.map_eq_some_iff.mp hd
      cases union
  | @operation r hr accepts union =>
    cases union
    simp only [List.mem_cons, List.not_mem_nil, or_false] at hv
    rcases hv with rfl | rfl | rfl <;>
      exact ⟨_, rfl, .inline (Definition.tag?_object _ _ _)⟩

/-- A polymorphic association that can be followed unites the forms that its targets take in it. -/
theorem Unites.forms {r : Resource} {a : Association} (hr : r ∈ Keyed.values catalog)
    (ha : a ∈ r.associations) {targets : List (String × Resource)}
    (ht : catalog.targets? a = some targets) :
    catalog.Unites a.discriminator (targets.map fun p => .naming p.1 (a.formName p.2)) := by
  have followed : a.readTarget? catalog = some (.taggedUnion a.discriminator
      (targets.map fun p => .naming p.1 (a.formName p.2))) := by
    cases hk : a.target with
    | polymorphic resources => simp only [Association.readTarget?, hk, ht, Option.map_some]
    | direct _ | variants _ _ => simp [targets?, hk] at ht
  exact .association hr ha followed rfl

/-- All types without flaws that are derived under the name to which a definition refers say a tag,
and there is one. -/
def Agrees (catalog : Catalog) (scope : Scope) (key tag : String) (d : Definition) : Prop :=
  ∀ name, d.kind = .reference name →
    (∃ t, catalog.Derives scope scope t ∧ t.name = name ∧ t.check = .ok ()) ∧
    ∀ t, catalog.Derives scope scope t → t.name = name → t.check = .ok () →
      t.definition.tag? key = some tag

end Catalog

/-- Where loading into an empty registry ends without an error, every variant of a derived union has
a tag. What the variant is or refers to says that tag under the union's key, if errors are raised or
if no other type without flaws is derived under the name of the one that the variant was derived
with. -/
theorem variants_say_tags (catalog : Catalog) (scope : Scope) (policy : ErrorPolicy) (r : Registry)
    (loaded : (catalog.registerAll scope).runOn policy .empty = (.ok (), r)) (key : String)
    (variants : List Variant) (built : catalog.Unites key variants) (v : Variant)
    (hv : v ∈ variants) :
    ∃ tag, v.tag = some tag ∧
      (policy = .raise ∨ catalog.Agrees scope key tag v.definition →
        View.tag? { registry := r, scope } key v.definition = some tag) := by
  obtain ⟨tag, tagged, backed⟩ := built.backs hv scope
  refine ⟨tag, tagged, fun agrees => ?_⟩
  rw [(catalog.follows_registerAll scope).runOn_eq] at loaded
  cases backed with
  | inline told => exact View.tag?_of_tag? told
  | @named t derived told =>
    rcases agrees with rfl | agrees
    · -- the name stands for a type that is registered with this definition, or one written alike
      obtain ⟨t', here, same⟩ :=
        LoadStep.defined_of_run loaded ((catalog.mem_types_iff scope scope t).mpr derived)
      exact View.tag?_reference here ((Definition.alike_of_sameValue same).tag? told)
    · obtain ⟨⟨t₁, derived₁, named₁, sound₁⟩, all⟩ := agrees t.name rfl
      have left := LoadStep.leaves_run loaded scope t.name
      obtain ⟨t', here, derived', named', sound'⟩ :
          ∃ t', r.entry? scope t.name = some (.defined t') ∧ catalog.Derives scope scope t' ∧
            t'.name = t.name ∧ t'.check = .ok () := by
        have offered : LoadStep.Offers (catalog.steps scope) scope t.name t₁ :=
          ⟨(catalog.mem_types_iff scope scope t₁).mpr derived₁, named₁, sound₁⟩
        obtain ⟨t', here, offer⟩ := left.defined_of_offered (.inl rfl) offered
        exact ⟨t', here, (catalog.mem_types_iff scope scope t').mp offer.1, offer.2⟩
      exact View.tag?_reference here (all t' derived' named' sound')

/-- What a loan was made to is told by a tag, which its type says. -/
theorem library_says_tags :
    (library.registerAll (.api "library")).runOn .raise .empty = (.ok (), libraryTypes) ∧
      View.tag? ⟨libraryTypes, .api "library"⟩ "type" (.reference "BorrowerSchool") =
        some "school" := by
  have loaded : (library.registerAll (.api "library")).runOn .raise .empty =
      (.ok (), libraryTypes) := Loading.runOn_of_isOk (by decide +kernel)
  let borrower : Association :=
    { name := "borrower", cardinality := .one
      target := .polymorphic [("reader", "Reader"), ("school", "School")] }
  have built := Catalog.Unites.forms
    (show _ ∈ Keyed.values library from List.mem_cons_of_mem _ List.mem_cons_self)
    (show borrower ∈ _ from List.mem_cons_of_mem _ List.mem_cons_self)
    (show library.targets? borrower =
      some [("reader", { name := "Reader" }), ("school", { name := "School" })] from rfl)
  have name : borrower.formName { name := "School" } = "BorrowerSchool" := by decide +kernel
  obtain ⟨tag, tagged, told⟩ := variants_say_tags library (.api "library") .raise libraryTypes
    loaded _ _ built (.naming "school" (borrower.formName { name := "School" }))
    (List.mem_cons_of_mem _ List.mem_cons_self)
  rw [name] at tagged told
  cases tagged
  exact ⟨loaded, told (.inl rfl)⟩

def subject (tag : String) : Association :=
  { name := "subject", cardinality := .one, target := .polymorphic [(tag, "Invoice")] }

def remarks : Catalog :=
  [("Comment", { name := "Comment", associations := [subject "invoice"] }),
    ("Invoice", { name := "Invoice" }),
    ("Note", { name := "Note", associations := [subject "bill"] })]

def remarkTypes : Registry := ((remarks.registerAll (.api "desk")).runOn .silent .empty).2

/-- What notes are about goes by the tag that it has for comments. -/
theorem remarks_disagree :
    (remarks.registerAll (.api "desk")).runOn .silent .empty = (.ok (), remarkTypes) ∧
      remarks.Unites "type" [.naming "bill" "SubjectInvoice"] ∧
      View.tag? ⟨remarkTypes, .api "desk"⟩ "type" (.reference "SubjectInvoice") =
        some "invoice" := by
  have name : (subject "bill").formName { name := "Invoice" } = "SubjectInvoice" := by
    decide +kernel
  have built := Catalog.Unites.forms
    (show _ ∈ Keyed.values remarks from
      List.mem_cons_of_mem _ (List.mem_cons_of_mem _ List.mem_cons_self))
    (show subject "bill" ∈ _ from List.mem_cons_self)
    (show remarks.targets? (subject "bill") = some [("bill", { name := "Invoice" })] from rfl)
  rw [List.map_singleton, name] at built
  obtain ⟨ended, told⟩ : ((remarks.registerAll (.api "desk")).runOn .silent .empty).1.isOk = true ∧
      View.tag? ⟨remarkTypes, .api "desk"⟩ "type" (.reference "SubjectInvoice") =
        some "invoice" := by decide +kernel
  exact ⟨Loading.runOn_of_isOk ended, built, told⟩

end ApiContract
