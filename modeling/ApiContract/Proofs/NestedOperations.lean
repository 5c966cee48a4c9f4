import ApiContract.Proofs.ResponseBodies

/-!
# What an operation on a nested record says

A parent creates, updates or deletes a record by an operation that names itself. Whatever the
attributes and associations of the resource are, and whatever is registered beside it, an operation
that is accepted says what its name says: a new record has no id, a changed one has an id and no
need of anything else, a deleted one has an id and nothing else.
-/

namespace ApiContract

open Validation Resource

/-- An operation says what to do with a nested record, where some values are accepted. -/
inductive SaysOperation (accepted : Json → Prop) : Json → Prop where
  | create {members} (op : Keyed.get? members operationKey = some (.string "create"))
      (unknown : "id" ∉ Keyed.keys members) : SaysOperation accepted (.object members)
  | update {members} (op : Keyed.get? members operationKey = some (.string "update"))
      (known : "id" ∈ Keyed.keys members)
      (rest : ∀ keep : String → Bool, keep operationKey = true → keep "id" = true →
        accepted (.object (members.filter fun p => keep p.1))) :
      SaysOperation accepted (.object members)
  | delete {members} (op : Keyed.get? members operationKey = some (.string "delete"))
      (only : ∀ key, key ∈ Keyed.keys members ↔ key = operationKey ∨ key = "id") :
      SaysOperation accepted (.object members)

/-! ### Fields that may be left out -/

/-- An object that meets its shape still does without keys that need not be there. -/
theorem Validation.MeetsShape.filter {case : KeyCase} {tags : List String}
    {P : Definition → Json → Prop} {shape : List Field} {members : Keyed Json}
    (h : MeetsShape case tags P shape members) (keep : String → Bool)
    (free : ∀ f ∈ shape, keep (f.wireName case) = false → f.definition.optional = true) :
    MeetsShape case tags P shape (members.filter fun p => keep p.1) where
  known key hk := by
    obtain ⟨p, hp, rfl⟩ := List.mem_map.mp hk
    exact h.known p.1 (List.mem_map_of_mem (List.mem_of_mem_filter hp))
  present f hf m hm := by
    rw [Keyed.get?_filter] at hm
    split at hm
    · exact h.present f hf m hm
    · cases hm
  absent f hf hm := by
    rw [Keyed.get?_filter] at hm
    cases kept : keep (f.wireName case) with
    | false => exact .inl (free f hf kept)
    | true => exact h.absent f hf (by simpa [kept] using hm)

/-- A field of a write goes by its own name, and an update may leave it out. -/
structure Field.Written (context : WriteContext) (f : Field) : Prop where
  plain : f.rename = none
  spare : context = .update → f.definition.optional = true

namespace Association

variable {catalog : Catalog} {r : Resource} {context : WriteContext} {a : Association} {f : Field}

theorem written_of_mem_tagFields {resources : Keyed String} {targets : List (String × Resource)}
    {optional : Bool} (spare : context = .update → optional = true)
    (hf : f ∈ a.tagFields resources targets optional) : f.Written context := by
  rcases List.mem_pair.mp hf with rfl | rfl <;> exact ⟨rfl, spare⟩

theorem written_idField (target : Resource) {optional : Bool}
    (spare : context = .update → optional = true) :
    (a.idField target optional).Written context := by
  rw [idField]
  split <;> exact ⟨rfl, spare⟩

theorem written_recordField (target : Resource) {optional : Bool}
    (spare : context = .update → optional = true) :
    (a.recordField context target optional).Written context := ⟨rfl, spare⟩

/-- What a field is by which an association is written. -/
theorem field_cases (hf : f ∈ (a.written catalog r context).toOption.getD []) :
    let optional := context == .update || a.optional
    (∃ resources targets, f ∈ a.tagFields resources targets optional) ∨
      (∃ target, f = a.idField target optional) ∨
      ∃ target, f = a.recordField context target optional := by
  intro optional
  have single (target : Resource)
      (hf : f ∈ (a.writtenSingle r context target optional).toOption.getD []) :
      f = a.idField target optional ∨ f = a.recordField context target optional := by
    rw [writtenSingle] at hf
    split at hf
    · exact .inl (List.mem_singleton.mp hf)
    · split at hf
      · cases hf
      · exact .inr (List.mem_singleton.mp hf)
  rw [written] at hf
  cases ht : a.target with
  | polymorphic resources =>
    simp only [ht, writtenTagged] at hf
    split at hf
    · cases hf
    · split at hf
      · cases hf
      · exact .inl ⟨_, _, hf⟩
  | direct _ | variants _ _ =>
    simp only [ht] at hf
    split at hf
    · cases hf
    · exact .inr ((single _ hf).imp (⟨_, ·⟩) (⟨_, ·⟩))

theorem written_of_mem (hf : f ∈ (a.written catalog r context).toOption.getD []) :
    f.Written context := by
  have spare : context = .update → (context == .update || a.optional) = true := by
    rintro rfl
    rfl
  rcases field_cases hf with ⟨resources, targets, hf⟩ | ⟨target, rfl⟩ | ⟨target, rfl⟩
  · exact written_of_mem_tagFields spare hf
  · exact written_idField target spare
  · exact written_recordField target spare

end Association

theorem Resource.written_of_mem {catalog : Catalog} {r : Resource} {context : WriteContext}
    {f : Field} (hf : f ∈ r.writtenFields catalog context) : f.Written context := by
  rcases List.mem_append.mp hf with hf | hf
  · obtain ⟨a, -, rfl⟩ := List.mem_map.mp hf
    refine ⟨rfl, ?_⟩
    rintro rfl
    rfl
  · obtain ⟨a, -, hf⟩ := List.mem_flatMap.mp hf
    exact Association.written_of_mem hf

/-! ### Operations -/

namespace Validation

theorem MeetsShape.mem_keys {case : KeyCase} {tags : List String} {P : Definition → Json → Prop}
    {shape : List Field} {members : Keyed Json} (h : MeetsShape case tags P shape members)
    {f : Field} (hf : f ∈ shape) (needed : f.definition.optional = false)
    (bare : f.definition.default? = none) : f.wireName case ∈ Keyed.keys members := by
  by_contra absent
  rcases h.absent f hf ((Keyed.get?_eq_none_iff _ _).mpr absent) with optional | filled
  · simp [needed] at optional
  · simp [bare] at filled

end Validation

namespace Resource

variable {catalog : Catalog} {r : Resource} {shape : List Field} {members : Keyed Json}
  {P : Definition → Json → Prop}

def operationId (r : Resource) : Field := field "id" r.idDefinition

def operationField (tag : String) : Field := field operationKey (.literal (.string tag))

def operationFields (r : Resource) (catalog : Catalog) (context : WriteContext) : List Field :=
  (r.writtenFields catalog context).filter (·.name != "id")

theorem idDefinition_required (r : Resource) : r.idDefinition.optional = false := by
  rw [idDefinition]
  split <;> rfl

theorem idDefinition_bare (r : Resource) : r.idDefinition.default? = none := by
  rw [idDefinition]
  split <;> rfl

/-- No field of a creation is called `id`, as resources name their ids themselves. -/
theorem create_lacks_id (alike : List.Forall₂ Field.Alike shape
      (operationField "create" :: r.operationFields catalog .create))
    (meets : MeetsShape .preserve [operationKey] P shape members) : "id" ∉ Keyed.keys members := by
  intro known
  rcases meets.known "id" known with named | excused
  · rw [Field.map_wireName_of_alike alike] at named
    obtain ⟨f, hf, named⟩ := List.mem_map.mp named
    rcases List.mem_cons.mp hf with rfl | hf
    · exact absurd named (by decide +kernel)
    · obtain ⟨hf, other⟩ := List.mem_filter.mp hf
      rw [Field.wireName_preserve (written_of_mem hf).plain] at named
      simp [named] at other
  · exact absurd excused (by decide)

/-- A record to be changed or deleted is named by its id. -/
theorem has_id {op : Field} {others : List Field}
    (alike : List.Forall₂ Field.Alike shape (op :: r.operationId :: others))
    (meets : MeetsShape .preserve [operationKey] P shape members) : "id" ∈ Keyed.keys members := by
  obtain ⟨f, hf, alike⟩ : ∃ f ∈ shape, f.Alike r.operationId := by
    cases alike with
    | cons _ rest =>
      cases rest with
      | cons same => exact ⟨_, .tail _ (.head _), same⟩
  have named : f.wireName .preserve = "id" := by
    rw [alike.wireName_eq, Field.wireName_preserve rfl]
    rfl
  rw [← named]
  exact meets.mem_keys hf (alike.definition.optional.trans r.idDefinition_required)
    (alike.definition.default?_none r.idDefinition_bare)

/-- An update may leave out every key but those that say what to do with which record. -/
theorem update_without (alike : List.Forall₂ Field.Alike shape
      (operationField "update" :: r.operationId :: r.operationFields catalog .update))
    (meets : MeetsShape .preserve [operationKey] P shape members) (keep : String → Bool)
    (op : keep operationKey = true) (id : keep "id" = true) :
    MeetsShape .preserve [operationKey] P shape (members.filter fun p => keep p.1) := by
  refine meets.filter keep fun f hf left => ?_
  obtain ⟨g, hg, same⟩ := exists_of_forall₂ alike hf
  rw [same.wireName_eq] at left
  rw [same.definition.optional]
  rcases List.mem_cons.mp hg with rfl | hg
  · rw [Field.wireName_preserve rfl] at left
    cases left.symm.trans op
  rcases List.mem_cons.mp hg with rfl | hg
  · rw [Field.wireName_preserve rfl] at left
    cases left.symm.trans id
  · exact (written_of_mem (List.mem_filter.mp hg).1).spare rfl

/-- A deletion says nothing else. -/
theorem delete_only
    (alike : List.Forall₂ Field.Alike shape [operationField "delete", r.operationId])
    (meets : MeetsShape .preserve [operationKey] P shape members)
    (op : operationKey ∈ Keyed.keys members) (key : String) :
    key ∈ Keyed.keys members ↔ key = operationKey ∨ key = "id" := by
  have names : shape.map (Field.wireName .preserve) = [operationKey, "id"] := by
    rw [Field.map_wireName_of_alike alike, List.map_cons, List.map_cons, List.map_nil,
      Field.wireName_preserve rfl, Field.wireName_preserve rfl]
    rfl
  constructor
  · intro known
    have named := meets.known key known
    rw [names] at named
    simpa [or_right_comm] using named
  · rintro (rfl | rfl)
    · exact op
    · exact has_id alike meets

end Resource

/-- The operations on nested records that a type accepts say what to do. -/
theorem saysOperation_of_clean {catalog : Catalog} {r : Resource} {view : View} {d : Definition}
    {j : Json} {n : Nat} (alike : d.Alike (r.nestedOperationType catalog).definition)
    (clean : CleanBy (judge ⟨view, .preserve⟩ (n + 2)) [] d j) :
    SaysOperation (CleanBy (judge ⟨view, .preserve⟩ (n + 2)) [] d) j := by
  obtain ⟨others, hk, variants⟩ := alike.kind.eq_union
  have present : (j.isNull && takesNull d) = false := by
    simp [takesNull, hk, alike.nullable, Resource.nestedOperationType, Definition.taggedUnion]
  obtain ⟨members, rfl⟩ := exists_object_of_tagged hk present clean
  obtain ⟨tag, variant, op, hv, chosen⟩ := (cleanBy_taggedUnion_iff hk).mp clean
  rw [KeyCase.apply_preserve] at op chosen
  obtain ⟨w, hw, same⟩ := exists_of_forall₂ variants (List.mem_of_find?_eq_some hv)
  have tagged : w.tag = some tag := same.tag.symm.trans (Variant.tag_of_tagged? hv)
  simp only [List.mem_cons, List.not_mem_nil, or_false] at hw
  rcases hw with rfl | rfl | rfl
  · cases tagged
    obtain ⟨shape, hs, fields⟩ := same.definition.kind.eq_object
    exact .create op (Resource.create_lacks_id fields ((cleanBy_object_iff hs).mp chosen))
  · cases tagged
    obtain ⟨shape, hs, fields⟩ := same.definition.kind.eq_object
    have meets := (cleanBy_object_iff hs).mp chosen
    refine .update op (Resource.has_id fields meets) fun keep keepOp keepId => ?_
    have kept : Keyed.get? (members.filter fun p => keep p.1)
        (KeyCase.preserve.apply operationKey) = some (.string "update") := by
      rw [KeyCase.apply_preserve, Keyed.get?_filter, if_pos keepOp, op]
    refine (cleanBy_tagged_iff hk kept hv).mpr ?_
    rw [KeyCase.apply_preserve]
    exact (cleanBy_object_iff hs).mpr (Resource.update_without fields meets keep keepOp keepId)
  · cases tagged
    obtain ⟨shape, hs, fields⟩ := same.definition.kind.eq_object
    have meets := (cleanBy_object_iff hs).mp chosen
    exact .delete op (Resource.delete_only fields meets (Keyed.mem_keys_of_get? op))

/-- By name is accepted what the definition that the name stands for takes with a level less. -/
theorem accepts_reference_iff {c : Context} {name : String} {d : Definition}
    (found : c.view.definition? name = some d) (j : Json) :
    c.accepts (.reference name) j = true ↔ CleanBy (judge c nestingLimit) [] d j := by
  have present : (j.isNull && takesNull (.reference name)) = false := Bool.and_false _
  rw [Context.accepts, List.isEmpty_iff, ← clean_nil_iff]
  refine (cleanBy_reference_iff rfl present).trans ?_
  constructor
  · rintro ⟨e, he, clean⟩
    cases found.symm.trans he
    exact clean
  · exact fun clean => ⟨d, found, clean⟩

/-- What is derived from a resource that is registered without an error is found under its name,
whatever is registered later. -/
theorem Resource.exists_definition {catalog : Catalog} {scope : Scope} {r : Resource}
    {before after later : Registry} {t : NamedType}
    (registered : (r.registerTypes catalog scope).runOn .raise before = (.ok (), after))
    (grown : after.GrowsTo later) (derived : r.Derives catalog scope scope t) :
    ∃ d, View.definition? ⟨later, scope⟩ t.name = some d ∧ d.Alike t.definition := by
  rw [(Resource.follows_registerTypes catalog scope r).runOn_eq] at registered
  obtain ⟨t', here, same⟩ := LoadStep.defined_of_run registered
    ((Resource.mem_types_iff catalog scope r scope t).mpr derived)
  exact ⟨t'.definition,
    View.definition?_of_lookup (Registry.lookup_of_entry (grown.entry_of_settled here rfl)),
    Definition.alike_of_sameValue same⟩

/-- Once a resource that accepts nested writes is registered without an error, each operation that
is accepted under the name of its operations says what to do, whatever is registered later. -/
theorem nested_operations_say (catalog : Catalog) (scope : Scope) (r : Resource)
    {before after later : Registry} (accepts : r.acceptsNestedWrites = true)
    (registered : (r.registerTypes catalog scope).runOn .raise before = (.ok (), after))
    (grown : after.GrowsTo later) {j : Json} :
    let c : Context := ⟨{ registry := later, scope }, .preserve⟩
    c.accepts (.reference r.nestedOperationName) j = true →
      SaysOperation (fun j => c.accepts (.reference r.nestedOperationName) j = true) j := by
  intro c accepted
  obtain ⟨d, found, alike⟩ := Resource.exists_definition registered grown
    (.nestedOperation accepts : r.Derives catalog scope scope (r.nestedOperationType catalog))
  have found : c.view.definition? r.nestedOperationName = some d := found
  simp only [accepts_reference_iff found] at accepted ⊢
  exact saysOperation_of_clean alike accepted

def orderLine : Resource where
  name := "Line"
  attributes := [{ name := "sku", definition := .scalar .string, writable := .flag true }]
  associations := [{
    name := "parts"
    cardinality := .many
    target := .direct (some "Line")
    writable := .flag true
    nested := true }]
  acceptsNestedWrites := true

def orderLines : Registry :=
  ((orderLine.registerTypes [("Line", orderLine)] (.api "orders")).runOn .raise .empty).2

/-- A line loses a part of it, and need not. -/
theorem line_update_says :
    let c : Context := ⟨⟨orderLines, .api "orders"⟩, .preserve⟩
    let part := Json.object [("_op", .string "delete"), ("id", .int 8)]
    SaysOperation (fun j => c.accepts (.reference "LineNestedOperation") j = true)
      (.object [("_op", .string "update"), ("id", .int 7), ("parts", .array [part])]) := by
  have registered : (orderLine.registerTypes [("Line", orderLine)] (.api "orders")).runOn .raise
      .empty = (.ok (), orderLines) := Loading.runOn_of_isOk (by decide +kernel)
  have name : orderLine.nestedOperationName = "LineNestedOperation" := by decide +kernel
  intro c
  rw [← name]
  exact nested_operations_say [("Line", orderLine)] (.api "orders") orderLine rfl registered
    (.refl _) (by decide +kernel)

end ApiContract
