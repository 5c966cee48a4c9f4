import ApiContract.Proofs.AcceptedParams
import ApiContract.Proofs.NestedOperations

/-!
# Updates of some fields

An update changes what it mentions. Any keys can be taken out of an update that is accepted, and the
params lose just the fields of these keys: no default fills them in.
-/

namespace ApiContract

open Validation

/-- Params have the names of the fields whose keys are given, one for each key. -/
structure NamesGiven (case : KeyCase) (shape : List Field) (members params : Keyed Json) :
    Prop where
  named : ∀ name, name ∈ Keyed.keys params ↔
    ∃ f ∈ shape, f.name = name ∧ f.wireName case ∈ Keyed.keys members
  given : ∀ key ∈ Keyed.keys members, ∃! name, name ∈ Keyed.keys params ∧ case.apply name = key

/-! ### Params without defaults -/

/-- A field goes by its own name and has no default. -/
structure Field.Bare (f : Field) : Prop where
  plain : f.rename = none
  empty : f.definition.default? = none

namespace Validation

variable {case : KeyCase} {value : Definition → Json → Json} {shape : List Field}
  {members : Keyed Json}

theorem get?_named_of_bare (distinct : (shape.map Field.name).Nodup)
    (bare : ∀ f ∈ shape, f.Bare) {f : Field} (hf : f ∈ shape) :
    Keyed.get? (named case value shape members) f.name =
      (Keyed.get? members (case.apply f.name)).map (value f.definition) := by
  rw [get?_named distinct hf, fieldParam_of_noDefault (bare f hf).empty,
    Field.wireName_of_unrenamed (bare f hf).plain]

/-- The params of a part of an object are that part of its params. -/
theorem named_filter (distinct : (shape.map Field.name).Nodup) (bare : ∀ f ∈ shape, f.Bare)
    (keep : String → Bool) :
    named case value shape (members.filter fun p => keep p.1) =
      (named case value shape members).filter fun p => keep (case.apply p.1) := by
  have kept : Keyed.Sorted
      ((named case value shape members).filter fun p => keep (case.apply p.1)) :=
    List.Pairwise.sublist (List.filter_sublist.map _) sorted_named
  refine sorted_named.ext kept fun name => ?_
  rw [Keyed.get?_filter (fun name => keep (case.apply name))]
  by_cases known : name ∈ shape.map Field.name
  · obtain ⟨f, hf, rfl⟩ := List.mem_map.mp known
    rw [get?_named_of_bare distinct bare hf, get?_named_of_bare distinct bare hf,
      Keyed.get?_filter]
    split <;> rfl
  · rw [get?_named_of_not_mem known, get?_named_of_not_mem known, ite_self]

/-- Params have the names of exactly the fields whose keys are given. -/
theorem mem_keys_named_iff (distinct : (shape.map Field.name).Nodup)
    (bare : ∀ f ∈ shape, f.Bare) (name : String) :
    name ∈ Keyed.keys (named case value shape members) ↔
      ∃ f ∈ shape, f.name = name ∧ f.wireName case ∈ Keyed.keys members := by
  constructor
  · intro hn
    obtain ⟨x, hx⟩ := (Keyed.mem_keys_iff _ _).mp hn
    by_cases known : name ∈ shape.map Field.name
    · obtain ⟨f, hf, rfl⟩ := List.mem_map.mp known
      rw [get?_named_of_bare distinct bare hf] at hx
      obtain ⟨m, hm, -⟩ := Option.map_eq_some_iff.mp hx
      refine ⟨f, hf, rfl, ?_⟩
      rw [Field.wireName_of_unrenamed (bare f hf).plain]
      exact Keyed.mem_keys_of_get? hm
    · rw [get?_named_of_not_mem known] at hx
      cases hx
  · rintro ⟨f, hf, rfl, hk⟩
    rw [Field.wireName_of_unrenamed (bare f hf).plain] at hk
    obtain ⟨m, hm⟩ := (Keyed.mem_keys_iff _ _).mp hk
    refine Keyed.mem_keys_of_get? (v := value f.definition m) ?_
    rw [get?_named_of_bare distinct bare hf, hm]
    rfl

/-- The params of an object that meets a shape without defaults have the names of its keys. -/
theorem namesGiven_of_meets {P : Definition → Json → Prop}
    (distinct : (shape.map (Field.wireName case)).Nodup) (bare : ∀ f ∈ shape, f.Bare)
    (apart : (shape.map Field.name).Nodup) (meets : MeetsShape case [] P shape members) :
    NamesGiven case shape members (named case value shape members) where
  named := mem_keys_named_iff apart bare
  given key hk := by
    obtain ⟨f, hf, rfl⟩ := List.mem_map.mp ((meets.known key hk).resolve_right (by simp))
    refine ⟨f.name, ⟨(mem_keys_named_iff apart bare _).mpr ⟨f, hf, rfl, hk⟩, ?_⟩, ?_⟩
    · rw [Field.wireName_of_unrenamed (bare f hf).plain]
    · rintro name ⟨hn, same⟩
      obtain ⟨g, hg, rfl, -⟩ := (mem_keys_named_iff apart bare _).mp hn
      rw [← Field.wireName_of_unrenamed (bare g hg).plain] at same
      exact congrArg Field.name (List.inj_on_of_nodup_map distinct hg hf same)

end Validation

/-! ### Fields of an update -/

namespace Association

variable {catalog : Catalog} {r : Resource} {context : WriteContext} {a : Association} {f : Field}

/-- Whatever way an association is written, its fields go by their own names. -/
theorem bare_of_mem (hf : f ∈ (a.written catalog r context).toOption.getD []) : f.Bare := by
  refine ⟨(written_of_mem hf).plain, ?_⟩
  rcases field_cases hf with ⟨resources, targets, hf⟩ | ⟨target, rfl⟩ | ⟨target, rfl⟩
  · rcases List.mem_pair.mp hf with rfl | rfl
    · cases targets with
      | nil => rfl
      | cons first rest => exact first.2.idDefinition_bare
    · rfl
  · rw [idField]
    split
    · rfl
    · exact target.idDefinition_bare
  · simp only [recordField]
    by_cases many : a.cardinality = .many <;> simp only [many, if_true, if_false] <;> rfl

end Association

theorem Resource.bare_of_mem {catalog : Catalog} {r : Resource} {f : Field}
    (hf : f ∈ r.writtenFields catalog .update) : f.Bare := by
  rcases List.mem_append.mp hf with hf | hf
  · obtain ⟨a, -, rfl⟩ := List.mem_map.mp hf
    exact ⟨rfl, rfl⟩
  · obtain ⟨a, -, hf⟩ := List.mem_flatMap.mp hf
    exact Association.bare_of_mem hf

theorem Field.Bare.of_alike {f g : Field} (h : f.Alike g) (bare : g.Bare) : f.Bare :=
  ⟨h.rename.trans bare.plain, h.definition.default?_none bare.empty⟩

/-- Fields of definitions that are equal as values have the same names. -/
theorem NamesGiven.of_alike {case : KeyCase} {shape fields : List Field}
    {members params : Keyed Json} (h : NamesGiven case shape members params)
    (alike : List.Forall₂ Field.Alike shape fields) : NamesGiven case fields members params where
  named name := by
    rw [h.named]
    constructor
    · rintro ⟨f, hf, rfl, hk⟩
      obtain ⟨g, hg, same⟩ := exists_of_forall₂ alike hf
      exact ⟨g, hg, same.name.symm, same.wireName_eq case ▸ hk⟩
    · rintro ⟨g, hg, rfl, hk⟩
      obtain ⟨f, hf, same⟩ := exists_of_forall₂ alike.flip hg
      exact ⟨f, hf, same.name, (same.wireName_eq case).symm ▸ hk⟩
  given := h.given

/-! ### Updates -/

theorem exists_object_of_shape {c : Context} {n : Nat} {tags : List String} {d : Definition}
    {shape : List Field} {j : Json} (hk : d.kind = .object shape)
    (present : (j.isNull && takesNull d) = false) (clean : CleanBy (judge c (n + 1)) tags d j) :
    ∃ members, j = .object members := by
  rw [cleanBy_judge_iff_stepMeets c n tags present] at clean
  simp only [StepMeets, hk] at clean
  obtain ⟨members, same, -⟩ := clean
  exact ⟨members, same⟩

/-- What an update that is accepted keeps when some of its keys are left out. -/
theorem updates_of_alike {c : Context} {name : String} {d : Definition} {shape fields : List Field}
    (found : c.view.definition? name = some d) (hk : d.kind = .object shape)
    (alike : List.Forall₂ Field.Alike shape fields) (bare : ∀ f ∈ fields, f.Bare)
    (spare : ∀ f ∈ fields, f.definition.optional = true)
    (distinct : (fields.map (Field.wireName c.case)).Nodup) {members : Keyed Json}
    (accepted : c.accepts (.reference name) (.object members) = true) :
    ∃ params, (c.validate (.reference name) (.object members)).params = .object params ∧
      ∀ keep : String → Bool,
        let rest := members.filter fun p => keep p.1
        let kept := params.filter fun p => keep (c.case.apply p.1)
        c.accepts (.reference name) (.object rest) = true ∧
        (c.validate (.reference name) (.object rest)).params = .object kept ∧
        NamesGiven c.case fields rest kept := by
  have bare' : ∀ f ∈ shape, f.Bare := fun f hf =>
    let ⟨g, hg, same⟩ := exists_of_forall₂ alike hf
    .of_alike same (bare g hg)
  have spare' : ∀ f ∈ shape, f.definition.optional = true := fun f hf =>
    let ⟨g, hg, same⟩ := exists_of_forall₂ alike hf
    same.definition.optional.trans (spare g hg)
  rw [← Field.map_wireName_of_alike alike] at distinct
  have apart : (shape.map Field.name).Nodup := by
    have wires : shape.map (Field.wireName c.case) = (shape.map Field.name).map c.case.apply := by
      rw [List.map_map]
      exact List.map_congr_left fun f hf => Field.wireName_of_unrenamed (bare' f hf).plain c.case
    rw [wires] at distinct
    exact distinct.of_map _
  have leads : Definition.LeadsTo c.view shape 1 (.reference name) :=
    .reference rfl found (.object hk)
  -- an object that meets the shape is accepted by name, and its params are those of the shape
  have read {ms : Keyed Json} (ok : c.accepts (.reference name) (.object ms) = true) :
      MeetsShape c.case [] (CleanBy (judge c (nestingLimit - 1)) []) shape ms ∧
        (c.validate (.reference name) (.object ms)).params =
          .object (Validation.named c.case (c.paramsWithin (nestingLimit - 1)) shape ms) := by
    have clean := (acceptsWithin_iff c (nestingLimit + 1) _ _).mp ok
    obtain ⟨k, hn, meets, params⟩ := paramsWithin_of_leadsTo leads clean
    obtain rfl : k = nestingLimit - 1 := by omega
    exact ⟨meets, params⟩
  obtain ⟨meets, params⟩ := read accepted
  refine ⟨_, params, fun keep => ?_⟩
  have kept := meets.filter keep fun f hf _ => spare' f hf
  have ok : c.accepts (.reference name) (.object (members.filter fun p => keep p.1)) = true :=
    (accepts_reference_iff found _).mpr ((cleanBy_object_iff hk).mpr kept)
  refine ⟨ok, ?_, ?_⟩
  · rw [(read ok).2, named_filter apart bare' keep]
  · rw [← named_filter apart bare' keep]
    exact (namesGiven_of_meets distinct bare' apart kept).of_alike alike

/-- Once a resource is registered without an error, its updates stay accepted without any of their
keys, and their params have the names of the keys that are given. -/
theorem partial_updates_stay (catalog : Catalog) (scope : Scope) (r : Resource)
    {before after later : Registry} (case : KeyCase)
    (registered : (r.registerTypes catalog scope).runOn .raise before = (.ok (), after))
    (grown : after.GrowsTo later)
    (distinct : ((r.writtenFields catalog .update).map (Field.wireName case)).Nodup)
    (body : Json) :
    let c : Context := ⟨{ registry := later, scope }, case⟩
    let payload := Definition.reference r.updatePayloadName
    c.accepts payload body = true →
      ∃ members params, body = .object members ∧
        (c.validate payload body).params = .object params ∧
        ∀ keep : String → Bool,
          let rest := members.filter fun p => keep p.1
          let kept := params.filter fun p => keep (case.apply p.1)
          c.accepts payload (.object rest) = true ∧
          (c.validate payload (.object rest)).params = .object kept ∧
          NamesGiven case (r.writtenFields catalog .update) rest kept := by
  intro c payload accepted
  obtain ⟨d, found, alike⟩ := Resource.exists_definition registered grown
    (.payload .update : r.Derives catalog scope scope (r.payloadType catalog .update))
  have found : c.view.definition? r.updatePayloadName = some d := found
  obtain ⟨shape, hk, fields⟩ := alike.kind.eq_object
  have present : (body.isNull && takesNull d) = false := by
    simp [takesNull, hk, alike.nullable, Resource.payloadType, Definition.object]
  obtain ⟨members, rfl⟩ :=
    exists_object_of_shape hk present ((accepts_reference_iff found body).mp accepted)
  obtain ⟨params, hp, kept⟩ := updates_of_alike found hk fields
    (fun f hf => Resource.bare_of_mem hf) (fun f hf => (Resource.written_of_mem hf).spare rfl)
    distinct accepted
  exact ⟨members, params, rfl, hp, kept⟩

/-! ### A shipment -/

def shipment : Resource where
  name := "Shipment"
  attributes := [
    { name := "due_on", definition := .scalar .date, writable := .flag true },
    { name := "parcel_count", writable := .flag true
      definition := { Definition.scalar .integer with default? := some (.int 1) } }]
  associations := [
    { name := "carrier", cardinality := .belongsTo, writable := .flag true
      target := .direct (some "Carrier") },
    { name := "labels", cardinality := .many, writable := .flag true
      target := .direct (some "Label") },
    { name := "source", cardinality := .belongsTo, writable := .flag true, nullable := true
      target := .polymorphic [("label", "Label"), ("shipment", "Shipment")] },
    { name := "parcels", cardinality := .many, writable := .flag true, nested := true
      target := .direct (some "Shipment") }]
  rootKey? := some ⟨"shipment", "shipments"⟩
  acceptsNestedWrites := true

def shipments : Catalog := [
  ("Carrier", { name := "Carrier", attributes := [{ name := "id", definition := .scalar .uuid }] }),
  ("Label", { name := "Label" }), ("Shipment", shipment)]

def shipmentTypes : Registry :=
  ((shipment.registerTypes shipments (.api "depot")).runOn .raise .empty).2

def shipmentUpdate : Json :=
  .object [("dueOn", .string "2024-02-29"), ("labelIds", .array [.int 3]),
    ("parcels", .array [.object [("_op", .string "delete"), ("id", .int 7)]]),
    ("sourceId", .null)]

/-- Without the parcels and the date the update still is one, and says nothing about them. -/
theorem shipment_update_stays :
    let c : Context := ⟨⟨shipmentTypes, .api "depot"⟩, .camel⟩
    let payload := Definition.reference "ShipmentUpdatePayload"
    let rest := Json.object [("labelIds", .array [.int 3]), ("sourceId", .null)]
    c.accepts payload shipmentUpdate = true ∧ c.accepts payload rest = true ∧
      (c.validate payload rest).params =
        .object [("label_ids", .array [.int 3]), ("source_id", .null)] := by
  have registered : (shipment.registerTypes shipments (.api "depot")).runOn .raise .empty =
      (.ok (), shipmentTypes) := Loading.runOn_of_isOk (by decide +kernel)
  have distinct : ((shipment.writtenFields shipments .update).map
      (Field.wireName .camel)).Nodup := by decide +kernel
  have name : shipment.updatePayloadName = "ShipmentUpdatePayload" := by decide +kernel
  intro c payload rest
  have accepted : c.accepts payload shipmentUpdate = true := by decide +kernel
  have stays := partial_updates_stay shipments (.api "depot") shipment .camel registered (.refl _)
    distinct shipmentUpdate
  simp only [name] at stays
  obtain ⟨members, params, body, made, kept⟩ := stays accepted
  cases body
  have names : ((c.validate payload shipmentUpdate).params.object?.map fun ps =>
      ps.filter fun p => KeyCase.camel.apply p.1 == "labelIds" ||
        KeyCase.camel.apply p.1 == "sourceId") =
        some [("label_ids", .array [.int 3]), ("source_id", .null)] := by decide +kernel
  have made : (c.validate payload shipmentUpdate).params = .object params := made
  rw [made] at names
  obtain ⟨ok, left, -⟩ := kept fun key => key == "labelIds" || key == "sourceId"
  exact ⟨accepted, ok, left.trans (congrArg Json.object (Option.some.inj names))⟩

end ApiContract
