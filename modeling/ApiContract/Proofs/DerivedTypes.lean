import ApiContract.Proofs.LoadingScripts

/-!
# The types that loading derives

What is derived from a resource depends on its declarations and on the catalog alone: the type of
its records with the forms that other resources take in it, its payloads, operations, filter, order
and responses. Here these types are named, and with them the script that loading follows. So loading
the same resources again changes nothing.
-/

namespace ApiContract

def Variant.naming (tag name : String) : Variant :=
  { tag := some tag, definition := .reference name }

open Resource (field)
open Loading (Follows)

/-! ### Associations as they are read -/

namespace Association

variable (catalog : Catalog) (scope : Scope) (r : Resource) (a : Association)

def formName (target : Resource) : String := typeName a.name ++ target.name

/-- The form that a target takes in a polymorphic association: its attributes, and a tag. -/
def form (tag : String) (target : Resource) : NamedType where
  name := a.formName target
  definition := .object (field a.discriminator (.literal (.string tag)) ::
    (target.attributes.filter (·.name != a.discriminator)).map fun attr =>
      field attr.name attr.readDefinition)

/-- What an association points at, as it is read, if it can be followed. -/
def readTarget? : Option Definition :=
  match a.target with
  | .polymorphic _ =>
    (catalog.targets? a).map fun targets =>
      .taggedUnion a.discriminator (targets.map fun p => .naming p.1 (a.formName p.2))
  | .variants _ (tag :: tags) => do
    let target ← catalog.target? a
    let variants ← (tag :: tags).mapM fun tag =>
      (target.variant? tag).map fun v => Variant.naming tag v.name
    some (.taggedUnion target.discriminator variants)
  | _ => (catalog.target? a).map fun target => .reference target.name

def readField (target : Definition) : Field :=
  let d := if a.cardinality = .many then Definition.arrayOf target
    else { target with nullable := a.nullable }
  field a.name
    { d with optional := a.optional, docs := { d.docs with description := a.description } }

def forms : List NamedType := ((catalog.targets? a).getD []).map fun p => a.form p.1 p.2

def readSteps : List LoadStep :=
  match a.readTarget? catalog with
  | none => [.defect (.unresolvableAssociation r.name a.name)]
  | some _ => (a.forms catalog).map (.register scope)

end Association

namespace Resource

variable (catalog : Catalog) (scope : Scope) (r : Resource)

/-- Types are registered one after another, and a union refers to each. -/
theorem follows_named {γ : Type} (tag : γ → String) (type : γ → NamedType) (xs : List γ) :
    Follows (xs.mapM fun x => do
        Loading.register scope (type x).name (type x).definition
        return Variant.naming (tag x) (type x).name)
      (xs.map fun x => .register scope (type x))
      (xs.map fun x => .naming (tag x) (type x).name) := by
  rw [List.map_eq_flatMap]
  exact .mapM fun x _ => (Follows.register scope _ _).bind (.pure _)

theorem follows_polymorphicUnion (a : Association) (targets : List (String × Resource)) :
    Follows (polymorphicUnion scope a targets)
      (targets.map fun p => .register scope (a.form p.1 p.2))
      (.taggedUnion a.discriminator (targets.map fun p => .naming p.1 (a.formName p.2))) :=
  (follows_named scope Prod.fst (fun p => a.form p.1 p.2) targets).map
    (Definition.taggedUnion a.discriminator)

/-- Reading a target registers its forms if there are several, and yields what it is read as. -/
theorem follows_readTarget (a : Association) :
    Follows (r.readTarget catalog scope a) (a.readSteps catalog scope r)
      (a.readTarget? catalog) := by
  have silent (single : a.forms catalog = [])
      (found : ∀ d, a.readTarget? catalog = some d → r.readTarget catalog scope a = pure (some d))
      (lost : a.readTarget? catalog = none →
        r.readTarget catalog scope a = r.unresolvable a none) :
      Follows (r.readTarget catalog scope a) (a.readSteps catalog scope r)
        (a.readTarget? catalog) := by
    rw [Association.readSteps, single]
    cases h : a.readTarget? catalog with
    | none =>
      rw [lost h]
      exact .report _ none
    | some d =>
      rw [found d h]
      exact .pure (some d)
  cases ht : a.target with
  | polymorphic resources =>
    cases hs : catalog.targets? a with
    | none =>
      simp only [readTarget, Association.readSteps, Association.readTarget?, ht, hs]
      exact .report _ none
    | some targets =>
      simp only [readTarget, Association.readSteps, Association.readTarget?, Association.forms, ht,
        hs, List.map_map]
      exact (follows_polymorphicUnion scope a targets).map some
  | direct resource =>
    refine silent (by simp [Association.forms, Catalog.targets?, ht]) (fun d h => ?_) fun h => ?_
    all_goals
      simp only [Association.readTarget?, ht, Option.map_eq_some_iff, Option.map_eq_none_iff] at h
      cases hr : catalog.target? a <;> simp_all [readTarget]
  | variants resource tags =>
    refine silent (by simp [Association.forms, Catalog.targets?, ht]) (fun d h => ?_) fun h => ?_
    all_goals
      cases tags with
      | nil =>
        simp only [Association.readTarget?, ht] at h
        cases hr : catalog.target? a <;> simp_all [readTarget]
      | cons tag tags =>
        simp only [Association.readTarget?, ht, Variant.naming] at h
        simp only [readTarget, ht, h]

theorem follows_readAssociation (a : Association) :
    Follows (r.readAssociation catalog scope a) (a.readSteps catalog scope r)
      ((a.readTarget? catalog).map a.readField) :=
  (follows_readTarget catalog scope r a).map _

/-! ### Records -/

def readFields : List Field :=
  (r.attributes.map fun a => field a.name a.readDefinition) ++
    r.associations.filterMap fun a => (a.readTarget? catalog).map a.readField

def variantType (v : ResourceVariant) : NamedType where
  name := v.name
  definition := .object (field r.discriminator (.literal (.string v.tag)) ::
    (r.readFields catalog).filter (·.name != r.discriminator) ++
      v.attributes.map fun a => field a.name a.readDefinition)

def recordType : NamedType where
  name := r.name
  definition := r.described <|
    if r.variants.isEmpty then .object (r.readFields catalog)
    else .taggedUnion r.discriminator (r.variants.map fun v => .naming v.tag v.name)

def recordSteps : List LoadStep :=
  r.associations.flatMap (·.readSteps catalog scope r) ++
    (r.variants.map fun v => .register scope (r.variantType catalog v)) ++
    [.register scope (r.recordType catalog)]

/-- The forms come first, then the variants, then the record. -/
theorem follows_registerRecord :
    Follows (r.registerRecord catalog scope) (r.recordSteps catalog scope) () := by
  have associations : Follows (r.associations.mapM (r.readAssociation catalog scope))
      (r.associations.flatMap (·.readSteps catalog scope r))
      (r.associations.map fun a => (a.readTarget? catalog).map a.readField) :=
    .mapM fun a _ => follows_readAssociation catalog scope r a
  have fields : (r.attributes.map fun a => field a.name a.readDefinition) ++
      (r.associations.map fun a => (a.readTarget? catalog).map a.readField).filterMap id =
        r.readFields catalog := by
    rw [readFields, List.filterMap_map]
    rfl
  rw [registerRecord, recordSteps, List.append_assoc, recordType]
  refine associations.bind ?_
  simp only [fields]
  split
  · rename_i none
    rw [List.isEmpty_iff.mp none]
    exact .register _ _ _
  · apply Follows.bind
    · exact follows_named scope (·.tag) (r.variantType catalog) r.variants
    · exact .register scope r.name _

/-! ### Payloads -/

end Resource

namespace Association

variable (catalog : Catalog) (r : Resource) (context : WriteContext) (a : Association)

def tagFields (resources : Keyed String) (targets : List (String × Resource)) (optional : Bool) :
    List Field :=
  let id := match targets with
    | (_, target) :: _ => target.idDefinition
    | [] => .scalar .integer
  let tag := Definition.enumeration resources.keys
  [field (a.name ++ "_id") { id with nullable := a.nullable, optional },
    field (a.name ++ "_" ++ a.discriminator) { tag with nullable := a.nullable, optional }]

def idField (target : Resource) (optional : Bool) : Field :=
  if a.cardinality = .many then
    field (Noun.singular a.name ++ "_ids")
      { Definition.arrayOf target.idDefinition with optional }
  else field (a.name ++ "_id") { target.idDefinition with nullable := a.nullable, optional }

def recordField (target : Resource) (optional : Bool) : Field :=
  let d := if a.cardinality = .many then
      Definition.arrayOf (.reference target.nestedOperationName)
    else
      let payload := match context with
        | .create => target.createPayloadName
        | .update => target.updatePayloadName
      { Definition.reference payload with nullable := a.nullable }
  field a.name { d with optional }

def writtenTagged (resources : Keyed String) (optional : Bool) :
    Except ConfigurationError (List Field) :=
  if a.nested then .error (.nestedWritesUnsupported r.name a.name "polymorphic")
  else match catalog.targets? a with
    | none => .error (.unresolvableAssociation r.name a.name)
    | some targets => .ok (a.tagFields resources targets optional)

def writtenSingle (target : Resource) (optional : Bool) : Except ConfigurationError (List Field) :=
  if !a.nested then .ok [a.idField target optional]
  else if !target.acceptsNestedWrites then
    .error (.nestedWritesUnsupported r.name a.name target.name)
  else .ok [a.recordField context target optional]

def written : Except ConfigurationError (List Field) :=
  let optional := context == .update || a.optional
  match a.target with
  | .polymorphic resources => a.writtenTagged catalog r resources optional
  | _ =>
    match catalog.target? a with
    | none => .error (.unresolvableAssociation r.name a.name)
    | some target => a.writtenSingle r context target optional

end Association

namespace Resource

variable (catalog : Catalog) (scope : Scope) (r : Resource) (context : WriteContext)

theorem writeSingle_eq (a : Association) (target : Resource) (optional : Bool) :
    r.writeSingle a target context optional =
      .ofExcept (a.writtenSingle r context target optional) [] := by
  rw [writeSingle.eq_def, Association.writtenSingle]
  split
  · rw [Association.idField]
    split <;> rfl
  · split <;> rfl

/-- Writing an association registers nothing. -/
theorem writeAssociation_eq (a : Association) :
    r.writeAssociation catalog context a = .ofExcept (a.written catalog r context) [] := by
  rw [writeAssociation, Association.written]
  cases a.target with
  | polymorphic resources =>
    simp only [writePolymorphic, Association.writtenTagged]
    split
    · rfl
    · cases catalog.targets? a <;> rfl
  | direct _ | variants _ _ =>
    cases catalog.target? a with
    | none => rfl
    | some target => exact writeSingle_eq r context a target _

theorem follows_writeAssociation (a : Association) :
    Follows (r.writeAssociation catalog context a) (LoadStep.ofExcept (a.written catalog r context))
      ((a.written catalog r context).toOption.getD []) := by
  rw [writeAssociation_eq]
  exact .ofExcept _ []

def writtenAssociations : List Association :=
  r.associations.filter fun a => a.writable.allows context

def writtenFields : List Field :=
  ((r.attributes.filter fun a => a.writable.allows context).map fun a =>
    field a.name (a.writeDefinition context)) ++
  (r.writtenAssociations context).flatMap fun a =>
    (a.written catalog r context).toOption.getD []

def writeSteps : List LoadStep :=
  (r.writtenAssociations context).flatMap fun a => LoadStep.ofExcept (a.written catalog r context)

/-- An association that cannot be written is reported, and the others are written. -/
theorem follows_writeFields :
    Follows (r.writeFields catalog context) (r.writeSteps catalog context)
      (r.writtenFields catalog context) := by
  have associated : Follows ((r.writtenAssociations context).mapM
      (r.writeAssociation catalog context)) (r.writeSteps catalog context)
      ((r.writtenAssociations context).map fun a =>
        (a.written catalog r context).toOption.getD []) :=
    .mapM fun a _ => follows_writeAssociation catalog r context a
  rw [writtenFields, List.flatMap_def]
  exact associated.map _

def payloadName : String :=
  match context with
  | .create => r.createPayloadName
  | .update => r.updatePayloadName

def payloadType : NamedType where
  name := r.payloadName context
  definition := .object (r.writtenFields catalog context)

def payloadSteps : List LoadStep :=
  [.create, .update].flatMap fun context =>
    r.writeSteps catalog context ++ [.register scope (r.payloadType catalog context)]

theorem follows_registerPayloads :
    Follows (r.registerPayloads catalog scope) (r.payloadSteps catalog scope) () := by
  simp only [payloadSteps, List.flatMap_cons, List.flatMap_nil, List.append_nil, List.append_assoc]
  exact (follows_writeFields catalog r .create).bind <| (Follows.register _ _ _).bind <|
    (follows_writeFields catalog r .update).bind (.register _ _ _)

def nestedOperationType : NamedType where
  name := r.nestedOperationName
  definition :=
    let operation (tag : String) := field operationKey (.literal (.string tag))
    let id := field "id" r.idDefinition
    let variant (tag : String) (fields : List Field) : Variant :=
      { tag := some tag, definition := .object fields }
    let others (context : WriteContext) := (r.writtenFields catalog context).filter (·.name != "id")
    .taggedUnion operationKey [variant "create" (operation "create" :: others .create),
      variant "update" (operation "update" :: id :: others .update),
      variant "delete" [operation "delete", id]]

def nestedOperationSteps : List LoadStep :=
  r.writeSteps catalog .create ++ r.writeSteps catalog .update ++
    [.register scope (r.nestedOperationType catalog)]

theorem follows_registerNestedOperation :
    Follows (r.registerNestedOperation catalog scope)
      (r.nestedOperationSteps catalog scope) () := by
  rw [nestedOperationSteps, List.append_assoc]
  exact (follows_writeFields catalog r .create).bind <|
    (follows_writeFields catalog r .update).bind (.register _ _ _)

/-! ### Filters, orders and responses -/

def filterable : List Attribute := r.attributes.filter (·.filterable)

def filterType : NamedType where
  name := r.filterName
  definition :=
    let this := Definition.reference r.filterName
    .object ((r.filterable.map fun a => field a.name a.filterDefinition) ++
      [field "and" (Definition.arrayOf this).orAbsent,
        field "or" (Definition.arrayOf this).orAbsent, field "not" this.orAbsent])

def filterSteps : List LoadStep :=
  if r.filterable.isEmpty then [] else [.reserveAndDefine scope r.filterType]

theorem follows_registerFilter : Follows (r.registerFilter scope) (r.filterSteps scope) () := by
  rw [registerFilter, filterSteps, filterable]
  split
  · exact .pure ()
  · exact .reserveAndDefine scope r.filterType

def sortable : List String := sorted ((r.attributes.filter (·.sortable)).map Attribute.name)

def sortDirectionType : NamedType where
  name := sortDirectionName
  definition := .enumeration ["asc", "desc"]

def sortFieldType : NamedType where
  name := r.sortFieldName
  definition := .enumeration r.sortable

def sortType : NamedType where
  name := r.sortName
  definition := .object [field "field" (.reference r.sortFieldName),
    field "direction" (Definition.reference sortDirectionName).orAbsent]

def sortSteps : List LoadStep :=
  if r.sortable.isEmpty then []
  else [.register .global sortDirectionType, .register scope r.sortFieldType,
    .register scope r.sortType]

theorem follows_registerSort : Follows (r.registerSort scope) (r.sortSteps scope) () := by
  rw [registerSort, sortSteps, sortable]
  split
  · exact .pure ()
  · exact (Follows.register _ _ _).bind <| (Follows.register _ _ _).bind <| .register _ _ _

def paginationMetaType : NamedType where
  name := paginationMetaName
  definition := paginationMeta

def responseType : NamedType where
  name := r.responseName
  definition := .object [field r.rootKey.singular (.reference r.name)]

def collectionResponseType : NamedType where
  name := r.collectionResponseName
  definition := .object [field r.rootKey.plural (.arrayOf (.reference r.name)),
    field "meta" (.reference paginationMetaName)]

def responseSteps : List LoadStep :=
  [.register .global paginationMetaType, .register scope r.responseType,
    .register scope r.collectionResponseType]

theorem follows_registerResponses :
    Follows (r.registerResponses scope) (r.responseSteps scope) () :=
  (Follows.register _ _ _).bind <| (Follows.register _ _ _).bind <| .register _ _ _

/-! ### Resources and catalogs -/

def typeSteps : List LoadStep :=
  r.recordSteps catalog scope ++ r.payloadSteps catalog scope ++
    (if r.acceptsNestedWrites then r.nestedOperationSteps catalog scope else []) ++
    r.filterSteps scope ++ r.sortSteps scope ++ r.responseSteps scope

/-- A type is derived from a resource and registered in a scope. -/
inductive Derives : Scope → NamedType → Prop where
  | form {a : Association} {t : NamedType} (ha : a ∈ r.associations) (ht : t ∈ a.forms catalog) :
    Derives scope t
  | variant {v : ResourceVariant} (hv : v ∈ r.variants) : Derives scope (r.variantType catalog v)
  | record : Derives scope (r.recordType catalog)
  | payload (context : WriteContext) : Derives scope (r.payloadType catalog context)
  | nestedOperation (accepts : r.acceptsNestedWrites = true) :
    Derives scope (r.nestedOperationType catalog)
  | filter (nonempty : r.filterable ≠ []) : Derives scope r.filterType
  | sortDirection (nonempty : r.sortable ≠ []) : Derives .global sortDirectionType
  | sortField (nonempty : r.sortable ≠ []) : Derives scope r.sortFieldType
  | sort (nonempty : r.sortable ≠ []) : Derives scope r.sortType
  | paginationMeta : Derives .global paginationMetaType
  | response : Derives scope r.responseType
  | collectionResponse : Derives scope r.collectionResponseType

/-- The types that reading registers are the forms. -/
theorem types_readSteps (a : Association) :
    LoadStep.types (a.readSteps catalog scope r) = (a.forms catalog).map fun t => (scope, t) := by
  rw [Association.readSteps]
  cases h : a.readTarget? catalog with
  | some d => exact LoadStep.types_map_register scope _
  | none =>
    have lost : catalog.targets? a = none := by
      rw [Association.readTarget?] at h
      rw [Catalog.targets?]
      cases ht : a.target with
      | polymorphic resources => simpa [ht, Catalog.targets?] using h
      | direct _ | variants _ _ => rfl
    rw [Association.forms, lost]
    rfl

@[simp] theorem types_writeSteps (context : WriteContext) :
    LoadStep.types (r.writeSteps catalog context) = [] := by
  simp [writeSteps]

/-- All forms, all variants and the record are registered. -/
theorem types_recordSteps : LoadStep.types (r.recordSteps catalog scope) =
    (r.associations.flatMap (·.forms catalog) ++ r.variants.map (r.variantType catalog) ++
      [r.recordType catalog]).map fun t => (scope, t) := by
  have variants : (r.variants.map fun v => LoadStep.register scope (r.variantType catalog v)) =
      (r.variants.map (r.variantType catalog)).map (.register scope) := by
    rw [List.map_map]
    rfl
  rw [recordSteps, LoadStep.types_append, LoadStep.types_append, variants,
    LoadStep.types_map_register, LoadStep.types_flatMap]
  simp only [types_readSteps, List.map_append, List.map_flatMap, LoadStep.types_register,
    LoadStep.types_nil, List.map_cons, List.map_nil]

/-- The operation is registered only where writes may be nested, the filter only where something
can be filtered. -/
theorem types_typeSteps : LoadStep.types (r.typeSteps catalog scope) =
    LoadStep.types (r.recordSteps catalog scope) ++
      [(scope, r.payloadType catalog .create), (scope, r.payloadType catalog .update)] ++
      (if r.acceptsNestedWrites then [(scope, r.nestedOperationType catalog)] else []) ++
      (if r.filterable.isEmpty then [] else [(scope, r.filterType)]) ++
      (if r.sortable.isEmpty then [] else [(.global, sortDirectionType),
        (scope, r.sortFieldType), (scope, r.sortType)]) ++
      [(.global, paginationMetaType), (scope, r.responseType),
        (scope, r.collectionResponseType)] := by
  simp [typeSteps, payloadSteps, nestedOperationSteps, filterSteps, sortSteps, responseSteps,
    apply_ite LoadStep.types]

/-- The types that are registered for a resource are those derived from it. -/
theorem mem_types_iff (s : Scope) (t : NamedType) :
    (s, t) ∈ LoadStep.types (r.typeSteps catalog scope) ↔ r.Derives catalog scope s t := by
  rw [types_typeSteps, types_recordSteps]
  constructor
  · intro h
    simp only [List.append_assoc, List.map_append, List.map_map, List.map_cons, List.map_nil,
      List.cons_append, List.nil_append, List.isEmpty_iff, List.mem_append, List.mem_map,
      List.mem_flatMap, Prod.mk.injEq, exists_eq_right_right, Function.comp_apply, List.mem_cons,
      List.mem_ite_nil_right, List.not_mem_nil, or_false, List.mem_ite_nil_left] at h
    rcases h with ⟨⟨a, ha, ht⟩, rfl⟩ | ⟨v, hv, rfl, rfl⟩ | ⟨rfl, rfl⟩ | ⟨rfl, rfl⟩ | ⟨rfl, rfl⟩ |
      ⟨accepts, rfl, rfl⟩ | ⟨nonempty, rfl, rfl⟩ |
      ⟨nonempty, ⟨rfl, rfl⟩ | ⟨rfl, rfl⟩ | ⟨rfl, rfl⟩⟩ | ⟨rfl, rfl⟩ | ⟨rfl, rfl⟩ | ⟨rfl, rfl⟩
    · exact .form ha ht
    · exact .variant hv
    · exact .record
    · exact .payload .create
    · exact .payload .update
    · exact .nestedOperation accepts
    · exact .filter nonempty
    · exact .sortDirection nonempty
    · exact .sortField nonempty
    · exact .sort nonempty
    · exact .paginationMeta
    · exact .response
    · exact .collectionResponse
  · intro h
    cases h with
    | form ha ht =>
      have form : ∃ a, a ∈ r.associations ∧ t ∈ a.forms catalog := ⟨_, ha, ht⟩
      simp [form]
    | @variant v hv =>
      have variant : ∃ w, w ∈ r.variants ∧ r.variantType catalog w = r.variantType catalog v :=
        ⟨v, hv, rfl⟩
      simp [variant]
    | payload context => cases context <;> simp
    | _ => simp_all

/-- Registering a resource takes the steps of its types. -/
theorem follows_registerTypes :
    Follows (r.registerTypes catalog scope) (r.typeSteps catalog scope) () := by
  rw [registerTypes]
  simp only [typeSteps, List.append_assoc]
  refine (follows_registerRecord catalog scope r).bind <|
    (follows_registerPayloads catalog scope r).bind ?_
  have rest : Follows (do
      r.registerFilter scope
      r.registerSort scope
      r.registerResponses scope)
      (r.filterSteps scope ++ (r.sortSteps scope ++ r.responseSteps scope)) () :=
    (follows_registerFilter scope r).bind <|
      (follows_registerSort scope r).bind (follows_registerResponses scope r)
  split
  · exact (follows_registerNestedOperation catalog scope r).bind rest
  · exact rest

end Resource

/-- A type is derived from a resource of a catalog and registered in a scope. -/
def Catalog.Derives (catalog : Catalog) (scope s : Scope) (t : NamedType) : Prop :=
  ∃ r ∈ Keyed.values catalog, r.Derives catalog scope s t

/-- The steps by which the types derived from every resource are registered. -/
def Catalog.steps (catalog : Catalog) (scope : Scope) : List LoadStep :=
  (Keyed.values catalog).flatMap (·.typeSteps catalog scope)

theorem Catalog.mem_types_iff (catalog : Catalog) (scope s : Scope) (t : NamedType) :
    (s, t) ∈ LoadStep.types (catalog.steps scope) ↔ catalog.Derives scope s t := by
  rw [steps, LoadStep.types_flatMap, List.mem_flatMap]
  exact exists_congr fun r => and_congr_right fun _ => Resource.mem_types_iff catalog scope r s t

theorem Catalog.follows_registerAll (catalog : Catalog) (scope : Scope) :
    Follows (catalog.registerAll scope) (catalog.steps scope) () :=
  .forM fun r _ => Resource.follows_registerTypes catalog scope r

/-- Loading a catalog again, into the registry that the first time left, succeeds or fails with the
same error and leaves the registry as it is. Bounds are finite, so that definitions equal themselves;
with one that is no number a type would conflict with itself. -/
theorem registerAll_again (catalog : Catalog) (scope : Scope) (policy : ErrorPolicy)
    (r : Registry) :
    (catalog.registerAll scope).runOn policy ((catalog.registerAll scope).runOn policy r).2 =
      (catalog.registerAll scope).runOn policy r :=
  (catalog.follows_registerAll scope).again policy r

end ApiContract
