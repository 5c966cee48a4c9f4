import ApiContract.Registry.Basic
import ApiContract.Resource.Basic

/-!
# The types derived from resources

From the declarations of a resource follow the type of its records, the payloads that create and
update them, the operations by which a parent writes them, a filter, an order and the bodies of
responses. All are registered together. An association that cannot be followed is a defect; where
the policy passes over it, the association is left out.
-/

namespace ApiContract

/-- Work on a registry under an error policy. What was done before a defect stopped it stays. -/
abbrev Loading := ReaderT ErrorPolicy (ExceptT ConfigurationError (StateM Registry))

namespace Loading

/-- Reports a defect; where it is passed over, work goes on with a value. -/
def report {α : Type} (e : ConfigurationError) (otherwise : α) : Loading α := do
  if (← read) = .raise then throw e else return otherwise

/-- Changes the registry, or reports why that cannot be. -/
def attempt (change : Registry → Except ConfigurationError Registry) : Loading Unit := do
  match change (← get) with
  | .ok r => set r
  | .error e => report e ()

def register (scope : Scope) (name : String) (definition : Definition) : Loading Unit :=
  attempt fun r => r.register scope { name, definition }

/-- Does the work on a registry: what it leaves, and its outcome. -/
def runOn {α : Type} (work : Loading α) (policy : ErrorPolicy) (r : Registry) :
    Except ConfigurationError α × Registry :=
  Id.run (StateT.run (ExceptT.run (ReaderT.run work policy)) r)

end Loading

namespace Resource

/-- The key under which a nested operation says what it does. -/
def operationKey : String := "_op"

def paginationMetaName : String := "PaginationMeta"

def sortDirectionName : String := "SortDirection"

/-- The definition of a record's id: its attribute, or else a whole number. -/
def idDefinition (r : Resource) : Definition :=
  match r.attribute? "id" with
  | some a => { a.readDefinition with nullable := false }
  | none => .scalar .integer

def field (name : String) (definition : Definition) : Field := { name, definition }

/-! ### Reading -/

def unresolvable {α : Type} (r : Resource) (a : Association) (otherwise : α) : Loading α :=
  Loading.report (.unresolvableAssociation r.name a.name) otherwise

/-- Registers the form of each target of a polymorphic association and unites them by tag. -/
def polymorphicUnion (scope : Scope) (a : Association) (targets : List (String × Resource)) :
    Loading Definition := do
  let key := a.discriminator
  let variants ← targets.mapM fun (tag, target) => do
    let name := typeName a.name ++ target.name
    let own := (target.attributes.filter (·.name != key)).map fun attr =>
      field attr.name attr.readDefinition
    Loading.register scope name (.object (field key (.literal (.string tag)) :: own))
    return { tag := some tag, definition := Definition.reference name : Variant }
  return .taggedUnion key variants

/-- What an association points at, as it is read; none where it is left out. -/
def readTarget (catalog : Catalog) (scope : Scope) (r : Resource) (a : Association) :
    Loading (Option Definition) :=
  match a.target with
  | .polymorphic _ =>
    match catalog.targets? a with
    | some targets => some <$> polymorphicUnion scope a targets
    | none => unresolvable r a none
  | .variants _ (tag :: tags) =>
    let variants := do
      let target ← catalog.target? a
      let variants ← (tag :: tags).mapM fun tag =>
        (target.variant? tag).map fun v =>
          ({ tag := some tag, definition := .reference v.name } : Variant)
      some (Definition.taggedUnion target.discriminator variants)
    match variants with
    | some d => return some d
    | none => unresolvable r a none
  | _ =>
    match catalog.target? a with
    | some target => return some (.reference target.name)
    | none => unresolvable r a none

/-- The field of an association as it is read. -/
def readAssociation (catalog : Catalog) (scope : Scope) (r : Resource) (a : Association) :
    Loading (Option Field) := do
  let target ← readTarget catalog scope r a
  return target.map fun d =>
    let d := if a.cardinality = .many then Definition.arrayOf d
      else { d with nullable := a.nullable }
    field a.name
      { d with optional := a.optional, docs := { d.docs with description := a.description } }

def described (r : Resource) (d : Definition) : Definition :=
  { d with docs := { d.docs with description := r.description } }

/-- Registers the type of the records: an object, or a union of the variants by tag. -/
def registerRecord (catalog : Catalog) (scope : Scope) (r : Resource) : Loading Unit := do
  let associations ← r.associations.mapM (readAssociation catalog scope r)
  let fields := (r.attributes.map fun a => field a.name a.readDefinition) ++
    associations.filterMap id
  if r.variants.isEmpty then
    Loading.register scope r.name (r.described (.object fields))
  else
    let key := r.discriminator
    let variants ← r.variants.mapM fun v => do
      let own := v.attributes.map fun a => field a.name a.readDefinition
      Loading.register scope v.name
        (.object (field key (.literal (.string v.tag)) :: fields.filter (·.name != key) ++ own))
      return { tag := some v.tag, definition := Definition.reference v.name : Variant }
    Loading.register scope r.name (r.described (.taggedUnion key variants))

/-! ### Writing -/

def nestedUnsupported (r : Resource) (a : Association) (target : String) :
    Loading (List Field) :=
  Loading.report (.nestedWritesUnsupported r.name a.name target) []

/-- The fields by which a polymorphic association is written: an id and a tag. -/
def writePolymorphic (catalog : Catalog) (r : Resource) (a : Association)
    (resources : Keyed String) (optional : Bool) : Loading (List Field) :=
  if a.nested then nestedUnsupported r a "polymorphic"
  else match catalog.targets? a with
    | none => unresolvable r a []
    | some targets =>
      let id := match targets with
        | (_, target) :: _ => target.idDefinition
        | [] => .scalar .integer
      let tag := Definition.enumeration resources.keys
      return [field (a.name ++ "_id") { id with nullable := a.nullable, optional },
        field (a.name ++ "_" ++ a.discriminator) { tag with nullable := a.nullable, optional }]

/-- The fields by which an association with one target is written: ids, or whole records. -/
def writeSingle (r : Resource) (a : Association) (target : Resource) (context : WriteContext)
    (optional : Bool) : Loading (List Field) :=
  if !a.nested then
    let id := target.idDefinition
    return if a.cardinality = .many then
        [field (Noun.singular a.name ++ "_ids") { Definition.arrayOf id with optional }]
      else [field (a.name ++ "_id") { id with nullable := a.nullable, optional }]
  else if !target.acceptsNestedWrites then nestedUnsupported r a target.name
  else
    let d := if a.cardinality = .many then
        Definition.arrayOf (.reference target.nestedOperationName)
      else
        let payload := match context with
          | .create => target.createPayloadName
          | .update => target.updatePayloadName
        { Definition.reference payload with nullable := a.nullable }
    return [field a.name { d with optional }]

def writeAssociation (catalog : Catalog) (r : Resource) (context : WriteContext)
    (a : Association) : Loading (List Field) :=
  let optional := context == .update || a.optional
  match a.target with
  | .polymorphic resources => writePolymorphic catalog r a resources optional
  | _ =>
    match catalog.target? a with
    | some target => writeSingle r a target context optional
    | none => unresolvable r a []

/-- The fields a write may supply, in the order of declaration. -/
def writeFields (catalog : Catalog) (r : Resource) (context : WriteContext) :
    Loading (List Field) := do
  let own := (r.attributes.filter fun a => a.writable.allows context).map fun a =>
    field a.name (a.writeDefinition context)
  let associated ← (r.associations.filter fun a => a.writable.allows context).mapM
    (writeAssociation catalog r context)
  return own ++ associated.flatten

def registerPayloads (catalog : Catalog) (scope : Scope) (r : Resource) : Loading Unit := do
  Loading.register scope r.createPayloadName (.object (← r.writeFields catalog .create))
  Loading.register scope r.updatePayloadName (.object (← r.writeFields catalog .update))

/-- Registers the operations by which a parent writes records: a new record has no id, a changed one
needs it, a deleted one has nothing else. -/
def registerNestedOperation (catalog : Catalog) (scope : Scope) (r : Resource) :
    Loading Unit := do
  let operation (tag : String) := field operationKey (.literal (.string tag))
  let id := field "id" r.idDefinition
  let variant (tag : String) (fields : List Field) : Variant :=
    { tag := some tag, definition := .object fields }
  let create := (← r.writeFields catalog .create).filter (·.name != "id")
  let update := (← r.writeFields catalog .update).filter (·.name != "id")
  Loading.register scope r.nestedOperationName (.taggedUnion operationKey
    [variant "create" (operation "create" :: create),
      variant "update" (operation "update" :: id :: update),
      variant "delete" [operation "delete", id]])

/-! ### Finding -/

/-- Registers the filter: conditions on attributes, joined by filters of the same type. -/
def registerFilter (scope : Scope) (r : Resource) : Loading Unit := do
  let filterable := r.attributes.filter (·.filterable)
  if filterable.isEmpty then return
  let name := r.filterName
  modify fun registry => (registry.reserve scope name).1
  let this := Definition.reference name
  let conditions := filterable.map fun a => field a.name a.filterDefinition
  let definition := Definition.object (conditions ++
    [field "and" (Definition.arrayOf this).orAbsent, field "or" (Definition.arrayOf this).orAbsent,
      field "not" this.orAbsent])
  Loading.attempt fun registry => registry.define scope { name, definition }

/-- Names in increasing order; equal ones stay. -/
def insertName (name : String) : List String → List String
  | [] => [name]
  | n :: rest => if name ≤ n then name :: n :: rest else n :: insertName name rest

def sorted (names : List String) : List String := names.foldr insertName []

/-- Registers the order of a list: an attribute and a direction. -/
def registerSort (scope : Scope) (r : Resource) : Loading Unit := do
  let sortable := sorted ((r.attributes.filter (·.sortable)).map Attribute.name)
  if sortable.isEmpty then return
  Loading.register .global sortDirectionName (.enumeration ["asc", "desc"])
  Loading.register scope r.sortFieldName (.enumeration sortable)
  Loading.register scope r.sortName (.object
    [field "field" (.reference r.sortFieldName),
      field "direction" (Definition.reference sortDirectionName).orAbsent])

/-! ### Responses -/

/-- A whole number that is at least `least`. -/
def atLeast (least : Nat) : Definition :=
  { Definition.scalar .integer with min := Binary64.ofInt? least }

/-- What is said about one page of a list. -/
def paginationMeta : Definition :=
  .object [field "current_page" (atLeast 1), field "next_page" (atLeast 1).orNull,
    field "prev_page" (atLeast 1).orNull, field "total_pages" (atLeast 0),
    field "total_count" (atLeast 0)]

def registerResponses (scope : Scope) (r : Resource) : Loading Unit := do
  Loading.register .global paginationMetaName paginationMeta
  let record := Definition.reference r.name
  Loading.register scope r.responseName (.object [field r.rootKey.singular record])
  Loading.register scope r.collectionResponseName (.object
    [field r.rootKey.plural (.arrayOf record), field "meta" (.reference paginationMetaName)])

/-- Registers all types derived from a resource. -/
def registerTypes (catalog : Catalog) (scope : Scope) (r : Resource) : Loading Unit := do
  r.registerRecord catalog scope
  r.registerPayloads catalog scope
  if r.acceptsNestedWrites then r.registerNestedOperation catalog scope
  r.registerFilter scope
  r.registerSort scope
  r.registerResponses scope

end Resource

/-- Registers the types derived from every resource, in the order of their names. -/
def Catalog.registerAll (catalog : Catalog) (scope : Scope) : Loading Unit :=
  (Keyed.values catalog).forM fun r => r.registerTypes catalog scope

end ApiContract
