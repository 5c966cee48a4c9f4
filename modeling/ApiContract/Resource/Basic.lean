import ApiContract.Resource.Naming
import ApiContract.Schema.Codec

/-!
# Resources

A resource is one kind of record: its attributes, its associations with other resources, and, where
its records come in several forms, a variant for each form. What a client may read and write is
derived from these declarations.
-/

namespace ApiContract

/-- The kinds of request in which a member may be written. -/
inductive WriteContext where
  | create
  | update
  deriving DecidableEq

def WriteContext.ofName? (name : String) : Option WriteContext :=
  if name = "create" then some .create else if name = "update" then some .update else none

/-- When a member may be written: always or never, or in the listed kinds of request. -/
inductive Writable where
  | flag (always : Bool)
  | on (create update : Bool)
  deriving DecidableEq

namespace Writable

def allows (w : Writable) (context : WriteContext) : Bool :=
  match w, context with
  | flag always, _ => always
  | on create _, .create => create
  | on _ update, .update => update

def isWritable : Writable → Bool
  | flag always => always
  | on create update => create || update

def ofContexts (contexts : List WriteContext) : Writable :=
  on (contexts.contains .create) (contexts.contains .update)

def toJson : Writable → Json
  | flag always => .bool always
  | on create update =>
    .object [("on", .strings ((if create then ["create"] else []) ++
      if update then ["update"] else []))]

def contexts? (j : Json) : Option (List WriteContext) :=
  j.listOf? fun j => j.choice? >>= WriteContext.ofName?

def ofJson? : Json → Option Writable
  | .bool always => some (flag always)
  | j => do
    let r ← j.recordOf? ["on"]
    (Json.required r "on" contexts?).map ofContexts

end Writable

structure Attribute where
  name : String
  definition : Definition
  writable : Writable := .flag false
  filterable : Bool := false
  sortable : Bool := false

namespace Attribute

/-- As it is read: always present, without transformers and default. -/
def readDefinition (a : Attribute) : Definition :=
  { a.definition with default? := none, decode := none, encode := none, optional := false }

/-- As it is written; an update may leave it out, and then it stays as it was. -/
def writeDefinition (a : Attribute) (context : WriteContext) : Definition :=
  let d := { a.definition with encode := none }
  if context = .update then { d with optional := true, default? := none } else d

/-- As a filter names it. -/
def filterDefinition (a : Attribute) : Definition := { a.readDefinition with optional := true }

def toJson (a : Attribute) : Json :=
  .ofMembers (("name", .string a.name) :: a.definition.members ++
    [("writable", a.writable.toJson)] ++ Json.flagged "filterable" a.filterable ++
    Json.flagged "sortable" a.sortable)

def ofJson? (j : Json) : Option Attribute := do
  let ms ← j.object?
  return { name := ← Json.required ms "name" Json.string?
           definition := ← Definition.ofJson? j
           writable := ← Json.defaulted ms "writable" (.flag false) Writable.ofJson?
           filterable := ← Json.defaulted ms "filterable" false Json.bool?
           sortable := ← Json.defaulted ms "sortable" false Json.bool? }

end Attribute

inductive Cardinality where
  | one
  | many
  | belongsTo
  deriving DecidableEq

namespace Cardinality

def name : Cardinality → String
  | one => "one"
  | many => "many"
  | belongsTo => "belongs_to"

def ofName? (name : String) : Option Cardinality :=
  if name = "one" then some one
  else if name = "many" then some many
  else if name = "belongs_to" then some belongsTo
  else none

end Cardinality

/-- What an association points at: one resource, named or found by the association's own name; one
of several resources, chosen by a tag; or some variants of one resource, all of them if none is
listed. -/
inductive AssociationTarget where
  | direct (resource : Option String)
  | polymorphic (resources : Keyed String)
  | variants (resource : String) (tags : List String)
  deriving DecidableEq

namespace AssociationTarget

def toJson : AssociationTarget → Json
  | direct resource =>
    .ofMembers (("kind", .string "direct") :: Json.present "resource" (resource.map .string))
  | polymorphic resources =>
    .ofMembers [("kind", .string "polymorphic"),
      ("resources", .object (resources.mapValues .string))]
  | variants resource tags =>
    .ofMembers ([("kind", .string "sti"), ("resource", .string resource)] ++
      if tags.isEmpty then [] else [("tags", .strings tags)])

/-- The kinds of target in the order in which a number may stand for them. -/
def kindNames : List String := ["direct", "polymorphic", "sti"]

def kindName? : Json → Option String
  | .string name => some name
  | .int n => if 0 ≤ n then kindNames[n.toNat]? else none
  | _ => none

def names? (j : Json) : Option (Keyed String) := do
  (← j.object?).mapM fun (tag, j) => (j.string?).map fun name => (tag, name)

/-- Reads a target of a kind from its further members, or from a list of them. -/
def ofKind? (kind : String) (content : Json) : Option AssociationTarget :=
  if kind = "direct" then do
    let r ← content.recordOf? ["resource"]
    (Json.optional r "resource" Json.string?).map direct
  else if kind = "polymorphic" then do
    let r ← content.recordOf? ["resources"]
    (Json.required r "resources" names?).map polymorphic
  else if kind = "sti" then do
    let r ← content.recordOf? ["resource", "tags"]
    return variants (← Json.required r "resource" Json.string?)
      (← Json.defaulted r "tags" [] Json.strings?)
  else none

def ofJson? : Json → Option AssociationTarget
  | .object ms => do ofKind? (← Json.required ms "kind" kindName?) (.object ms)
  | .array (kind :: content) => do ofKind? (← kindName? kind) (.array content)
  | _ => none

end AssociationTarget

/-- The key that tells variants apart where no other is given. -/
def defaultDiscriminator : String := "type"

structure Association where
  name : String
  cardinality : Cardinality
  target : AssociationTarget := .direct none
  writable : Writable := .flag false
  /-- Whether records are written through the association, and not their ids. -/
  nested : Bool := false
  nullable : Bool := false
  optional : Bool := false
  discriminator : String := defaultDiscriminator
  description : Option String := none
  deriving DecidableEq

namespace Association

def toJson (a : Association) : Json :=
  .ofMembers ([("name", .string a.name), ("cardinality", .string a.cardinality.name),
    ("target", a.target.toJson), ("writable", a.writable.toJson),
    ("discriminator", .string a.discriminator)] ++
    Json.flagged "nested" a.nested ++ Json.flagged "nullable" a.nullable ++
    Json.flagged "optional" a.optional ++
    Json.present "description" (a.description.map .string))

def ofJson? (j : Json) : Option Association := do
  let r ← j.recordOf? ["name", "cardinality", "target", "writable", "nested", "nullable",
    "optional", "discriminator", "description"]
  return { name := ← Json.required r "name" Json.string?
           cardinality :=
             ← Json.required r "cardinality" fun j => j.choice? >>= Cardinality.ofName?
           target := ← Json.defaulted r "target" (.direct none) AssociationTarget.ofJson?
           writable := ← Json.defaulted r "writable" (.flag false) Writable.ofJson?
           nested := ← Json.defaulted r "nested" false Json.bool?
           nullable := ← Json.defaulted r "nullable" false Json.bool?
           optional := ← Json.defaulted r "optional" false Json.bool?
           discriminator := ← Json.defaulted r "discriminator" defaultDiscriminator Json.string?
           description := ← Json.optional r "description" Json.string? }

end Association

namespace RootKey

def toJson (k : RootKey) : Json :=
  .ofMembers [("singular", .string k.singular), ("plural", .string k.plural)]

def ofJson? (j : Json) : Option RootKey := do
  let r ← j.recordOf? ["singular", "plural"]
  return { singular := ← Json.required r "singular" Json.string?
           plural := ← Json.required r "plural" Json.string? }

end RootKey

/-- One form of a resource's records: its tag, the name of its type, and its own attributes. -/
structure ResourceVariant where
  tag : String
  name : String
  attributes : List Attribute := []

namespace ResourceVariant

def toJson (v : ResourceVariant) : Json :=
  .ofMembers [("tag", .string v.tag), ("name", .string v.name),
    ("attributes", .array (v.attributes.map Attribute.toJson))]

def ofJson? (j : Json) : Option ResourceVariant := do
  let r ← j.recordOf? ["tag", "name", "attributes"]
  return { tag := ← Json.required r "tag" Json.string?
           name := ← Json.required r "name" Json.string?
           attributes := ← Json.defaulted r "attributes" [] (Json.listOf? Attribute.ofJson?) }

end ResourceVariant

structure Resource where
  name : String
  attributes : List Attribute := []
  associations : List Association := []
  rootKey? : Option RootKey := none
  acceptsNestedWrites : Bool := false
  discriminator : String := defaultDiscriminator
  variants : List ResourceVariant := []
  description : Option String := none

namespace Resource

def toJson (r : Resource) : Json :=
  .ofMembers ([("name", .string r.name),
    ("attributes", .array (r.attributes.map Attribute.toJson)),
    ("associations", .array (r.associations.map Association.toJson)),
    ("discriminator", .string r.discriminator)] ++
    Json.present "root_key" (r.rootKey?.map RootKey.toJson) ++
    Json.flagged "accepts_nested_writes" r.acceptsNestedWrites ++
    (if r.variants.isEmpty then []
      else [("variants", .array (r.variants.map ResourceVariant.toJson))]) ++
    Json.present "description" (r.description.map .string))

def ofJson? (j : Json) : Option Resource := do
  let r ← j.recordOf? ["name", "attributes", "associations", "root_key",
    "accepts_nested_writes", "discriminator", "variants", "description"]
  return { name := ← Json.required r "name" Json.string?
           attributes := ← Json.defaulted r "attributes" [] (Json.listOf? Attribute.ofJson?)
           associations := ← Json.defaulted r "associations" [] (Json.listOf? Association.ofJson?)
           rootKey? := ← Json.optional r "root_key" RootKey.ofJson?
           acceptsNestedWrites := ← Json.defaulted r "accepts_nested_writes" false Json.bool?
           discriminator := ← Json.defaulted r "discriminator" defaultDiscriminator Json.string?
           variants := ← Json.defaulted r "variants" [] (Json.listOf? ResourceVariant.ofJson?)
           description := ← Json.optional r "description" Json.string? }

/-- The root keys declared, or else those the name suggests. -/
def rootKey (r : Resource) : RootKey := r.rootKey?.getD (.ofTypeName r.name)

def attribute? (r : Resource) (name : String) : Option Attribute :=
  r.attributes.find? (·.name == name)

def variant? (r : Resource) (tag : String) : Option ResourceVariant :=
  r.variants.find? (·.tag == tag)

def createPayloadName (r : Resource) : String := r.name ++ "CreatePayload"
def updatePayloadName (r : Resource) : String := r.name ++ "UpdatePayload"
def nestedOperationName (r : Resource) : String := r.name ++ "NestedOperation"
def filterName (r : Resource) : String := r.name ++ "Filter"
def sortFieldName (r : Resource) : String := r.name ++ "SortField"
def sortName (r : Resource) : String := r.name ++ "Sort"
def responseName (r : Resource) : String := r.name ++ "Response"
def collectionResponseName (r : Resource) : String := r.name ++ "CollectionResponse"

end Resource

/-- The resources of a namespace, by name. -/
abbrev Catalog := Keyed Resource

namespace Catalog

def add (c : Catalog) (r : Resource) : Catalog := Keyed.insert r.name r c

/-- The one resource an association points at. A resource named for it wins over the one that its
own name suggests. -/
def target? (c : Catalog) (a : Association) : Option Resource :=
  match a.target with
  | .direct resource =>
    (resource >>= fun name => Keyed.get? c name) <|>
      Keyed.get? c (typeName (Noun.singular a.name))
  | .variants resource _ => Keyed.get? c resource
  | .polymorphic _ => none

/-- The resources among which the tag of an association chooses, if all can be found. -/
def targets? (c : Catalog) (a : Association) : Option (List (String × Resource)) :=
  match a.target with
  | .polymorphic resources =>
    resources.mapM fun (tag, name) => (Keyed.get? c name).map fun r => (tag, r)
  | _ => none

end Catalog

end ApiContract
