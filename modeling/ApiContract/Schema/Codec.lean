import ApiContract.Schema.Definition

/-!
# Definitions as JSON

A definition is an object with its kind under `type`, the members of that kind, and its modifiers.
Fields, variants and named types put their own members beside those. Writing leaves out what is not
set; reading passes over members it does not know.
-/

namespace ApiContract

namespace Allowed

def toJson : Allowed → Json
  | inline values => .strings values
  | named type => .string type

def ofJson? : Json → Option Allowed
  | .string type => some (named type)
  | j => j.strings?.map inline

end Allowed

namespace Documentation

def members (d : Documentation) : List (String × Json) :=
  Json.present "description" (d.description.map .string) ++
    Json.present "example" d.example? ++ Json.flagged "deprecated" d.deprecated

def ofMembers? (ms : Keyed Json) : Option Documentation := do
  return { description := ← Json.optional ms "description" Json.string?
           example? := ← Json.optional ms "example" Json.any?
           deprecated := ← Json.defaulted ms "deprecated" false Json.bool? }

end Documentation

/-- The members of a definition that do not depend on its kind. -/
def Definition.modifierMembers (d : Definition) : List (String × Json) :=
  Json.flagged "nullable" d.nullable ++ Json.flagged "optional" d.optional ++
    Json.present "format" (d.format.map StringFormat.toJson) ++
    Json.present "min" (d.min.map Json.float) ++ Json.present "max" (d.max.map Json.float) ++
    Json.present "enum" (d.allowed.map Allowed.toJson) ++ Json.present "default" d.default? ++
    Json.present "decode" (d.decode.map .string) ++
    Json.present "encode" (d.encode.map .string) ++ d.docs.members

def Field.ownMembers (name : String) (rename : Option String) : List (String × Json) :=
  ("name", .string name) :: Json.present "rename" (rename.map .string)

mutual

def Definition.members : Definition → List (String × Json)
  | { kind, nullable, optional, format, min, max, allowed, default?, decode, encode, docs } =>
    kind.members ++
      Definition.modifierMembers
        { kind := .scalar .unknown, nullable, optional, format, min, max, allowed, default?,
          decode, encode, docs }

def Kind.members : Kind → List (String × Json)
  | .scalar kind => [("type", .string kind.name)]
  | .array items => [("type", .string "array"), ("items", items.toJson)]
  | .object shape => [("type", .string "object"), ("shape", .array (Field.listToJson shape))]
  | .union discriminator variants =>
    [("type", .string "union"), ("variants", .array (Variant.listToJson variants))] ++
      Json.present "discriminator" (discriminator.map .string)
  | .reference target => [("type", .string "reference"), ("to", .string target)]
  | .literal value => [("type", .string "literal"), ("value", value)]

def Items.toJson : Items → Json
  | .of element => .object [("of", .ofMembers element.members)]
  | .shape fields => .object [("shape", .array (Field.listToJson fields))]

def Field.listToJson : List Field → List Json
  | [] => []
  | { name, rename, definition } :: rest =>
    .ofMembers (Field.ownMembers name rename ++ definition.members) :: Field.listToJson rest

def Variant.listToJson : List Variant → List Json
  | [] => []
  | { tag, definition } :: rest =>
    .ofMembers (Json.present "tag" (tag.map .string) ++ definition.members) ::
      Variant.listToJson rest

end

def Definition.toJson (d : Definition) : Json := .ofMembers d.members

def NamedType.toJson (t : NamedType) : Json :=
  .ofMembers (("name", .string t.name) :: t.definition.members)

/-- The members of a definition that hold definitions themselves: absent, or read with or without
success. -/
structure NestedMembers where
  items : Option (Option Items) := none
  shape : Option (Option (List Field)) := none
  variants : Option (Option (List Variant)) := none

namespace Kind

/-- The kinds of definition in the order in which a number may stand for them. -/
def names : List String :=
  ScalarKind.all.map ScalarKind.name ++ ["array", "object", "union", "reference", "literal"]

def nameOf? : Json → Option String
  | .string name => some name
  | .int n => if 0 ≤ n then names[n.toNat]? else none
  | _ => none

/-- The kind that `type` and the members of that kind give. -/
def assemble? (ms : Keyed Json) (nested : NestedMembers) : Option Kind := do
  let name ← Json.required ms "type" nameOf?
  match ScalarKind.ofName? name with
  | some kind => some (scalar kind)
  | none =>
    if name = "array" then nested.items.join.map array
    else if name = "object" then nested.shape.join.map object
    else if name = "union" then
      let discriminator ← Json.optional ms "discriminator" Json.string?
      nested.variants.join.map (union discriminator)
    else if name = "reference" then (Json.required ms "to" Json.string?).map reference
    else if name = "literal" then (ms.get? "value").map literal
    else none

end Kind

def Definition.assemble? (ms : Keyed Json) (nested : NestedMembers) : Option Definition := do
  return { nullable := ← Json.defaulted ms "nullable" false Json.bool?
           optional := ← Json.defaulted ms "optional" false Json.bool?
           format := ← Json.optional ms "format" StringFormat.ofJson?
           min := ← Json.optional ms "min" Json.toBinary64?
           max := ← Json.optional ms "max" Json.toBinary64?
           allowed := ← Json.optional ms "enum" Allowed.ofJson?
           default? := ← Json.optional ms "default" Json.any?
           decode := ← Json.optional ms "decode" Json.string?
           encode := ← Json.optional ms "encode" Json.string?
           kind := ← Kind.assemble? ms nested
           docs := ← Documentation.ofMembers? ms }

mutual

def NestedMembers.read : List (String × Json) → NestedMembers
  | [] => {}
  | (key, j) :: rest =>
    let others := NestedMembers.read rest
    if key = "items" then { others with items := some (Items.ofJson? j) }
    else if key = "shape" then { others with shape := some (Field.listOfJson? j) }
    else if key = "variants" then { others with variants := some (Variant.listOfJson? j) }
    else others

def Definition.ofJson? : Json → Option Definition
  | .object ms => Definition.assemble? ms (NestedMembers.read ms)
  | _ => none

def Items.ofJson? : Json → Option Items
  | .object [(key, j)] =>
    if key = "of" then (Definition.ofJson? j).map .of
    else if key = "shape" then (Field.listOfJson? j).map .shape
    else none
  | _ => none

def Field.listOfJson? : Json → Option (List Field)
  | .array js => Field.allOfJson? js
  | _ => none

def Field.allOfJson? : List Json → Option (List Field)
  | [] => some []
  | j :: rest => do
    let field ← Field.ofJson? j
    return field :: (← Field.allOfJson? rest)

def Field.ofJson? : Json → Option Field
  | .object ms => do
    return { name := ← Json.required ms "name" Json.string?
             rename := ← Json.optional ms "rename" Json.string?
             definition := ← Definition.assemble? ms (NestedMembers.read ms) }
  | _ => none

def Variant.listOfJson? : Json → Option (List Variant)
  | .array js => Variant.allOfJson? js
  | _ => none

def Variant.allOfJson? : List Json → Option (List Variant)
  | [] => some []
  | j :: rest => do
    let variant ← Variant.ofJson? j
    return variant :: (← Variant.allOfJson? rest)

def Variant.ofJson? : Json → Option Variant
  | .object ms => do
    return { tag := ← Json.optional ms "tag" Json.string?
             definition := ← Definition.assemble? ms (NestedMembers.read ms) }
  | _ => none

end

def Field.toJson (f : Field) : Json :=
  .ofMembers (Field.ownMembers f.name f.rename ++ f.definition.members)

def Variant.toJson (v : Variant) : Json :=
  .ofMembers (Json.present "tag" (v.tag.map .string) ++ v.definition.members)

def NamedType.ofJson? (j : Json) : Option NamedType := do
  let ms ← j.object?
  return { name := ← Json.required ms "name" Json.string?
           definition := ← Definition.ofJson? j }

namespace Definition

/-- Equal as values; definitions are what they are written as. -/
def sameValue (d e : Definition) : Bool := d.toJson.sameValue e.toJson

theorem sameValue_refl (d : Definition) : d.sameValue d = true := Json.sameValue_refl d.toJson

end Definition

end ApiContract
