import ApiContract.Issue.Basic
import ApiContract.Output.Context
import ApiContract.Output.TagField
import ApiContract.Payload.Context

/-!
# OpenAPI schemas of definitions

Every registered type becomes a component; references point into the components. A value that may be
`null` has `"null"` as a second type, or `null` as an alternative where the schema names no type.
-/

namespace ApiContract.OpenApi

def version : String := "3.1.0"

/-- The pointer to a registered type. -/
def pointerTo (type : String) : Json := .string ("#/components/schemas/" ++ type)

def mention (type : String) : Keyed Json := [("$ref", pointerTo type)]

/-- A schema that only says its type. -/
def typed (type : String) : Keyed Json := [("type", .string type)]

def formatted (format : String) : Keyed Json :=
  [("format", .string format), ("type", .string "string")]

/-- A schema with bounds under two keys. -/
def bounded (lowerKey upperKey : String) (lower upper : Option Binary64) (schema : Keyed Json) :
    Keyed Json :=
  Keyed.union schema (Keyed.ofList
    (Json.present lowerKey (lower.map Binary64.toJson) ++
      Json.present upperKey (upper.map Binary64.toJson)))

/-- A member that states a format; a pattern has a key of its own. -/
def formatMember : StringFormat → String × Json
  | .pattern source => ("pattern", .string source)
  | format => ("format", .string format.name)

def ofString (format : Option StringFormat) (lower upper : Option Binary64)
    (allowed : Option Allowed) : Keyed Json :=
  match allowed with
  | some (.named type) => mention type
  | some (.inline values) =>
    [("enum", .array ((sortedNames values).map .string)), ("type", .string "string")]
  | none =>
    bounded "minLength" "maxLength" lower upper
      (Keyed.union (typed "string") (format.map formatMember).toList)

def ofScalar (kind : ScalarKind) (format : Option StringFormat) (lower upper : Option Binary64)
    (allowed : Option Allowed) : Keyed Json :=
  match kind with
  | .string => ofString format lower upper allowed
  | .integer => bounded "minimum" "maximum" lower upper (typed "integer")
  | .float | .decimal => bounded "minimum" "maximum" lower upper (typed "number")
  | .boolean => typed "boolean"
  | .date => formatted "date"
  | .datetime => formatted "date-time"
  | .time => formatted "time"
  | .uuid => formatted "uuid"
  | .unknown => []

/-- The schema with `null` as one more value. -/
def allowNull (schema : Keyed Json) : Keyed Json :=
  match Keyed.get? schema "type" with
  | some (.string type) =>
    Keyed.insert "type" (.array [.string type, .string "null"])
      (Keyed.modify "enum"
        (fun j => match j with
          | .array values => .array (values ++ [.null])
          | j => j)
        schema)
  | _ => [("oneOf", .array [.object schema, .object (typed "null")])]

/-- The members that document a schema. -/
def documentation (docs : Documentation) : List (String × Json) :=
  Json.present "description" (docs.description.map .string) ++
    Json.present "examples" (docs.example?.map fun j => .array [j]) ++
    Json.flagged "deprecated" docs.deprecated

/-- A schema with what does not depend on its kind. -/
def finish (s : OutputSettings) (nullable : Bool) (default? : Option Json) (docs : Documentation)
    (schema : Keyed Json) : Keyed Json :=
  Keyed.union (if nullable then allowNull schema else schema)
    (Keyed.ofList (Json.present "default" default? ++ if s.docs then documentation docs else []))

/-- An object out of its properties, with those that are required. No other key is allowed. -/
def ofProperties (properties : List (String × Json)) (required : List String) : Keyed Json :=
  Keyed.ofList ([("type", .string "object"), ("properties", .ofMembers properties),
    ("additionalProperties", .bool false)] ++
    if required.isEmpty then [] else [("required", .array (required.map .string))])

/-- Which tag leads to which registered type. -/
def mapping (variants : List Variant) : Keyed Json :=
  Keyed.ofList (variants.filterMap fun v => do
    return (← v.tag, pointerTo (← v.definition.target?)))

def ofUnion (case : KeyCase) (discriminator : Option String) (variants : List Variant)
    (schemas : List Json) : Keyed Json :=
  match discriminator with
  | none => [("oneOf", .array schemas)]
  | some key =>
    let targets := mapping variants
    let name := ("propertyName", Json.string (case.apply key))
    [("discriminator",
        .object (if targets.isEmpty then [name] else [("mapping", .object targets), name])),
      ("oneOf", .array schemas)]

mutual

/-- The schema of a definition. -/
def ofDefinition (s : OutputSettings) : Definition → Json
  | { kind, nullable, format, min, max, allowed, default?, docs, .. } =>
    .object (finish s nullable default? docs (ofKind s format min max allowed kind))

def ofKind (s : OutputSettings) (format : Option StringFormat) (lower upper : Option Binary64)
    (allowed : Option Allowed) : Kind → Keyed Json
  | .scalar kind => ofScalar kind format lower upper allowed
  | .array items =>
    bounded "minItems" "maxItems" lower upper
      [("items", ofItems s items), ("type", .string "array")]
  | .object shape => ofProperties (properties s shape) (required s shape)
  | .union discriminator variants =>
    ofUnion s.keyCase discriminator variants (ofVariants s variants)
  | .reference target => mention target
  | .literal value => [("const", value)]

def ofItems (s : OutputSettings) : Items → Json
  | .of element => ofDefinition s element
  | .shape fields => .object (ofProperties (properties s fields) (required s fields))

def properties (s : OutputSettings) : List Field → List (String × Json)
  | [] => []
  | { name, rename, definition } :: rest =>
    (({ name, rename, definition } : Field).wireName s.keyCase, ofDefinition s definition) ::
      properties s rest

def required (s : OutputSettings) : List Field → List String
  | [] => []
  | { name, rename, definition } :: rest =>
    if definition.optional then required s rest
    else ({ name, rename, definition } : Field).wireName s.keyCase :: required s rest

def ofVariants (s : OutputSettings) : List Variant → List Json
  | [] => []
  | { definition, .. } :: rest => ofDefinition s definition :: ofVariants s rest

end

/-- The schema of a name in dependency order. -/
def ofListing (s : OutputSettings) : Registry.Listing → Json
  | .defined t => ofDefinition s t.definition.withTags
  | .aliasOf target => .object (mention target)

/-- The document with all components. -/
def document (title apiVersion : String) (schemas : Keyed Json) : Json :=
  .ofMembers [("openapi", .string version),
    ("info", .ofMembers [("title", .string title), ("version", .string apiVersion)]),
    ("components", .ofMembers [("schemas", .object schemas)])]

end ApiContract.OpenApi
