import ApiContract.Output.Context
import ApiContract.Output.SchemaExpr
import ApiContract.Output.TypeScript

/-!
# Zod schemas of definitions

A type mentions the schemas declared before its own directly and every other one, its own included,
through a deferred look-up. A tagged union looks its alternative up by tag when every alternative is
known to be an object; otherwise the alternatives are tried in order.
-/

namespace ApiContract

namespace SchemaExpr

/-- A mention of a type in the schema of `current`. -/
def mention (c : OutputContext) (current name : String) : SchemaExpr :=
  if name != current && c.isEmitted name then declared name else deferred name

def ofStrings (values : List String) : SchemaExpr :=
  match sortedNames values with
  | [] => never
  | sorted => enumeration sorted

/-- The schema of a scalar definition, but for `null`. -/
def ofScalar (c : OutputContext) (current : String) (kind : ScalarKind)
    (format : Option StringFormat) (lower upper : Option Binary64) (allowed : Option Allowed) :
    SchemaExpr :=
  let bounds := SchemaCheck.bounds lower upper
  match kind, allowed with
  | .string, some (.inline values) => ofStrings values
  | .string, some (.named type) => mention c current type
  | .string, none => string ((format.map SchemaCheck.format).toList ++ bounds)
  | .integer, _ => number (.whole :: bounds)
  | .float, _ | .decimal, _ => number bounds
  | .boolean, _ => boolean
  | .date, _ => string [.format .date]
  | .datetime, _ => string [.format .datetime]
  | .time, _ => string [.time]
  | .uuid, _ => string [.format .uuid]
  | .unknown, _ => unknown

/-- Whether a variant is known to be an object that is not `null`. -/
def isObjectVariant (c : OutputContext) (current : String) (v : Variant) : Bool :=
  !v.definition.nullable &&
    match v.definition.kind with
    | .object _ => true
    | .reference target => target != current && c.isEmitted target && c.isObject target
    | _ => false

/-- The schema of a union out of those of its variants. -/
def ofUnion (c : OutputContext) (current : String) (discriminator : Option String)
    (variants : List Variant) (schemas : List SchemaExpr) : SchemaExpr :=
  let untagged := match schemas with
    | [] => never
    | [schema] => schema
    | _ => oneOf schemas
  match discriminator with
  | some key =>
    if !schemas.isEmpty && variants.all (isObjectVariant c current) then
      byTag (c.settings.keyCase.apply key) schemas
    else untagged
  | none => untagged

def withNull (nullable : Bool) (e : SchemaExpr) : SchemaExpr := if nullable then orNull e else e

mutual

/-- The schema of a definition inside the schema of `current`. -/
def ofDefinition (c : OutputContext) (current : String) : Definition → SchemaExpr
  | { kind, nullable, format, min, max, allowed, .. } =>
    withNull nullable (ofKind c current format min max allowed kind)

def ofKind (c : OutputContext) (current : String) (format : Option StringFormat)
    (lower upper : Option Binary64) (allowed : Option Allowed) : Kind → SchemaExpr
  | .scalar kind => ofScalar c current kind format lower upper allowed
  | .array items => array (ofItems c current items) (SchemaCheck.bounds lower upper)
  | .object shape => object (ofFields c current shape)
  | .union discriminator variants =>
    ofUnion c current discriminator variants (ofVariants c current variants)
  | .reference target => mention c current target
  | .literal value => literal value

def ofItems (c : OutputContext) (current : String) : Items → SchemaExpr
  | .of element => ofDefinition c current element
  | .shape fields => object (ofFields c current fields)

def ofFields (c : OutputContext) (current : String) : List Field → List SchemaMember
  | [] => []
  | { name, rename, definition } :: rest =>
    { key := ({ name, rename, definition } : Field).wireName c.settings.keyCase
      schema := ofDefinition c current definition
      optional := definition.optional
      default? := definition.default?
      description := if c.settings.docs then definition.docs.description else none } ::
      ofFields c current rest

def ofVariants (c : OutputContext) (current : String) : List Variant → List SchemaExpr
  | [] => []
  | { definition, .. } :: rest =>
    ofDefinition c current definition :: ofVariants c current rest

end

end SchemaExpr

/-- The declaration of a type's schema, and of the type itself where it is declared beside it. -/
structure SchemaDeclaration where
  name : String
  docs : Documentation := {}
  /-- A type spelled out, which then also annotates the schema. -/
  explicit : Option TypeDeclaration := none
  schema : SchemaExpr
  description : Option String := none
  /-- The right-hand side of a type declared after the schema. -/
  following : Option String := none

namespace SchemaDeclaration

/-- The schema with its description. -/
def schemaText (s : OutputSettings) (d : SchemaDeclaration) : String :=
  d.schema.text s.indentation 0 ++ SchemaExpr.describeText d.description

def text (s : OutputSettings) (d : SchemaDeclaration) : String :=
  d.docs.comment "" ++
    (d.explicit.map (TypeDeclaration.text s)).getD "" ++
    s.style.keyword ++ "const " ++ schemaIdentifier d.name ++
    (if d.explicit.isSome then ": z.ZodType<" ++ d.name ++ ">" else "") ++
    " = " ++ d.schemaText s ++ ";\n" ++
    match d.following with
    | some type => s.style.keyword ++ "type " ++ d.name ++ " = " ++ type ++ ";\n"
    | none => ""

/-- The schema of another name for a type. -/
def ofAlias (c : OutputContext) (name target : String) : SchemaDeclaration :=
  { name
    schema := .mention c name target
    following := if c.settings.inferredTypes then some target else none }

/-- The schema of a registered type. A type that takes part in a cycle is spelled out, because it
cannot be inferred through deferred look-ups. -/
def ofType (c : OutputContext) (recursive : Bool) (t : NamedType) : SchemaDeclaration :=
  let docs := t.definition.docs
  { name := t.name
    docs := if c.settings.docs then docs else {}
    explicit := if recursive then some (t.declaration c.settings) else none
    schema := .ofDefinition c t.name t.definition.withTags
    description := if c.settings.docs then docs.description else none
    following := if !recursive && c.settings.inferredTypes then
      some ("z.infer<typeof " ++ schemaIdentifier t.name ++ ">") else none }

end SchemaDeclaration

end ApiContract
