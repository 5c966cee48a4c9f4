import ApiContract.Output.TagField
import ApiContract.Output.TypeExpr
import ApiContract.Payload.Context

/-!
# Types of definitions

An object becomes an interface, everything else a type of its own. A key that may be missing is
marked with `?`, a value that may be `null` has `null` as an alternative.
-/

namespace ApiContract

namespace TypeExpr

/-- One of some strings. -/
def ofStrings (values : List String) : TypeExpr :=
  match sortedNames values with
  | [] => builtin "never"
  | sorted => oneOf (sorted.map fun v => literal (.string v))

def ofScalar (kind : ScalarKind) (allowed : Option Allowed) : TypeExpr :=
  match kind, allowed with
  | .string, some (.inline values) => ofStrings values
  | .string, some (.named type) => named type
  | .string, none | .date, _ | .datetime, _ | .time, _ | .uuid, _ => builtin "string"
  | .integer, _ | .float, _ | .decimal, _ => builtin "number"
  | .boolean, _ => builtin "boolean"
  | .unknown, _ => builtin "unknown"

def withNull (nullable : Bool) (e : TypeExpr) : TypeExpr := if nullable then orNull e else e

mutual

/-- The type of a definition's values. -/
def ofDefinition (s : OutputSettings) : Definition → TypeExpr
  | { kind, nullable, allowed, .. } => withNull nullable (ofKind s allowed kind)

def ofKind (s : OutputSettings) (allowed : Option Allowed) : Kind → TypeExpr
  | .scalar kind => ofScalar kind allowed
  | .array items => list (ofItems s items)
  | .object shape => record (ofFields s shape)
  | .union _ variants => oneOf (ofVariants s variants)
  | .reference target => named target
  | .literal value => literal value

def ofItems (s : OutputSettings) : Items → TypeExpr
  | .of element => ofDefinition s element
  | .shape fields => record (ofFields s fields)

def ofFields (s : OutputSettings) : List Field → List TypeMember
  | [] => []
  | { name, rename, definition } :: rest =>
    { docs := if s.docs then definition.docs else {}
      key := ({ name, rename, definition } : Field).wireName s.keyCase
      optional := definition.optional
      type := ofDefinition s definition } :: ofFields s rest

def ofVariants (s : OutputSettings) : List Variant → List TypeExpr
  | [] => []
  | { definition, .. } :: rest => ofDefinition s definition :: ofVariants s rest

end

end TypeExpr

/-- The declaration of a type. -/
inductive TypeDeclaration where
  | equation (name : String) (type : TypeExpr)
  | interface (name : String) (members : List TypeMember)

namespace TypeDeclaration

def text (s : OutputSettings) : TypeDeclaration → String
  | equation name type =>
    s.style.keyword ++ "type " ++ name ++ " = " ++ type.text s.indentation 0 ++ ";\n"
  | interface name members =>
    s.style.keyword ++ "interface " ++ name ++ " " ++
      (TypeExpr.record members).text s.indentation 0 ++ "\n"

def ofAlias (name target : String) : TypeDeclaration := equation name (.named target)

end TypeDeclaration

namespace NamedType

/-- The declaration of a registered type. -/
def declaration (s : OutputSettings) (t : NamedType) : TypeDeclaration :=
  match t.aliasTarget? with
  | some target => .ofAlias t.name target
  | none =>
    let d := t.definition.withTags
    match d.shape?, d.nullable with
    | some shape, false => .interface t.name (TypeExpr.ofFields s shape)
    | _, _ => .equation t.name (TypeExpr.ofDefinition s d)

end NamedType

end ApiContract
