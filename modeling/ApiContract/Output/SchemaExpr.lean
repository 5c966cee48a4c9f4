import ApiContract.Issue.Basic
import ApiContract.Output.Quoted
import ApiContract.Output.Settings
import ApiContract.Schema.Scalar

/-!
# Schema expressions

The checking schemas of generated scripts as trees, and how they are written. A schema that is
declared further up is mentioned by its identifier; any other mention is deferred.
-/

namespace ApiContract

/-- A check behind a basic schema. -/
inductive SchemaCheck where
  | whole
  | time
  | format (format : StringFormat)
  | min (bound : Binary64)
  | max (bound : Binary64)

namespace SchemaCheck

/-- A pattern between slashes; a slash inside it is escaped. -/
def patternLiteral (source : String) : String :=
  String.ofList ('/' :: source.toList.flatMap (fun c => if c = '/' then ['\\', '/'] else [c]) ++
    ['/'])

def formatText : StringFormat → String
  | .email => ".email()"
  | .uri => ".url()"
  | .uuid => ".uuid()"
  | .date => ".date()"
  | .datetime => ".datetime(\x7b offset: true \x7d)"
  | .ipv4 => ".ip(\x7b version: \"v4\" \x7d)"
  | .ipv6 => ".ip(\x7b version: \"v6\" \x7d)"
  | .pattern source => ".regex(" ++ patternLiteral source ++ ")"

def text : SchemaCheck → String
  | whole => ".int()"
  | time => ".time()"
  | format f => formatText f
  | min bound => ".min(" ++ bound.toJson.text ++ ")"
  | max bound => ".max(" ++ bound.toJson.text ++ ")"

/-- The checks of bounds: of the value of a number, of the length of anything else. -/
def bounds (lower upper : Option Binary64) : List SchemaCheck :=
  (lower.map min).toList ++ (upper.map max).toList

end SchemaCheck

mutual

inductive SchemaExpr where
  | never
  | unknown
  | boolean
  | string (checks : List SchemaCheck)
  | number (checks : List SchemaCheck)
  /-- One of some strings, at least one. -/
  | enumeration (values : List String)
  | literal (value : Json)
  | array (element : SchemaExpr) (checks : List SchemaCheck)
  /-- An object without other keys than these. -/
  | object (members : List SchemaMember)
  /-- The first alternative that matches. -/
  | oneOf (alternatives : List SchemaExpr)
  /-- The alternative whose literal stands under the key. -/
  | byTag (key : String) (alternatives : List SchemaExpr)
  /-- A schema declared further up. -/
  | declared (type : String)
  /-- A schema declared anywhere, looked up when it is used. -/
  | deferred (type : String)
  | orNull (e : SchemaExpr)

/-- A member of an object. -/
structure SchemaMember where
  key : String
  schema : SchemaExpr
  optional : Bool := false
  default? : Option Json := none
  description : Option String := none

end

/-- The identifier of a type's schema. -/
def schemaIdentifier (type : String) : String := type ++ "Schema"

namespace SchemaExpr

instance : Inhabited SchemaExpr := ⟨unknown⟩

def checksText (checks : List SchemaCheck) : String := String.join (checks.map SchemaCheck.text)

def describeText (description : Option String) : String :=
  match description with
  | some text => ".describe(" ++ Script.quote text ++ ")"
  | none => ""

mutual

/-- The text of a schema on a line some steps in. -/
def text (i : Indentation) (depth : Nat) : SchemaExpr → String
  | never => "z.never()"
  | unknown => "z.unknown()"
  | boolean => "z.boolean()"
  | string checks => "z.string()" ++ checksText checks
  | number checks => "z.number()" ++ checksText checks
  | enumeration values =>
    "z.enum([" ++ String.intercalate ", " (values.map Script.quote) ++ "])"
  | literal .null => "z.null()"
  | literal value => "z.literal(" ++ Script.literal value ++ ")"
  | array element checks => "z.array(" ++ text i depth element ++ ")" ++ checksText checks
  | object [] => "z.object(\x7b\x7d).strict()"
  | object (m :: rest) =>
    "z.object(\x7b\n" ++ String.intercalate ",\n" (memberTexts i (depth + 1) (m :: rest)) ++ "\n" ++
      i.margin depth ++ "\x7d).strict()"
  | oneOf alternatives =>
    "z.union([" ++ String.intercalate ", " (texts i depth alternatives) ++ "])"
  | byTag key alternatives =>
    "z.discriminatedUnion(" ++ Script.quote key ++ ", [" ++
      String.intercalate ", " (texts i depth alternatives) ++ "])"
  | declared type => schemaIdentifier type
  | deferred type => "z.lazy(() => " ++ schemaIdentifier type ++ ")"
  | orNull e => text i depth e ++ ".nullable()"

def texts (i : Indentation) (depth : Nat) : List SchemaExpr → List String
  | [] => []
  | e :: rest => text i depth e :: texts i depth rest

def memberTexts (i : Indentation) (depth : Nat) : List SchemaMember → List String
  | [] => []
  | { key, schema, optional, default?, description } :: rest =>
    (i.margin depth ++ Script.key key ++ ": " ++ text i depth schema ++
      (if optional then ".optional()" else "") ++
      (match default? with
        | some value => ".default(" ++ Script.literal value ++ ")"
        | none => "") ++
      describeText description) :: memberTexts i depth rest

end

end SchemaExpr

end ApiContract
