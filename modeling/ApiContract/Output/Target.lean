import ApiContract.Json.Reread
import ApiContract.Output.OpenApi
import ApiContract.Output.Zod

/-!
# Generated files

A target writes the types a scope can see into one file, each name once and dependencies first as
far as cycles allow. Scripts are declarations under a header, in the order of the types; an OpenAPI
file is one document, made of the schemas as they are read back from their texts.
-/

namespace ApiContract

inductive Feature where
  | circularReferences
  | discriminatedUnions
  | lazyEvaluation
  | strictMode
  | runtimeValidation
  | defaultValues
  | descriptions
  | deprecation
  | examples
  deriving DecidableEq

namespace Feature

def all : List Feature :=
  [circularReferences, discriminatedUnions, lazyEvaluation, strictMode, runtimeValidation,
    defaultValues, descriptions, deprecation, examples]

def name : Feature → String
  | circularReferences => "Circular References"
  | discriminatedUnions => "Discriminated Unions"
  | lazyEvaluation => "Lazy Evaluation"
  | strictMode => "Strict Mode"
  | runtimeValidation => "Runtime Validation"
  | defaultValues => "Default Values"
  | descriptions => "Descriptions"
  | deprecation => "Deprecation"
  | examples => "Examples"

end Feature

inductive Target where
  | typescript
  | zod
  | openApi (version : String)
  deriving DecidableEq

namespace Target

def id : Target → String
  | typescript => "typescript"
  | zod => "zod"
  | openApi _ => "openapi"

def title : Target → String
  | typescript => "TypeScript Declaration Generator"
  | zod => "Zod Schema Generator"
  | openApi _ => "OpenAPI Schema Generator"

/-- What the name of a generated file ends in, after the point. -/
def extension : Target → String
  | typescript | zod => "ts"
  | openApi _ => "json"

/-- The target of a name; an OpenAPI document then describes the given version of the API. -/
def ofName? (name : String) (version : String) : Option Target :=
  if name = "typescript" ∨ name = "ts" then some typescript
  else if name = "zod" then some zod
  else if name = "openapi" then some (openApi version)
  else none

def defaultVersion : String := "1.0.0"

def supports : Target → Feature → Bool
  | typescript, .circularReferences | typescript, .discriminatedUnions | typescript, .descriptions
  | typescript, .deprecation | typescript, .examples => true
  | typescript, _ => false
  | zod, feature => feature != .examples
  | openApi _, feature => feature != .lazyEvaluation && feature != .runtimeValidation

end Target

/-- What a target writes for one type. -/
structure Generated where
  code : String
  typeName : String
  /-- The identifier under which other types mention it. -/
  identifier : String
  dependencies : List String

namespace Registry.Listing

/-- The names a type in dependency order mentions. -/
def dependencies : Listing → List String
  | .defined t => t.definition.references
  | .aliasOf target => [target]

/-- The declaration of a name, with its documentation in front. -/
def declarationText (s : OutputSettings) (name : String) : Listing → String
  | .defined t =>
    (if s.docs then t.definition.docs.comment "" else "") ++ (t.declaration s).text s
  | .aliasOf target => (TypeDeclaration.ofAlias name target).text s

/-- The declaration of the schema of a name. -/
def schemaDeclaration (c : OutputContext) (name : String) (recursive : Bool) :
    Listing → SchemaDeclaration
  | .defined t => .ofType c recursive t
  | .aliasOf target => .ofAlias c name target

end Registry.Listing

namespace Target

def generate (target : Target) (c : OutputContext) (t : Registry.OrderedType) : Generated :=
  { code := match target with
      | typescript => t.listing.declarationText c.settings t.name
      | zod => (t.listing.schemaDeclaration c t.name t.recursive).text c.settings
      | openApi _ => (OpenApi.ofListing c.settings t.listing).text
    typeName := t.name
    identifier := match target with
      | zod => schemaIdentifier t.name
      | _ => t.name
    dependencies := t.listing.dependencies }

/-- Types without those whose name an earlier one has, each with the names in front of it. -/
def once : List String → List Registry.OrderedType → List (List String × Registry.OrderedType)
  | _, [] => []
  | emitted, t :: rest =>
    if emitted.contains t.name then once emitted rest
    else (emitted, t) :: once (t.name :: emitted) rest

/-- The first line of a script. -/
def header (target : Target) (c : OutputContext) : String :=
  String.join ["// Generated by contract-rs (", target.id, ") for ", c.view.scope.text, ", locale ",
    c.settings.locale, ". Do not edit.\n"]

/-- What stands in front of the declarations of a script. -/
def preamble (target : Target) (c : OutputContext) : String :=
  target.header c ++
    match target with
    | zod => "import \x7b z \x7d from 'zod';\n\n"
    | _ => "\n"

/-- The types of a file, without those that repeat a name, each with its context. -/
def contexts (c : OutputContext) (types : List Registry.OrderedType) :
    List (OutputContext × Registry.OrderedType) :=
  (once [] types).map fun (emitted, t) => ({ c with emitted }, t)

/-- The schemas of the types, each under its name. -/
def components (c : OutputContext) (types : List Registry.OrderedType) : Keyed Json :=
  Keyed.ofList
    ((contexts c types).map fun (_, t) => (t.name, OpenApi.ofListing c.settings t.listing))

/-- The document of the types. Each schema is printed and read back on its way into it. -/
def document? (c : OutputContext) (apiVersion : String) (types : List Registry.OrderedType) :
    Option Json :=
  (Json.rereadMembers? Json.maxNesting (components c types)).map
    (OpenApi.document (c.view.scope.apiName?.getD "global") apiVersion)

def layOut (s : OutputSettings) (document : Json) : String :=
  document.indented s.indentation.unit "" ++ "\n"

/-- A whole file out of types in dependency order. -/
def assemble (target : Target) (c : OutputContext) (types : List Registry.OrderedType) :
    Except GenerationError String :=
  match target with
  | openApi apiVersion =>
    match document? c apiVersion types with
    | some document => .ok (layOut c.settings document)
    | none => .error .unreadableSchema
  | target =>
    .ok (target.preamble c ++ String.intercalate "\n"
      ((contexts c types).map fun (c, t) => (target.generate c t).code))

/-- The file of all types a scope can see. -/
def file (target : Target) (view : View) (settings : OutputSettings) :
    Except GenerationError String := do
  let types ← (view.registry.ordered view.scope).mapError .configuration
  let text ← target.assemble { settings, view } types
  .ok (settings.lineEnding.apply text)

end Target

end ApiContract
