import ApiContract.Registry.Scope
import ApiContract.Schema.Flaw

/-!
# Defects of declarations

A declaration that cannot stand is reported with its cause. A policy says whether such a report
stops the work or is passed over.
-/

namespace ApiContract

/-- Why a definition is invalid. -/
inductive InvalidCause where
  | emptyName
  | flaws (found : List Flaw)
  | notAnEnum
  | endlessReferences

def InvalidCause.text : InvalidCause → String
  | emptyName => "type name is empty"
  | flaws found => String.intercalate "; " (found.map Flaw.text)
  | notAnEnum => "not an enum type"
  | endlessReferences => "reference chain does not terminate"

inductive ConfigurationError where
  | unknownType (name : String) (scope : Scope)
  /-- A type that another one mentions. -/
  | unresolvedReference (name : String) (scope : Scope) (referrer : String)
  | conflictingDefinition (name : String) (scope : Scope)
  | invalidDefinition (name : String) (cause : InvalidCause)
  | undefinedPlaceholder (name : String) (scope : Scope)
  | unresolvableAssociation (resource association : String)
  | nestedWritesUnsupported (resource association target : String)
  | unknownTransformer (name : String)

namespace ConfigurationError

def kindName : ConfigurationError → String
  | unknownType .. | unresolvedReference .. => "UnknownType"
  | conflictingDefinition .. => "ConflictingDefinition"
  | invalidDefinition .. => "InvalidDefinition"
  | undefinedPlaceholder .. => "UndefinedPlaceholder"
  | unresolvableAssociation .. => "UnresolvableAssociation"
  | nestedWritesUnsupported .. => "NestedWritesUnsupported"
  | unknownTransformer .. => "UnknownTransformer"

def message : ConfigurationError → String
  | unknownType name scope => "Unknown type `" ++ name ++ "` in scope " ++ scope.text
  | unresolvedReference name scope referrer =>
    "Unknown type `" ++ name ++ "` in scope " ++ scope.text ++ " (referenced by " ++ referrer ++ ")"
  | conflictingDefinition name scope =>
    "Conflicting redefinition of `" ++ name ++ "` in scope " ++ scope.text
  | invalidDefinition name cause => "Invalid definition for `" ++ name ++ "`: " ++ cause.text
  | undefinedPlaceholder name scope =>
    "Type `" ++ name ++ "` was reserved in scope " ++ scope.text ++ " but never defined"
  | unresolvableAssociation resource association =>
    "Cannot resolve target of association `" ++ association ++ "` on resource `" ++ resource ++ "`"
  | nestedWritesUnsupported resource association target =>
    "Association `" ++ association ++ "` on `" ++ resource ++ "` is writable but `" ++ target ++
      "` does not accept nested writes"
  | unknownTransformer name => "Unknown transformer `" ++ name ++ "`"

end ConfigurationError

/-- Why a file is not generated. -/
inductive GenerationError where
  | configuration (cause : ConfigurationError)
  /-- A schema is not read back from its own text. -/
  | unreadableSchema

/-- A reader's own complaint about a text is not repeated. -/
def GenerationError.message : GenerationError → String
  | configuration cause => cause.message
  | unreadableSchema => "Failed to render document"

/-- What becomes of a defect: it is returned, or passed over with or without a note. -/
inductive ErrorPolicy where
  | raise
  | log
  | silent
  deriving DecidableEq, Inhabited

namespace ErrorPolicy

def name : ErrorPolicy → String
  | raise => "raise"
  | log => "log"
  | silent => "silent"

def ofName? (name : String) : Option ErrorPolicy :=
  if name = "raise" then some raise
  else if name = "log" then some log
  else if name = "silent" then some silent
  else none

def ofJson? (j : Json) : Option ErrorPolicy := j.choice? >>= ofName?

end ErrorPolicy

/-- A type that can be registered: it has a name, and its definition no flaws. -/
def NamedType.check (t : NamedType) : Except ConfigurationError Unit :=
  if t.name.isEmpty then .error (.invalidDefinition t.name .emptyName)
  else
    let found := t.definition.flaws t.name
    if found.isEmpty then .ok () else .error (.invalidDefinition t.name (.flaws found))

end ApiContract
