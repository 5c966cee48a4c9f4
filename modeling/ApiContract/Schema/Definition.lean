import ApiContract.Schema.Scalar

/-!
# Definitions of values

A definition describes one value: its kind, whether it may be `null`, whether its key may be
missing, its bounds, and its documentation. Named types are registered definitions; every other
definition refers to them by name.
-/

namespace ApiContract

/-- The values an enumeration allows: listed in place, or those of a registered type. -/
inductive Allowed where
  | inline (values : List String)
  | named (type : String)
  deriving DecidableEq, Inhabited

structure Documentation where
  description : Option String := none
  example? : Option Json := none
  deprecated : Bool := false
  deriving DecidableEq, Inhabited

namespace Documentation

def isEmpty (d : Documentation) : Bool :=
  d.description.isNone && d.example?.isNone && !d.deprecated

/-- What `other` says, and what `d` says where `other` is silent. -/
def merge (d other : Documentation) : Documentation :=
  { description := other.description <|> d.description
    example? := other.example? <|> d.example?
    deprecated := d.deprecated || other.deprecated }

end Documentation

mutual

structure Definition where
  kind : Kind
  nullable : Bool := false
  optional : Bool := false
  format : Option StringFormat := none
  /-- Bounds are finite, as the numbers of documents are: none is infinite and each equals itself. -/
  min : Option Binary64 := none
  max : Option Binary64 := none
  allowed : Option Allowed := none
  default? : Option Json := none
  decode : Option String := none
  encode : Option String := none
  docs : Documentation := {}

inductive Kind where
  | scalar (kind : ScalarKind)
  | array (items : Items)
  | object (shape : List Field)
  | union (discriminator : Option String) (variants : List Variant)
  | reference (target : String)
  | literal (value : Json)

/-- The elements of an array: one definition, or the fields of an object in place. -/
inductive Items where
  | of (element : Definition)
  | shape (fields : List Field)

structure Field where
  name : String
  rename : Option String := none
  definition : Definition

structure Variant where
  tag : Option String := none
  definition : Definition

end

instance : Inhabited Kind := ⟨.scalar .unknown⟩
instance : Inhabited Definition := ⟨{ kind := default }⟩
instance : Inhabited Field := ⟨{ name := default, definition := default }⟩

structure NamedType where
  name : String
  definition : Definition
  deriving Inhabited

namespace Kind

/-- The name an issue gives the kind. -/
def name : Kind → String
  | scalar kind => kind.name
  | array _ => "array"
  | object _ => "object"
  | union _ _ => "union"
  | reference _ => "reference"
  | literal _ => "literal"

def scalar? : Kind → Option ScalarKind
  | scalar kind => some kind
  | _ => none

def isReference : Kind → Bool
  | reference _ => true
  | _ => false

end Kind

namespace Definition

def scalar (kind : ScalarKind) : Definition := { kind := .scalar kind }

def object (shape : List Field) : Definition := { kind := .object shape }

def arrayOf (element : Definition) : Definition := { kind := .array (.of element) }

def arrayOfShape (fields : List Field) : Definition := { kind := .array (.shape fields) }

def reference (target : String) : Definition := { kind := .reference target }

def literal (value : Json) : Definition := { kind := .literal value }

/-- A string out of a list. -/
def enumeration (values : List String) : Definition :=
  { scalar .string with allowed := some (.inline values) }

/-- A string out of the values of a registered type. -/
def namedEnum (type : String) : Definition :=
  { scalar .string with allowed := some (.named type) }

/-- The first definition that matches decides. -/
def union (definitions : List Definition) : Definition :=
  { kind := .union none (definitions.map fun d => { definition := d }) }

/-- The member under the discriminator decides. -/
def taggedUnion (discriminator : String) (variants : List Variant) : Definition :=
  { kind := .union (some discriminator) variants }

def orNull (d : Definition) : Definition := { d with nullable := true }

def orAbsent (d : Definition) : Definition := { d with optional := true }

def describedAs (d : Definition) (text : String) : Definition :=
  { d with docs := { d.docs with description := some text } }

def withExample (d : Definition) (value : Json) : Definition :=
  { d with docs := { d.docs with example? := some value } }

def asDeprecated (d : Definition) : Definition :=
  { d with docs := { d.docs with deprecated := true } }

def scalarKind? (d : Definition) : Option ScalarKind := d.kind.scalar?

def target? (d : Definition) : Option String :=
  match d.kind with
  | .reference target => some target
  | _ => none

def shape? (d : Definition) : Option (List Field) :=
  match d.kind with
  | .object shape => some shape
  | _ => none

def inlineValues? (d : Definition) : Option (List String) :=
  match d.allowed with
  | some (.inline values) => some values
  | _ => none

/-- A string with its values listed in place. -/
def isEnum (d : Definition) : Bool :=
  match d.kind with
  | .scalar .string => d.inlineValues?.isSome
  | _ => false

/-- A reference that adds nothing of its own. -/
def isAlias (d : Definition) : Bool :=
  d.kind.isReference && !d.nullable && !d.optional && d.allowed.isNone && d.docs.isEmpty

end Definition

namespace NamedType

/-- The type that this one gives a second name to. -/
def aliasTarget? (t : NamedType) : Option String :=
  if t.definition.isAlias then t.definition.target? else none

end NamedType

mutual

/-- The registered names a definition mentions, in order of mention. -/
def Definition.mentions : Definition → List String
  | { kind, allowed, .. } =>
    (match allowed with
      | some (.named type) => [type]
      | _ => []) ++ kind.mentions

def Kind.mentions : Kind → List String
  | .scalar _ | .literal _ => []
  | .array items => items.mentions
  | .object shape => Field.listMentions shape
  | .union _ variants => Variant.listMentions variants
  | .reference target => [target]

def Items.mentions : Items → List String
  | .of element => element.mentions
  | .shape fields => Field.listMentions fields

def Field.listMentions : List Field → List String
  | [] => []
  | { definition, .. } :: rest => definition.mentions ++ Field.listMentions rest

def Variant.listMentions : List Variant → List String
  | [] => []
  | { definition, .. } :: rest => definition.mentions ++ Variant.listMentions rest

end

/-- The registered names a definition depends on, sorted and without repetition. -/
def Definition.references (d : Definition) : List String := sortedNames d.mentions

end ApiContract
