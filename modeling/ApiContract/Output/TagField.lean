import ApiContract.Schema.Definition

/-!
# Tags in generated variants

A tagged variant with its fields in place need not declare the discriminator. Generated schemas do:
the tag is put in front of the fields as a literal.
-/

namespace ApiContract

/-- Puts the tag in front of an object's fields, unless they declare the discriminator. -/
def Definition.withTag (discriminator tag : String) (d : Definition) : Definition :=
  match d.kind with
  | .object shape =>
    if shape.any fun f => f.name == discriminator then d
    else
      let leading : Field := { name := discriminator, definition := .literal (.string tag) }
      { d with kind := .object (leading :: shape) }
  | _ => d

/-- The definition of a variant with its tag, if it has one. -/
def Definition.asVariant (discriminator tag : Option String) (d : Definition) : Definition :=
  match discriminator, tag with
  | some key, some tag => d.withTag key tag
  | _, _ => d

mutual

/-- Declares the discriminator in every tagged variant at every depth. -/
def Definition.withTags : Definition → Definition
  | { kind, nullable, optional, format, min, max, allowed, default?, decode, encode, docs } =>
    { kind := kind.withTags, nullable, optional, format, min, max, allowed, default?, decode,
      encode, docs }

def Kind.withTags : Kind → Kind
  | .scalar k => .scalar k
  | .array items => .array items.withTags
  | .object shape => .object (Field.listWithTags shape)
  | .union discriminator variants =>
    .union discriminator (Variant.listWithTags discriminator variants)
  | .reference target => .reference target
  | .literal value => .literal value

def Items.withTags : Items → Items
  | .of element => .of element.withTags
  | .shape fields => .shape (Field.listWithTags fields)

def Field.listWithTags : List Field → List Field
  | [] => []
  | { name, rename, definition } :: rest =>
    { name, rename, definition := definition.withTags } :: Field.listWithTags rest

def Variant.listWithTags (discriminator : Option String) : List Variant → List Variant
  | [] => []
  | { tag, definition } :: rest =>
    { tag, definition := definition.withTags.asVariant discriminator tag } ::
      Variant.listWithTags discriminator rest

end

end ApiContract
