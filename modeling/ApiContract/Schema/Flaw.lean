import ApiContract.Pattern.Reader
import ApiContract.Schema.Definition

/-!
# Flaws of a definition

A flaw is a contradiction in a definition itself, whatever is registered: crossed bounds, a pattern
that is none, two fields of one name, a union without variants or with unclear tags, a reference to
nothing. `flaws` finds them at every depth, and each says where it stands.
-/

namespace ApiContract

inductive Problem where
  | boundsCrossed (min max : Binary64)
  | invalidPattern (source : String)
  | duplicateField (name : String)
  | noVariants
  | missingTag
  | duplicateTag (tag : String)
  | emptyReference
  deriving DecidableEq

def Problem.text : Problem → String
  | boundsCrossed min max => "min " ++ min.plainText ++ " exceeds max " ++ max.plainText
  | invalidPattern source => "invalid pattern `" ++ source ++ "`"
  | duplicateField name => "duplicate field `" ++ name ++ "`"
  | noVariants => "union has no variants"
  | missingTag => "tagged variant has no tag"
  | duplicateTag tag => "duplicate tag `" ++ tag ++ "`"
  | emptyReference => "empty reference"

structure Flaw where
  place : String
  problem : Problem
  deriving DecidableEq

def Flaw.text (f : Flaw) : String := f.place ++ ": " ++ f.problem.text

namespace Definition

/-- The flaws of bounds. -/
def boundFlaws (place : String) (min max : Option Binary64) : List Flaw :=
  match min, max with
  | some min, some max => if max.lt min then [⟨place, .boundsCrossed min max⟩] else []
  | _, _ => []

/-- The flaws of a format. -/
def formatFlaws (place : String) : Option StringFormat → List Flaw
  | some (.pattern source) => if isPattern source then [] else [⟨place, .invalidPattern source⟩]
  | _ => []

/-- The flaws of a variant's tag, given the tags before it. -/
def tagFlaws (place : String) (discriminator : Option String) (seen : List String) :
    Option String → List Flaw
  | none => if discriminator.isSome then [⟨place, .missingTag⟩] else []
  | some tag =>
    if discriminator.isSome && seen.contains tag then [⟨place, .duplicateTag tag⟩] else []

end Definition

mutual

/-- The flaws of a definition that stands at a place. -/
def Definition.flaws (place : String) : Definition → List Flaw
  | { kind, format, min, max, .. } =>
    Definition.boundFlaws place min max ++ Definition.formatFlaws place format ++ kind.flaws place

def Kind.flaws (place : String) : Kind → List Flaw
  | .scalar _ | .literal _ => []
  | .array items => items.flaws (place ++ "[]")
  | .object shape => Field.listFlaws place [] shape
  | .union discriminator variants =>
    (if variants.isEmpty then [⟨place, .noVariants⟩] else []) ++
      Variant.listFlaws place discriminator 0 [] variants
  | .reference target => if target.isEmpty then [⟨place, .emptyReference⟩] else []

def Items.flaws (place : String) : Items → List Flaw
  | .of element => element.flaws place
  | .shape fields => Field.listFlaws place [] fields

/-- The flaws of fields, given the names before them. -/
def Field.listFlaws (place : String) (seen : List String) : List Field → List Flaw
  | [] => []
  | { name, definition, .. } :: rest =>
    (if seen.contains name then [⟨place, .duplicateField name⟩] else []) ++
      definition.flaws (place ++ "." ++ name) ++ Field.listFlaws place (name :: seen) rest

/-- The flaws of variants, given the index of the first and the tags before it. -/
def Variant.listFlaws (place : String) (discriminator : Option String) (index : Nat)
    (seen : List String) : List Variant → List Flaw
  | [] => []
  | { tag, definition } :: rest =>
    let here := place ++ "|" ++ toString index
    Definition.tagFlaws here discriminator seen tag ++ definition.flaws here ++
      Variant.listFlaws place discriminator (index + 1) (tag.toList ++ seen) rest

end

end ApiContract
