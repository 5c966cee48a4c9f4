import ApiContract.Payload.Validation
import ApiContract.Schema.ScalarCoercion

/-!
# Coercion

Coercion converts the leaves of a payload to the kinds that a definition gives them, where that can
be done, and leaves everything else as it is. As in validation, `step` treats one value and
`convert` closes the recursion over the levels that are left.
-/

namespace ApiContract

/-- A conversion of one value. -/
abbrev Converter := Definition → Json → Json

namespace Coercion

def object (case : KeyCase) (convert : Converter) (shape : List Field) : Json → Json
  | .object members =>
    .object (shape.foldl
      (fun members f => Keyed.modify (f.wireName case) (convert f.definition) members) members)
  | j => j

def array (convert : Json → Json) : Json → Json
  | .array elements => .array (elements.map convert)
  | j => j

def scalar (kind : ScalarKind) (j : Json) : Json := (kind.coerce? j).getD j

def literal (value j : Json) : Json := (value.literalKind?.bind (·.coerce? j)).getD j

/-- The first conversion by a variant that the variant then accepts. -/
def firstAccepted? (c : Context) (convert : Converter) (j : Json) : List Variant → Option Json
  | [] => none
  | variant :: rest =>
    let candidate := convert variant.definition j
    if c.accepts variant.definition candidate then some candidate
    else firstAccepted? c convert j rest

/-- A boolean where a variant is one and the value can be; else the first variant's conversion that
the variant then accepts. -/
def untaggedUnion (c : Context) (convert : Converter) (variants : List Variant) (j : Json) : Json :=
  let boolean := if variants.any fun v => v.definition.scalarKind? == some .boolean then
      ScalarKind.boolean.coerce? j
    else none
  match boolean with
  | some b => b
  | none => (firstAccepted? c convert j variants).getD j

/-- Converts one value; `next` converts values a level further down and `afterNext` two levels. -/
def step (c : Context) (next afterNext : Converter) : Converter := fun d j =>
  if j.isNull then j
  else match d.kind with
    | .reference target =>
      match c.view.definition? target with
      | some definition => next definition j
      | none => j
    | .object shape => object c.case next shape j
    | .array (.of element) => array (next element) j
    | .array (.shape fields) => array (object c.case afterNext fields) j
    | .union (some key) variants =>
      match Variant.chosenBy? variants (c.case.apply key) j with
      | some variant => next variant.definition j
      | none => j
    | .union none variants => untaggedUnion c next variants j
    | .literal value => literal value j
    | .scalar kind => scalar kind j

/-- Converts a value with some levels left; without any it stays as it is. -/
def convert (c : Context) : Nat → Converter
  | 0 => fun _ j => j
  | 1 => step c (fun _ j => j) (fun _ j => j)
  | n + 2 => step c (convert c (n + 1)) (convert c n)

theorem convert_succ (c : Context) (n : Nat) :
    convert c (n + 1) = step c (convert c n) (convert c (n - 1)) := by
  cases n <;> rfl

/-- What goes from the converters below a step to the step holds with any number of levels left. -/
theorem convert_induction {P : Converter → Prop} (c : Context) (zero : P fun _ j => j)
    (succ : ∀ next afterNext, P next → P afterNext → P (step c next afterNext)) (n : Nat) :
    P (convert c n) := by
  induction n using Nat.strongRecOn with
  | ind n ih =>
    cases n with
    | zero => exact zero
    | succ n =>
      rw [convert_succ]
      exact succ _ _ (ih n (by omega)) (ih (n - 1) (by omega))

end Coercion

/-- Converts the leaves of a payload to the kinds of a definition. -/
def Context.coerce (c : Context) (d : Definition) (j : Json) : Json :=
  Coercion.convert c (nestingLimit + 1) d j

end ApiContract
