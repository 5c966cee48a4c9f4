import ApiContract.Error
import ApiContract.Payload.Validation
import ApiContract.Text.Blank
import ApiContract.Text.Letter

/-!
# Transformers

A definition may name a transformer for values that come in and one for values that go out. They are
applied from the leaves up to data keyed by the names of the definition. A name that no transformer
has is a defect of the declarations.
-/

namespace ApiContract

abbrev Transformers := Keyed (Json → Json)

inductive Stage where
  | decode
  | encode
  deriving DecidableEq

def Stage.transformerName? (stage : Stage) (d : Definition) : Option String :=
  match stage with
  | decode => d.decode
  | encode => d.encode

namespace Transformers

/-- A function of strings that leaves other values alone. -/
def onText (f : String → String) : Json → Json
  | .string s => .string (f s)
  | j => j

def blankToNull : Json → Json
  | .string s => if (trim s).isEmpty then .null else .string s
  | j => j

def builtin : Transformers :=
  [("blank_to_null", blankToNull), ("downcase", onText lowercase), ("trim", onText trim),
    ("upcase", onText uppercase)]

def apply (ts : Transformers) (name : String) (j : Json) : Except ConfigurationError Json :=
  match ts.get? name with
  | some f => .ok (f j)
  | none => .error (.unknownTransformer name)

end Transformers

namespace Transformation

/-- A transformation of one value. -/
abbrev Transform := Definition → Json → Except ConfigurationError Json

/-- Changes the value under a key, if there is one. -/
def modifyM (key : String) (f : Json → Except ConfigurationError Json) :
    Keyed Json → Except ConfigurationError (Keyed Json)
  | [] => .ok []
  | (k, j) :: rest =>
    if k = key then do
      let j ← f j
      .ok ((k, j) :: rest)
    else do
      let rest ← modifyM key f rest
      .ok ((k, j) :: rest)

def object (transform : Transform) (shape : List Field) (j : Json) :
    Except ConfigurationError Json :=
  match j with
  | .object members => do
    let members ← shape.foldlM
      (fun members f => modifyM f.name (transform f.definition) members) members
    .ok (.object members)
  | j => .ok j

def array (transform : Json → Except ConfigurationError Json) (j : Json) :
    Except ConfigurationError Json :=
  match j with
  | .array elements => do
    let elements ← elements.mapM transform
    .ok (.array elements)
  | j => .ok j

/-- What lies below one value, transformed. -/
def inside (view : View) (next afterNext : Transform) (d : Definition) (j : Json) :
    Except ConfigurationError Json :=
  match d.kind with
  | .reference target => do
    let t ← view.resolve target
    next t.definition j
  | .object shape => object next shape j
  | .array (.of element) => array (next element) j
  | .array (.shape fields) => array (object afterNext fields) j
  | .union (some key) variants =>
    match Variant.chosenBy? variants key j with
    | some variant => next variant.definition j
    | none => .ok j
  | .union none variants =>
    let c : Context := { view, case := .preserve }
    match variants.find? fun v => c.accepts v.definition j with
    | some variant => next variant.definition j
    | none => .ok j
  | .scalar _ | .literal _ => .ok j

/-- Transforms one value after what lies below it; `null` is left alone. -/
def step (view : View) (ts : Transformers) (stage : Stage) (next afterNext : Transform) :
    Transform := fun d j =>
  if j.isNull then .ok j
  else do
    let j ← inside view next afterNext d j
    match stage.transformerName? d with
    | some name => ts.apply name j
    | none => .ok j

/-- Transforms a value with some levels left; without any it stays as it is. -/
def transform (view : View) (ts : Transformers) (stage : Stage) : Nat → Transform
  | 0 => fun _ j => .ok j
  | 1 => step view ts stage (fun _ j => .ok j) (fun _ j => .ok j)
  | n + 2 =>
    step view ts stage (transform view ts stage (n + 1)) (transform view ts stage n)

theorem transform_succ (view : View) (ts : Transformers) (stage : Stage) (n : Nat) :
    transform view ts stage (n + 1) =
      step view ts stage (transform view ts stage n) (transform view ts stage (n - 1)) := by
  cases n <;> rfl

end Transformation

/-- Applies the transformers that a definition names for one stage. -/
def View.transform (view : View) (ts : Transformers) (stage : Stage) (d : Definition) (j : Json) :
    Except ConfigurationError Json :=
  Transformation.transform view ts stage (nestingLimit + 1) d j

end ApiContract
