import ApiContract.Payload.Context

/-!
# From names to wire keys

Outbound data are keyed by the names of a definition. Their keys are respelled along the definition;
keys it does not declare stay as they are.
-/

namespace ApiContract

namespace WireKeys

/-- Respells the keys of a value along the definition it is described by. -/
abbrev Rekeying := Definition → Json → Json

/-- Declared members under their wire keys, taken out of the record field by field; then whatever is
left, over them. -/
def members (case : KeyCase) (rekey : Rekeying) (shape : List Field) (record : Keyed Json) :
    Keyed Json :=
  let (rest, out) := shape.foldl
    (fun (rest, out) f =>
      match Keyed.get? rest f.name with
      | some j =>
        (Keyed.erase f.name rest, Keyed.insert (f.wireName case) (rekey f.definition j) out)
      | none => (rest, out))
    (record, ([] : Keyed Json))
  Keyed.union out rest

def object (case : KeyCase) (rekey : Rekeying) (shape : List Field) : Json → Json
  | .object record => .object (members case rekey shape record)
  | j => j

def array (rekey : Json → Json) : Json → Json
  | .array elements => .array (elements.map rekey)
  | j => j

/-- Whether a variant may describe a value, judged by their outermost kinds. -/
def fits (d : Definition) (j : Json) : Bool :=
  match d.kind, j with
  | .object _, .object _ | .reference _, .object _ | .array _, .array _ => true
  | _, _ => false

/-- Moves the tag of an object to its cased key, unless something stands there. -/
def moveTag (case : KeyCase) (key : String) : Json → Json
  | .object ms =>
    let wire := case.apply key
    if wire = key ∨ Keyed.contains ms wire then .object ms
    else match Keyed.get? ms key with
      | some tag => .object (Keyed.insert wire tag (Keyed.erase key ms))
      | none => .object ms
  | j => j

/-- Respells the keys of one value; `next` does so for values a level further down. -/
def step (c : Context) (next : Rekeying) : Rekeying := fun d j =>
  match d.kind with
  | .reference target =>
    match c.view.definition? target with
    | some definition => next definition j
    | none => j
  | .object shape => object c.case next shape j
  | .array (.of element) => array (next element) j
  | .array (.shape fields) => array (object c.case next fields) j
  | .union (some key) variants =>
    let walked := match Variant.chosenBy? variants key j with
      | some variant => next variant.definition j
      | none => j
    moveTag c.case key walked
  | .union none variants =>
    match variants.find? fun v => fits v.definition j with
    | some variant => next variant.definition j
    | none => j
  | .scalar _ | .literal _ => j

/-- Respells the keys of a value with some levels left; without any it stays as it is. -/
def rekey (c : Context) : Nat → Rekeying
  | 0 => fun _ j => j
  | n + 1 => step c (rekey c n)

end WireKeys

/-- Respells the keys of a record along a definition. -/
def Context.toWire (c : Context) (d : Definition) (j : Json) : Json :=
  WireKeys.rekey c (nestingLimit + 1) d j

end ApiContract
