import ApiContract.Payload.Exchange

/-!
# Where walks break off

Reading a text as a datetime can break off, and what needs the text breaks off with it. The texts
that a walk reads as datetimes are listed here in the order of the walk, which is followed as in
validation and conversion; the walk breaks off if one of them cannot be read through.
-/

namespace ApiContract

/-- The texts that a walk over a value reads as datetimes. -/
abbrev TextsRead := Definition → Json → List String

/-- What a test or a conversion to a kind reads as a datetime. -/
def ScalarKind.datetimesIn (kind : ScalarKind) (j : Json) : List String :=
  if kind = .datetime then j.string?.toList else []

/-- What a test of the format reads as a datetime. -/
def StringFormat.datetimesIn (format : StringFormat) (s : String) : List String :=
  if format = .datetime then [s] else []

/-- Whether a conversion to the kind breaks off. -/
def ScalarKind.coercionBreaksOff (kind : ScalarKind) (j : Json) : Bool :=
  (kind.datetimesIn j).any breaksOff

/-- Whether a test of the format breaks off. -/
def StringFormat.testBreaksOff (format : StringFormat) (s : String) : Bool :=
  (format.datetimesIn s).any breaksOff

/-- What the member under each field's key has to be read for. -/
def membersRead (case : KeyCase) (next : TextsRead) (shape : List Field) : Json → List String
  | .object members => shape.flatMap fun f =>
      ((Keyed.get? members (f.wireName case)).map (next f.definition)).getD []
  | _ => []

def elementsRead (next : Json → List String) : Json → List String
  | .array elements => elements.flatMap next
  | _ => []

namespace Validation

def scalarRead (d : Definition) (kind : ScalarKind) (j : Json) : List String :=
  kind.datetimesIn j ++
    if hasKind kind j then
      match d.format, j.string? with
      | some format, some s => format.datetimesIn s
      | _, _ => []
    else []

/-- Variants are tried up to the first that finds nothing wrong. -/
def variantsRead (judge : Judge) (next : TextsRead) (j : Json) : List Variant → List String
  | [] => []
  | variant :: rest =>
    next variant.definition j ++
      if (judge [] variant.definition j).issues.isEmpty then [] else variantsRead judge next j rest

def stepRead (c : Context) (judge : Judge) (next afterNext : TextsRead) : TextsRead := fun d j =>
  if j.isNull && (takesNull d || !defersNull d) then []
  else match d.kind with
    | .reference target =>
      match c.view.definition? target with
      | some definition => next definition j
      | none => []
    | .object shape => membersRead c.case next shape j
    | .array (.of element) => elementsRead (next element) j
    | .array (.shape fields) => elementsRead (membersRead c.case afterNext fields) j
    | .union (some key) variants =>
      match Variant.chosenBy? variants (c.case.apply key) j with
      | some variant => next variant.definition j
      | none => []
    | .union none variants => variantsRead judge next j variants
    | .literal _ => []
    | .scalar kind => scalarRead d kind j

/-- The texts that judging a value with some levels left reads as datetimes. -/
def read (c : Context) : Nat → TextsRead
  | 0 => fun _ _ => []
  | 1 => stepRead c tooDeep (fun _ _ => []) (fun _ _ => [])
  | n + 2 => stepRead c (judge c (n + 1)) (read c (n + 1)) (read c n)

theorem read_succ (c : Context) (n : Nat) :
    read c (n + 1) = stepRead c (judge c n) (read c n) (read c (n - 1)) := by
  cases n <;> rfl

theorem read_induction {P : TextsRead → Prop} (c : Context) (zero : P fun _ _ => [])
    (succ : ∀ judge next afterNext, P next → P afterNext → P (stepRead c judge next afterNext))
    (n : Nat) : P (read c n) := by
  induction n using Nat.strongRecOn with
  | ind n ih =>
    cases n with
    | zero => exact zero
    | succ n =>
      rw [read_succ]
      exact succ _ _ _ (ih n (by omega)) (ih (n - 1) (by omega))

end Validation

/-- The texts that a validation reads as datetimes. -/
def Context.readByValidate (c : Context) (d : Definition) (j : Json) : List String :=
  Validation.read c (nestingLimit + 1) d j

namespace Coercion

/-- Fields are converted one after another, so that of two with one key the second finds what the
first has made. -/
def fieldsRead (case : KeyCase) (convert : Converter) (next : TextsRead) :
    List Field → Keyed Json → List String
  | [], _ => []
  | f :: rest, members =>
    ((Keyed.get? members (f.wireName case)).map (next f.definition)).getD [] ++
      fieldsRead case convert next rest
        (Keyed.modify (f.wireName case) (convert f.definition) members)

def objectRead (case : KeyCase) (convert : Converter) (next : TextsRead) (shape : List Field) :
    Json → List String
  | .object members => fieldsRead case convert next shape members
  | _ => []

/-- Variants are tried up to the first that accepts its own conversion. -/
def variantsRead (c : Context) (convert : Converter) (next : TextsRead) (j : Json) :
    List Variant → List String
  | [] => []
  | variant :: rest =>
    let candidate := convert variant.definition j
    next variant.definition j ++ c.readByValidate variant.definition candidate ++
      if c.accepts variant.definition candidate then [] else variantsRead c convert next j rest

def unionRead (c : Context) (convert : Converter) (next : TextsRead) (variants : List Variant)
    (j : Json) : List String :=
  if (variants.any fun v => v.definition.scalarKind? == some .boolean) &&
      (ScalarKind.boolean.coerce? j).isSome then []
  else variantsRead c convert next j variants

def stepRead (c : Context) (convert afterConvert : Converter) (next afterNext : TextsRead) :
    TextsRead := fun d j =>
  if j.isNull then []
  else match d.kind with
    | .reference target =>
      match c.view.definition? target with
      | some definition => next definition j
      | none => []
    | .object shape => objectRead c.case convert next shape j
    | .array (.of element) => elementsRead (next element) j
    | .array (.shape fields) => elementsRead (objectRead c.case afterConvert afterNext fields) j
    | .union (some key) variants =>
      match Variant.chosenBy? variants (c.case.apply key) j with
      | some variant => next variant.definition j
      | none => []
    | .union none variants => unionRead c convert next variants j
    | .literal _ => []
    | .scalar kind => kind.datetimesIn j

/-- The texts that converting a value with some levels left reads as datetimes. -/
def read (c : Context) : Nat → TextsRead
  | 0 => fun _ _ => []
  | 1 => stepRead c (convert c 0) (convert c 0) (fun _ _ => []) (fun _ _ => [])
  | n + 2 => stepRead c (convert c (n + 1)) (convert c n) (read c (n + 1)) (read c n)

theorem read_succ (c : Context) (n : Nat) :
    read c (n + 1) =
      stepRead c (convert c n) (convert c (n - 1)) (read c n) (read c (n - 1)) := by
  cases n <;> rfl

theorem read_induction {P : TextsRead → Prop} (c : Context) (zero : P fun _ _ => [])
    (succ : ∀ n next afterNext, P next → P afterNext →
      P (stepRead c (convert c n) (convert c (n - 1)) next afterNext)) (n : Nat) :
    P (read c n) := by
  induction n using Nat.strongRecOn with
  | ind n ih =>
    cases n with
    | zero => exact zero
    | succ n =>
      rw [read_succ]
      exact succ n _ _ (ih n (by omega)) (ih (n - 1) (by omega))

end Coercion

/-- The texts that a conversion reads as datetimes. -/
def Context.readByCoerce (c : Context) (d : Definition) (j : Json) : List String :=
  Coercion.read c (nestingLimit + 1) d j

/-- Whether a validation breaks off. -/
def Context.validateBreaksOff (c : Context) (d : Definition) (j : Json) : Bool :=
  (c.readByValidate d j).any breaksOff

/-- Whether a conversion breaks off. -/
def Context.coerceBreaksOff (c : Context) (d : Definition) (j : Json) : Bool :=
  (c.readByCoerce d j).any breaksOff

namespace Exchange

/-- Whether a payload that comes in breaks off its conversion or its validation. -/
def processBreaksOff (x : Exchange) (direction : Direction) (d : Definition) (raw : Json) : Bool :=
  let c := x.context direction
  let extracted := if direction = .query then extractWithin c (nestingLimit + 1) d raw else raw
  c.coerceBreaksOff d extracted || c.validateBreaksOff d (c.coerce d extracted)

/-- Whether a record that goes out breaks off its conversion or its validation. -/
def recordBreaksOff (x : Exchange) (d : Definition) (record : Json) : Bool :=
  let c := x.context .responseBody
  match x.view.transform x.transformers .encode d record with
  | .error _ => false
  | .ok encoded =>
    let wire := c.toWire d encoded
    c.coerceBreaksOff d wire || c.validateBreaksOff d (c.coerce d wire)

/-- Records go out one after another up to the first that cannot. -/
def recordsBreakOff (x : Exchange) (d : Definition) (typeName : String) : List Json → Bool
  | [] => false
  | record :: rest =>
    x.recordBreaksOff d record ||
      match x.serializeRecord d typeName record with
      | .ok _ => recordsBreakOff x d typeName rest
      | .error _ => false

end Exchange

end ApiContract
