import ApiContract.Issue.Basic
import ApiContract.Payload.Context
import ApiContract.Schema.Format

/-!
# Validation

Validation compares a payload with a definition. It yields the params, with the names of the
definition for keys and with defaults filled in, and one issue for every failed expectation, in the
order of the walk. `step` says what happens at one value, given how the values one and two levels
further down are judged; `judge` closes that recursion over the levels that are left.
-/

namespace ApiContract

structure Verdict where
  params : Json
  issues : List Issue

/-- A judgement of one value that stands at a path. -/
abbrev Judge := Path → Definition → Json → Verdict

namespace Validation

def accept (params : Json) : Verdict := ⟨params, []⟩

def reject (params : Json) (i : Issue) : Verdict := ⟨params, [i]⟩

def tooDeep : Judge := fun path _ _ =>
  reject .null { code := .valueInvalid, path, detail := "is nested too deeply" }

/-- Whether a definition takes `null` whatever it refers to. -/
def takesNull (d : Definition) : Bool :=
  d.nullable ||
    match d.kind with
    | .literal .null => true
    | _ => false

/-- Whether `null` is left to the definitions that this one leads to. -/
def defersNull (d : Definition) : Bool :=
  match d.kind with
  | .reference _ | .union none _ => true
  | _ => false

/-! ### Scalars -/

def hasKind (kind : ScalarKind) (j : Json) : Bool :=
  match kind, j with
  | .string, .string _ => true
  | .integer, .int _ => true
  | .float, .int _ | .float, .float _ | .decimal, .int _ | .decimal, .float _ => true
  | .boolean, .bool _ => true
  | .date, .string s => isDate s
  | .datetime, .string s => isDatetime s
  | .time, .string s => isTime s
  | .uuid, .string s => isUuid s
  | .unknown, _ => true
  | _, _ => false

/-- The least value of a definition, if a number is below it. -/
def below? (d : Definition) (n : Option Binary64) : Option Binary64 := do
  let least ← d.min
  if (← n).lt least then some least else none

/-- The greatest value of a definition, if a number is above it. -/
def above? (d : Definition) (n : Option Binary64) : Option Binary64 := do
  let greatest ← d.max
  if greatest.lt (← n) then some greatest else none

def boundIssues (d : Definition) (n : Option Binary64) (tooSmall tooLarge : Binary64 → Issue) :
    List Issue :=
  ((below? d n).map tooSmall).toList ++ ((above? d n).map tooLarge).toList

def numberIssues (path : Path) (d : Definition) (j : Json) : List Issue :=
  boundIssues d j.toBinary64? (.numberTooSmall path) (.numberTooLarge path)

def lengthIssues (path : Path) (d : Definition) (s : String) : List Issue :=
  boundIssues d (Binary64.ofInt? s.length) (.stringTooShort path) (.stringTooLong path)

def formatIssues (path : Path) (d : Definition) (s : String) : List Issue :=
  match d.format with
  | none => []
  | some format =>
    if format.accepts s then []
    else
      let issue := Issue.formatInvalid path format.name
      match format with
      | .pattern source => [issue.noting "pattern" (.string source)]
      | _ => [issue]

/-- The values a definition allows, if it lists any that can be found. -/
def allowedValues? (view : View) (d : Definition) : Option (List String) :=
  match d.allowed with
  | none => none
  | some (.inline values) => some values
  | some (.named type) => (view.enumValues type).toOption

/-- The text of a value that an enumeration compares. -/
def enumText (j : Json) : String := (j.string?).getD j.text

def enumIssues (view : View) (path : Path) (d : Definition) (j : Json) : List Issue :=
  match allowedValues? view d with
  | none => []
  | some values => if values.contains (enumText j) then [] else [.enumInvalid path values]

def scalar (view : View) (path : Path) (d : Definition) (kind : ScalarKind) (j : Json) :
    Verdict :=
  if !hasKind kind j then reject j (.invalid path kind.name)
  else
    let numeric := if kind.isNumeric then numberIssues path d j else []
    let textual := match j.string? with
      | none => []
      | some s => (if kind = .string then lengthIssues path d s else []) ++ formatIssues path d s
    ⟨j, numeric ++ textual ++ enumIssues view path d j⟩

/-! ### Objects and arrays -/

/-- What one field comes to: a param, unless it has none, and issues. -/
structure FieldVerdict where
  param : Option Json
  issues : List Issue

/-- Judges the member that a field describes. -/
def field (case : KeyCase) (judge : Judge) (path : Path) (members : Keyed Json) (f : Field) :
    FieldVerdict :=
  let wire := f.wireName case
  let here := path ++ [.key wire]
  match members.get? wire with
  | some j =>
    let v := judge here f.definition j
    ⟨some v.params, v.issues⟩
  | none =>
    match f.definition.default? with
    | some j => ⟨some j, []⟩
    | none => ⟨none, if f.definition.optional then [] else [.required here]⟩

/-- The params that fields come to, under their names. -/
def params (fields : List (Field × FieldVerdict)) : Keyed Json :=
  fields.foldl
    (fun ps (f, v) => match v.param with
      | some j => Keyed.insert f.name j ps
      | none => ps)
    []

/-- One issue for each key that no field has. -/
def unknownIssues (case : KeyCase) (path : Path) (shape : List Field) (members : Keyed Json) :
    List Issue :=
  let known := shape.map (Field.wireName case)
  (members.keys.filter fun key => !known.contains key).map fun key =>
    .unknownField (path ++ [.key key])

def object (case : KeyCase) (judge : Judge) (path : Path) (shape : List Field) (j : Json) :
    Verdict :=
  match j with
  | .object members =>
    let fields := shape.map fun f => (f, field case judge path members f)
    ⟨.object (params fields),
      fields.flatMap (fun (_, v) => v.issues) ++ unknownIssues case path shape members⟩
  | j => reject j (.invalid path "object")

def countIssues (path : Path) (d : Definition) (count : Nat) : List Issue :=
  boundIssues d (Binary64.ofInt? count)
    (fun least =>
      { code := .valueInvalid, path,
        detail := "must contain at least " ++ least.toJson.text ++ " items",
        constraint := [("constraint", .string "min_items"), ("minimum", least.toJson)] })
    (fun greatest =>
      { code := .valueInvalid, path,
        detail := "must contain at most " ++ greatest.toJson.text ++ " items",
        constraint := [("constraint", .string "max_items"), ("maximum", greatest.toJson)] })

def array (element : Path → Json → Verdict) (path : Path) (d : Definition) (j : Json) : Verdict :=
  match j with
  | .array elements =>
    let verdicts := elements.mapIdx fun i j => element (path ++ [.index i]) j
    ⟨.array (verdicts.map Verdict.params),
      countIssues path d elements.length ++ verdicts.flatMap Verdict.issues⟩
  | j => reject j (.invalid path "array")

/-! ### Unions -/

/-- Judges an object by the variant that it names under the discriminator. That key is no unknown
field of the variant, and the params hold it under its name. -/
def taggedUnion (case : KeyCase) (judge : Judge) (path : Path) (key : String)
    (variants : List Variant) (j : Json) : Verdict :=
  match j with
  | .object members =>
    let wire := case.apply key
    let here := path ++ [.key wire]
    match Keyed.get? members wire with
    | none => reject j (.required here)
    | some tag =>
      match tag.string? >>= Variant.tagged? variants with
      | none => reject j (.enumInvalid here (variants.filterMap Variant.tag))
      | some variant =>
        let v := judge path variant.definition j
        let params := match v.params with
          | .object ps => .object (if Keyed.contains ps key then ps else Keyed.insert key tag ps)
          | other => other
        ⟨params, v.issues.filter fun i => !(i.code == .fieldUnknown && i.path == here)⟩
  | j => reject j (.invalid path "object")

/-- The verdict of the first variant that finds nothing wrong. -/
def firstClean? (judge : Judge) (path : Path) (j : Json) : List Variant → Option Verdict
  | [] => none
  | variant :: rest =>
    let v := judge path variant.definition j
    if v.issues.isEmpty then some v else firstClean? judge path j rest

def untaggedUnion (judge : Judge) (path : Path) (variants : List Variant) (j : Json) : Verdict :=
  match firstClean? judge path j variants with
  | some v => v
  | none =>
    reject j
      { code := .valueInvalid, path, detail := "does not match any allowed type",
        constraint := [("expected", .string "union"),
          ("variants", .strings (variants.map fun v => v.definition.kind.name))] }

/-! ### The walk -/

def literal (path : Path) (value j : Json) : Verdict :=
  if j.sameValue value then accept j
  else
    reject j
      { code := .valueInvalid, path, detail := "must equal " ++ value.text,
        constraint := [("expected", value)] }

/-- Judges one value; `next` judges values a level further down and `afterNext` two levels. -/
def step (c : Context) (next afterNext : Judge) : Judge := fun path d j =>
  if j.isNull && takesNull d then accept .null
  else if j.isNull && !defersNull d then
    reject .null { Issue.invalid path d.kind.name with detail := "must not be null" }
  else match d.kind with
    | .reference target =>
      match c.view.definition? target with
      | some definition => next path definition j
      | none => reject j (.invalid path target)
    | .object shape => object c.case next path shape j
    | .array (.of element) => array (fun path => next path element) path d j
    | .array (.shape fields) => array (fun path => object c.case afterNext path fields) path d j
    | .union (some key) variants => taggedUnion c.case next path key variants j
    | .union none variants => untaggedUnion next path variants j
    | .literal value => literal path value j
    | .scalar kind => scalar c.view path d kind j

/-- Judges a value with some levels left; without any it is nested too deeply. -/
def judge (c : Context) : Nat → Judge
  | 0 => tooDeep
  | 1 => step c tooDeep tooDeep
  | n + 2 => step c (judge c (n + 1)) (judge c n)

@[simp] theorem judge_zero (c : Context) : judge c 0 = tooDeep := rfl

theorem judge_succ (c : Context) (n : Nat) :
    judge c (n + 1) = step c (judge c n) (judge c (n - 1)) := by
  cases n <;> rfl

/-- What goes from the judges below a step to the step holds with any number of levels left. -/
theorem judge_induction {P : Judge → Prop} (c : Context) (zero : P tooDeep)
    (succ : ∀ next afterNext, P next → P afterNext → P (step c next afterNext)) (n : Nat) :
    P (judge c n) := by
  induction n using Nat.strongRecOn with
  | ind n ih =>
    cases n with
    | zero => exact zero
    | succ n =>
      rw [judge_succ]
      exact succ _ _ (ih n (by omega)) (ih (n - 1) (by omega))

end Validation

/-- Compares a payload with a definition. -/
def Context.validate (c : Context) (d : Definition) (j : Json) : Verdict :=
  Validation.judge c (nestingLimit + 1) [] d j

/-- Whether a payload meets every expectation. -/
def Context.accepts (c : Context) (d : Definition) (j : Json) : Bool :=
  (c.validate d j).issues.isEmpty

end ApiContract
