import ApiContract.Payload.Coercion
import ApiContract.Payload.Transformer
import ApiContract.Payload.WireKeys

/-!
# Requests and responses

An inbound payload is extracted, coerced, validated and decoded; an outbound record is encoded,
respelled, coerced and validated. An outbound record that fails validation is sent as it is.
-/

namespace ApiContract

inductive Direction where
  | query
  | body
  | responseBody
  deriving DecidableEq

namespace Direction

def ofName? (name : String) : Option Direction :=
  if name = "query" then some query
  else if name = "body" then some body
  else if name = "response_body" then some responseBody
  else none

def ofJson? (j : Json) : Option Direction := j.choice? >>= ofName?

end Direction

/-- How the payloads of one namespace are spelled. -/
structure NamespaceConfig where
  name : String := ""
  keyCase : KeyCase := .preserve
  inputKeyCase : Option KeyCase := none
  outputKeyCase : Option KeyCase := none
  locale : String := "en"
  deriving DecidableEq

namespace NamespaceConfig

/-- The key case in one direction; an override for the direction wins. -/
def keyCaseFor (c : NamespaceConfig) : Direction → KeyCase
  | .query | .body => c.inputKeyCase.getD c.keyCase
  | .responseBody => c.outputKeyCase.getD c.keyCase

def toJson (c : NamespaceConfig) : Json :=
  .ofMembers ([("name", .string c.name), ("key_case", c.keyCase.toJson),
    ("locale", .string c.locale)] ++
    Json.present "input_key_case" (c.inputKeyCase.map KeyCase.toJson) ++
    Json.present "output_key_case" (c.outputKeyCase.map KeyCase.toJson))

def ofJson? (j : Json) : Option NamespaceConfig := do
  let r ← j.recordOf? ["name", "key_case", "input_key_case", "output_key_case", "locale"]
  return { name := ← Json.defaulted r "name" "" Json.string?
           keyCase := ← Json.defaulted r "key_case" .preserve KeyCase.ofJson?
           inputKeyCase := ← Json.optional r "input_key_case" KeyCase.ofJson?
           outputKeyCase := ← Json.optional r "output_key_case" KeyCase.ofJson?
           locale := ← Json.defaulted r "locale" "en" Json.string? }

end NamespaceConfig

/-- Why a request or response cannot be completed. -/
inductive ExchangeError where
  | invalid (issues : List Issue)
  | serialization (record : String) (cause : ConfigurationError)
  | configuration (cause : ConfigurationError)

namespace ExchangeError

def message : ExchangeError → String
  | invalid issues => "Request is invalid: " ++ Issue.textOfAll issues
  | serialization record cause => "Failed to serialize " ++ record ++ ": " ++ cause.message
  | configuration cause => cause.message

/-- The status of a response that reports the error. -/
def status : ExchangeError → Nat
  | invalid _ => 400
  | serialization _ _ | configuration _ => 500

/-- Whether the other side is to blame. -/
def isClientError (e : ExchangeError) : Bool := 400 ≤ e.status && e.status < 500

end ExchangeError

/-- The payloads of one namespace: what its definitions may name, how keys are spelled, and which
transformers there are. -/
structure Exchange where
  view : View
  config : NamespaceConfig
  transformers : Transformers := Transformers.builtin

namespace Exchange

def context (x : Exchange) (direction : Direction) : Context :=
  { view := x.view, case := x.config.keyCaseFor direction }

/-! ### Inbound -/

/-- The parts of a text between commas, trimmed, without empty ones. -/
def commaSeparated (s : String) : List String :=
  (((splitOn s.toList).map trimChars).filter (!·.isEmpty)).map String.ofList
where
  splitOn : List Char → List (List Char)
    | [] => [[]]
    | c :: rest =>
      if c = ',' then [] :: splitOn rest
      else match splitOn rest with
        | part :: parts => (c :: part) :: parts
        | [] => [[c]]

/-- Reads one member of a query: none where it is left out. -/
def extractMember (view : View) (extract : Definition → Json → Json) (f : Field) (j : Json) :
    Option Json :=
  if f.definition.optional && j.string? == some "" then none
  else
    let target := match view.deref f.definition with
      | .ok (d, _) => d
      | .error _ => f.definition
    match target.kind, j with
    | .array _, .string s => some (.strings (commaSeparated s))
    | .object _, .object _ => some (extract f.definition j)
    | _, _ => some j

/-- Reads the members of a query field by field. -/
def extractMembers (c : Context) (extract : Definition → Json → Json) (shape : List Field)
    (members : Keyed Json) : Keyed Json :=
  shape.foldl
    (fun members f =>
      let wire := f.wireName c.case
      match members.get? wire with
      | none => members
      | some j =>
        match extractMember c.view extract f j with
        | some j => Keyed.modify wire (fun _ => j) members
        | none => members.erase wire)
    members

/-- A query with texts split into arrays where arrays are declared, and without empty texts where
nothing is required; with some levels left. -/
def extractWithin (c : Context) : Nat → Definition → Json → Json
  | 0, _, j => j
  | n + 1, d, j =>
    match c.view.deref d, j with
    | .ok (target, _), .object members =>
      match target.shape? with
      | some shape => .object (extractMembers c (extractWithin c n) shape members)
      | none => j
    | _, _ => j

/-- An inbound payload's params, or the issues that stand against it. -/
def process (x : Exchange) (direction : Direction) (d : Definition) (raw : Json) :
    Except ConfigurationError Verdict := do
  let c := x.context direction
  let extracted := if direction = .query then extractWithin c (nestingLimit + 1) d raw else raw
  let v := c.validate d (c.coerce d extracted)
  if v.issues.isEmpty then
    let params ← x.view.transform x.transformers .decode d v.params
    .ok ⟨params, []⟩
  else .ok ⟨.object [], v.issues⟩

/-- An inbound payload's params. -/
def parse (x : Exchange) (direction : Direction) (d : Definition) (raw : Json) :
    Except ExchangeError Json :=
  match x.process direction d raw with
  | .error e => .error (.configuration e)
  | .ok v => if v.issues.isEmpty then .ok v.params else .error (.invalid v.issues)

/-! ### Outbound -/

/-- One record as it goes out. -/
def serializeRecord (x : Exchange) (d : Definition) (typeName : String) (record : Json) :
    Except ExchangeError Json :=
  let c := x.context .responseBody
  match x.view.transform x.transformers .encode d record with
  | .error e => .error (.serialization typeName e)
  | .ok encoded =>
    let wire := c.toWire d encoded
    let coerced := c.coerce d wire
    .ok (if c.accepts d coerced then coerced else wire)

/-- One record under its singular root key. -/
def serializeMember (x : Exchange) (d : Definition) (typeName rootKey : String) (record : Json) :
    Except ExchangeError Json := do
  let wire ← x.serializeRecord d typeName record
  .ok (.object [((x.config.keyCaseFor .responseBody).apply rootKey, wire)])

/-- Records under their plural root key, and data about them under `meta`. -/
def serializeCollection (x : Exchange) (d : Definition) (typeName rootKey : String)
    (records : List Json) (about : Option Json) : Except ExchangeError Json := do
  let case := x.config.keyCaseFor .responseBody
  let items ← records.mapM (x.serializeRecord d typeName)
  .ok (.ofMembers ((case.apply rootKey, .array items) ::
    Json.present "meta" (about.map case.applyDeep)))

end Exchange

end ApiContract
