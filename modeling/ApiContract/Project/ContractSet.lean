import ApiContract.Output.Target
import ApiContract.Payload.Exchange
import ApiContract.Project.Document
import ApiContract.Project.Error
import ApiContract.Project.Settings
import ApiContract.Resource.Derivation

/-!
# Sets of contracts

All documents of a project go into one registry, each namespace into the scope of its own API.
Documents of one namespace are merged; their resources make up one catalog. The set is what payloads
are checked against and what files are generated from.
-/

namespace ApiContract

structure ContractSet where
  registry : Registry := {}
  /-- The namespaces, each with the key case that its documents ask for. -/
  namespaces : Keyed (Option KeyCase) := []

structure GeneratedFile where
  path : FilePath
  nspace : String
  target : String
  content : String
  deriving DecidableEq

namespace ContractSet

/-- The namespaces of some documents. Of the key cases asked for, the first one counts. -/
def namespacesOf (documents : List ContractDocument) : Keyed (Option KeyCase) :=
  documents.foldl
    (fun known d =>
      let earlier := (Keyed.get? known d.nspace).getD none
      Keyed.insert d.nspace (earlier <|> d.keyCase) known)
    []

/-- The resources of some documents by namespace. -/
def catalogsOf (documents : List ContractDocument) : Keyed Catalog :=
  documents.foldl
    (fun catalogs d =>
      let catalog := (Keyed.get? catalogs d.nspace).getD []
      Keyed.insert d.nspace (d.resources.foldl Catalog.add catalog) catalogs)
    []

/-- Does work for a namespace on the registry. -/
def loading (policy : ErrorPolicy) (nspace : String) (work : Loading Unit) (r : Registry) :
    Except ProjectError Registry :=
  match work.runOn policy r with
  | (.ok (), r) => .ok r
  | (.error e, _) => .error (.rejected nspace e)

/-- Registers the types of a document. -/
def registerTypes (d : ContractDocument) : Loading Unit :=
  d.types.forM fun (name, definition) => Loading.register (.api d.nspace) name definition

/-- Reports the references of a namespace that lead to no type. -/
def reportUnresolved (nspace : String) : Loading Unit := do
  let r : Registry ← get
  (r.unresolved (.api nspace)).forM fun (referrer, missing) =>
    Loading.report (.unresolvedReference missing (.api nspace) referrer) ()

/-- The set that some documents make up. -/
def ofDocuments (policy : ErrorPolicy) (documents : List ContractDocument) :
    Except ProjectError ContractSet := do
  let namespaces := namespacesOf documents
  let r ← documents.foldlM (fun r d => loading policy d.nspace (registerTypes d) r) {}
  let r ← (catalogsOf documents).foldlM
    (fun r (nspace, catalog) => loading policy nspace (catalog.registerAll (.api nspace)) r) r
  let r ← namespaces.foldlM
    (fun r (nspace, _) => loading policy nspace (reportUnresolved nspace) r) r
  return { registry := r, namespaces }

/-- The key case of a namespace on the wire. -/
def keyCase (set : ContractSet) (s : ProjectSettings) (nspace : String) : KeyCase :=
  ((Keyed.get? set.namespaces nspace).getD none).getD s.text.keyCase

/-- How payloads of a namespace are spelled. -/
def namespaceConfig (set : ContractSet) (s : ProjectSettings) (nspace : String) :
    Except ProjectError NamespaceConfig :=
  if Keyed.contains set.namespaces nspace then
    .ok { name := nspace, keyCase := set.keyCase s nspace, locale := s.text.locale }
  else .error (.unknownNamespace nspace)

/-- How payloads of a type of a namespace come in. -/
def exchange (set : ContractSet) (s : ProjectSettings) (nspace type : String) :
    Except ProjectError Exchange := do
  let config ← set.namespaceConfig s nspace
  let scope := Scope.api nspace
  if !set.registry.contains scope type then
    throw (.rejected nspace (.unknownType type scope))
  return { view := { registry := set.registry, scope }, config, transformers := .builtin }

/-- Checks a payload against a type of a namespace. -/
def process (set : ContractSet) (s : ProjectSettings) (nspace type : String)
    (direction : Direction) (payload : Json) : Except ProjectError Verdict := do
  let exchange ← set.exchange s nspace type
  (exchange.process direction (.reference type) payload).mapError .exchange

/-- The name of the file that a target writes for a namespace. -/
def outputName (nspace : String) (t : Target) : FilePath :=
  nspace ++ "." ++ t.id ++ "." ++ t.extension

/-- The file that a target writes for a namespace. -/
def file (set : ContractSet) (s : ProjectSettings) (t : Target) (nspace : String) :
    Except ProjectError GeneratedFile := do
  let view : View := { registry := set.registry, scope := .api nspace }
  let content ← (t.file view { s.text with keyCase := set.keyCase s nspace }).mapError
    (.generation t.id nspace)
  return { path := outputName nspace t, nspace, target := t.id, content }

/-- The files of all targets for all namespaces. -/
def files (set : ContractSet) (s : ProjectSettings) : Except ProjectError (List GeneratedFile) := do
  let perTarget ← s.targets.mapM fun name => do
    match s.target? name with
    | none => throw (.unknownTarget name)
    | some t => set.namespaces.keys.mapM (set.file s t)
  return perTarget.flatten

end ContractSet

/-- Refuses settings without targets, or with one that is none. -/
def ProjectSettings.check (s : ProjectSettings) : Except ProjectError Unit :=
  if s.targets.isEmpty then .error .noTargets
  else match s.targets.find? fun name => (s.target? name).isNone with
    | some name => .error (.unsupportedTarget name)
    | none => .ok ()

end ApiContract
