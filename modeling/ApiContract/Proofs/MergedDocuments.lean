import ApiContract.Project.ContractSet
import ApiContract.Proofs.DerivedTypes
import ApiContract.Proofs.KeyOrder
import ApiContract.Proofs.Outcomes
import ApiContract.Proofs.SameDefinitions

/-!
# Documents that are merged

The types of all documents are registered, so two of one name have to be the same. The resources of
a namespace make up one catalog, in which the last one of a name stands.
-/

namespace ApiContract

/-- Whether a name stands for a type with this definition. -/
def Registry.holds (r : Registry) (s : Scope) (t : NamedType) : Bool :=
  match r.entry? s t.name with
  | some (.defined t') => t'.definition.sameValue t.definition
  | _ => false

theorem Registry.holds_iff {r : Registry} {s : Scope} {t : NamedType} :
    r.holds s t = true ↔
      ∃ t', r.entry? s t.name = some (.defined t') ∧ t'.definition.sameValue t.definition := by
  rw [holds]
  split
  · rename_i t' found
    simp [found]
  · rename_i other
    refine ⟨nofun, fun ⟨t', found, _⟩ => absurd found (other t')⟩

namespace ContractSet

variable {documents : List ContractDocument} {set : ContractSet} {r r' : Registry}

/-! ### Phases of loading -/

theorem loading_eq_ok {policy : ErrorPolicy} {nspace : String} {work : Loading Unit}
    (h : loading policy nspace work r = .ok r') : work.runOn policy r = (.ok (), r') := by
  rw [loading] at h
  generalize work.runOn policy r = after at h
  obtain ⟨_ | _, later⟩ := after
  · cases h
  · cases h
    rfl

/-- Work for one namespace after the other follows the scripts one after the other. -/
theorem run_of_foldlM {α : Type} {policy : ErrorPolicy} {nspace : α → String}
    {work : α → Loading Unit} {script : α → List LoadStep}
    (follows : ∀ x, Loading.Follows (work x) (script x) ()) {xs : List α}
    (h : xs.foldlM (fun r x => loading policy (nspace x) (work x) r) r = .ok r') :
    LoadStep.run policy (xs.flatMap script) r = (.ok (), r') := by
  induction xs generalizing r with
  | nil =>
    cases h
    rfl
  | cons x xs ih =>
    rw [List.foldlM_cons] at h
    obtain ⟨mid, first, rest⟩ := Except.bind_eq_ok h
    have ran := loading_eq_ok first
    rw [(follows x).runOn_eq] at ran
    rw [List.flatMap_cons, LoadStep.run_append, ran]
    exact ih rest

/-- The steps by which the references of a namespace that lead to no type are reported. -/
def reportSteps (nspace : String) (r : Registry) : List LoadStep :=
  (r.unresolved (.api nspace)).flatMap fun (referrer, missing) =>
    [.defect (.unresolvedReference missing (.api nspace) referrer)]

/-- Reporting references changes no entry. -/
theorem growsTo_reportUnresolved {policy : ErrorPolicy} {nspace : String}
    (h : loading policy nspace (reportUnresolved nspace) r = .ok r') : r.GrowsTo r' := by
  have reports : Loading.Follows
      ((r.unresolved (.api nspace)).forM fun (referrer, missing) =>
        Loading.report (.unresolvedReference missing (.api nspace) referrer) ())
      (reportSteps nspace r) () :=
    .forM fun _ _ => .report _ _
  have ran := (reports.runOn_eq policy r).symm.trans (loading_eq_ok h)
  have grown := LoadStep.growsTo_run policy (reportSteps nspace r) r
  rwa [ran] at grown

/-- Nor does reporting those of all namespaces. -/
theorem growsTo_reports {policy : ErrorPolicy} {namespaces : Keyed (Option KeyCase)}
    (h : namespaces.foldlM
      (fun r p => loading policy p.1 (reportUnresolved p.1) r) r = .ok r') :
    r.GrowsTo r' := by
  induction namespaces generalizing r with
  | nil =>
    cases h
    exact .refl _
  | cons p rest ih =>
    rw [List.foldlM_cons] at h
    obtain ⟨mid, first, h⟩ := Except.bind_eq_ok h
    exact (growsTo_reportUnresolved first).trans (ih h)

def typeSteps (d : ContractDocument) : List LoadStep :=
  d.types.flatMap fun (name, definition) => [.register (.api d.nspace) { name, definition }]

theorem follows_registerTypes (d : ContractDocument) :
    Loading.Follows (registerTypes d) (typeSteps d) () :=
  .forM fun _ _ => .register _ _ _

/-- The scripts that loading of documents without an error has followed. -/
theorem exists_runs (built : ofDocuments .raise documents = .ok set) :
    ∃ mid later, LoadStep.run .raise (documents.flatMap typeSteps) {} = (.ok (), mid) ∧
      LoadStep.run .raise ((catalogsOf documents).flatMap fun (nspace, catalog) =>
        catalog.steps (.api nspace)) mid = (.ok (), later) ∧
      later.GrowsTo set.registry := by
  rw [ofDocuments] at built
  obtain ⟨mid, types, built⟩ := Except.bind_eq_ok built
  obtain ⟨later, resources, built⟩ := Except.bind_eq_ok built
  obtain ⟨last, reports, built⟩ := Except.bind_eq_ok built
  cases built
  exact ⟨mid, later, run_of_foldlM follows_registerTypes types,
    run_of_foldlM (fun p => p.2.follows_registerAll (.api p.1)) resources,
    growsTo_reports reports⟩

/-! ### Catalogs -/

/-- The resources that some documents declare in a namespace. -/
def declared (documents : List ContractDocument) (nspace : String) : List Resource :=
  (documents.filter (·.nspace = nspace)).flatMap (·.resources)

def addDocument (catalogs : Keyed Catalog) (d : ContractDocument) : Keyed Catalog :=
  let catalog := (Keyed.get? catalogs d.nspace).getD []
  Keyed.insert d.nspace (d.resources.foldl Catalog.add catalog) catalogs

/-- The catalog of a namespace has the resources of its documents, one after another. -/
theorem get?_foldl_addDocument {nspace : String} (catalogs : Keyed Catalog)
    (known : (Keyed.get? catalogs nspace).isSome ∨ ∃ d ∈ documents, d.nspace = nspace) :
    Keyed.get? (documents.foldl addDocument catalogs) nspace =
      some ((declared documents nspace).foldl Catalog.add
        ((Keyed.get? catalogs nspace).getD [])) := by
  induction documents generalizing catalogs with
  | nil =>
    obtain ⟨catalog, found⟩ := Option.isSome_iff_exists.mp (known.resolve_right (by simp))
    rw [List.foldl_nil, found]
    rfl
  | cons d rest ih =>
    rw [List.foldl_cons]
    by_cases here : d.nspace = nspace
    · have added : Keyed.get? (addDocument catalogs d) nspace =
          some (d.resources.foldl Catalog.add ((Keyed.get? catalogs nspace).getD [])) := by
        rw [addDocument, here]
        exact Keyed.get?_insert_self _ _ _
      rw [ih _ (.inl (by simp [added])), added]
      simp [declared, here, List.foldl_append]
    · have kept : Keyed.get? (addDocument catalogs d) nspace = Keyed.get? catalogs nspace := by
        rw [addDocument, Keyed.get?_insert, if_neg (Ne.symm here)]
      have known' : (Keyed.get? (addDocument catalogs d) nspace).isSome ∨
          ∃ d ∈ rest, d.nspace = nspace := by
        rw [kept]
        simpa [here] using known
      rw [ih _ known', kept]
      simp [declared, here]

/-- The catalog of a namespace holds the resources that are declared in it. -/
theorem get?_catalogsOf {d : ContractDocument} (hd : d ∈ documents) :
    Keyed.get? (catalogsOf documents) d.nspace =
      some ((declared documents d.nspace).foldl Catalog.add []) :=
  get?_foldl_addDocument [] (.inr ⟨d, hd, rfl⟩)

/-- Of the resources of one name the last stands in the catalog. -/
theorem get?_foldl_add {x : Resource} {resources : List Resource} (catalog : Catalog)
    (known : Keyed.get? catalog x.name = some x ∨ x ∈ resources)
    (alone : ∀ y ∈ resources, y.name = x.name → y = x) :
    Keyed.get? (resources.foldl Catalog.add catalog) x.name = some x := by
  induction resources generalizing catalog with
  | nil => exact known.resolve_right (by simp)
  | cons y rest ih =>
    rw [List.foldl_cons]
    refine ih _ ?_ fun z hz => alone z (List.mem_cons_of_mem y hz)
    by_cases same : y.name = x.name
    · obtain rfl := alone y List.mem_cons_self same
      exact .inl (Keyed.get?_insert_self _ _ _)
    · refine known.imp (fun found => ?_) fun hx => ?_
      · rw [Catalog.add, Keyed.get?_insert, if_neg (Ne.symm same)]
        exact found
      · exact (List.mem_cons.mp hx).resolve_left fun eq => same (eq ▸ rfl)

/-! ### What is declared is there -/

theorem mem_types_typeSteps {d : ContractDocument} {name : String} {definition : Definition}
    (h : (name, definition) ∈ d.types) :
    (Scope.api d.nspace, { name, definition : NamedType }) ∈ LoadStep.types (typeSteps d) := by
  rw [typeSteps, LoadStep.types_flatMap, List.mem_flatMap]
  exact ⟨_, h, List.mem_singleton.mpr rfl⟩

/-- A type that a script has registered is there. -/
theorem holds_of_run {steps : List LoadStep} {later : Registry} {s : Scope} {t : NamedType}
    (ran : LoadStep.run .raise steps r = (.ok (), r')) (h : (s, t) ∈ LoadStep.types steps)
    (grown : r'.GrowsTo later) : later.holds s t = true := by
  obtain ⟨t', here, same⟩ := LoadStep.defined_of_run ran h
  exact Registry.holds_iff.mpr ⟨t', grown.entry_of_settled here rfl, same⟩

/-- The types of a document are those of its namespace. -/
theorem holds_type (built : ofDocuments .raise documents = .ok set) {d : ContractDocument}
    (hd : d ∈ documents) {name : String} {definition : Definition}
    (h : (name, definition) ∈ d.types) :
    set.registry.holds (.api d.nspace) { name, definition } = true := by
  obtain ⟨mid, later, types, resources, grown⟩ := exists_runs built
  have onward := LoadStep.growsTo_run .raise ((catalogsOf documents).flatMap fun p =>
    p.2.steps (.api p.1)) mid
  rw [resources] at onward
  refine holds_of_run types ?_ (onward.trans grown)
  rw [LoadStep.types_flatMap, List.mem_flatMap]
  exact ⟨d, hd, mem_types_typeSteps h⟩

theorem holds_derived (built : ofDocuments .raise documents = .ok set) {nspace : String}
    {catalog : Catalog} (hc : Keyed.get? (catalogsOf documents) nspace = some catalog)
    {s : Scope} {t : NamedType} (h : catalog.Derives (.api nspace) s t) :
    set.registry.holds s t = true := by
  obtain ⟨mid, later, types, resources, grown⟩ := exists_runs built
  refine holds_of_run resources ?_ grown
  rw [LoadStep.types_flatMap, List.mem_flatMap]
  exact ⟨_, Keyed.mem_of_get? hc, (catalog.mem_types_iff _ s t).mpr h⟩

end ContractSet

/-- When documents make up a set, each declared type is there with its definition, and other
declarations of its name in the namespace have the same one. A resource whose name no document of
the namespace declares otherwise stands in the catalog, and all types derived from it are there. -/
theorem declarations_represented {documents : List ContractDocument} {set : ContractSet}
    (built : ContractSet.ofDocuments .raise documents = .ok set) {d : ContractDocument}
    (hd : d ∈ documents) :
    (∀ name definition, (name, definition) ∈ d.types →
      set.registry.holds (.api d.nspace) { name, definition } = true ∧
      ∀ d' ∈ documents, d'.nspace = d.nspace → ∀ other, (name, other) ∈ d'.types →
        definition.sameValue other = true) ∧
    ∀ x ∈ d.resources,
      (∀ d' ∈ documents, d'.nspace = d.nspace → ∀ y ∈ d'.resources, y.name = x.name → y = x) →
      ∃ catalog, Keyed.get? (ContractSet.catalogsOf documents) d.nspace = some catalog ∧
        Keyed.get? catalog x.name = some x ∧
        ∀ s t, x.Derives catalog (.api d.nspace) s t → set.registry.holds s t = true := by
  constructor
  · intro name definition h
    have here := ContractSet.holds_type built hd h
    refine ⟨here, fun d' hd' same other h' => ?_⟩
    have there := ContractSet.holds_type built hd' h'
    rw [same] at there
    obtain ⟨t, ht, as⟩ := Registry.holds_iff.mp here
    obtain ⟨t', ht', as'⟩ := Registry.holds_iff.mp there
    cases ht.symm.trans ht'
    exact Definition.sameValue_of_left as as'
  · intro x hx alone
    have catalog := ContractSet.get?_catalogsOf hd
    have inCatalog : x ∈ ContractSet.declared documents d.nspace :=
      List.mem_flatMap.mpr ⟨d, List.mem_filter.mpr ⟨hd, by simp⟩, hx⟩
    have found := ContractSet.get?_foldl_add [] (.inr inCatalog) fun y hy same => by
      obtain ⟨d', hd', hy⟩ := List.mem_flatMap.mp hy
      obtain ⟨hd', here⟩ := List.mem_filter.mp hd'
      exact alone d' hd' (by simpa using here) y hy same
    refine ⟨_, catalog, found, fun s t derived => ?_⟩
    exact ContractSet.holds_derived built catalog
      ⟨x, List.mem_map_of_mem (Keyed.mem_of_get? found), derived⟩

def crate : Resource where
  name := "Crate"
  attributes := [{ name := "weight", definition := .reference "Weight" }]

def crates : ContractDocument where
  nspace := "depot"
  types := [("Weight", .scalar .decimal)]
  resources := [crate]

def vans : ContractDocument where
  nspace := "depot"
  types := [("Weight", .scalar .decimal)]
  resources := [{
    name := "Van"
    associations := [{ name := "crates", cardinality := .many, target := .direct none }] }]

theorem crates_represented :
    ∃ set, ContractSet.ofDocuments .raise [crates, vans] = .ok set ∧
      set.registry.holds (.api "depot") { name := "Weight", definition := .scalar .decimal } ∧
      ∃ catalog, Keyed.get? catalog "Crate" = some crate ∧
        set.registry.holds (.api "depot") (crate.recordType catalog) := by
  have builds : (ContractSet.ofDocuments .raise [crates, vans]).isOk = true := by decide +kernel
  cases built : ContractSet.ofDocuments .raise [crates, vans] with
  | error e => rw [built] at builds; cases builds
  | ok set =>
    obtain ⟨types, resources⟩ := declarations_represented built List.mem_cons_self
    have alone : ∀ d' ∈ [crates, vans], d'.nspace = crates.nspace → ∀ y ∈ d'.resources,
        y.name = crate.name → y = crate := by
      intro d' hd' _ y hy named
      rcases List.mem_cons.mp hd' with rfl | hd'
      · exact List.mem_singleton.mp hy
      · cases List.mem_singleton.mp hd'
        cases List.mem_singleton.mp hy
        exact absurd named (by decide)
    obtain ⟨catalog, -, found, derived⟩ := resources crate List.mem_cons_self alone
    exact ⟨set, rfl, (types _ _ List.mem_cons_self).1, catalog, found, derived _ _ .record⟩

def numberedCrate : Resource where
  name := "Crate"
  attributes := [{ name := "number", definition := .scalar .integer }]

def numberedCrates : ContractDocument where
  nspace := "depot"
  resources := [numberedCrate]

/-- Of two documents that declare a resource differently the later one wins: they make up a set, and
the records that the first one declares are not there. -/
theorem differing_crates_merged :
    crates.nspace = numberedCrates.nspace ∧ crate ∈ crates.resources ∧
      numberedCrate ∈ numberedCrates.resources ∧ crate.name = numberedCrate.name ∧
      crate.attributes.map (·.name) ≠ numberedCrate.attributes.map (·.name) ∧
      ∃ set, ContractSet.ofDocuments .raise [crates, numberedCrates] = .ok set ∧
        ∀ catalog, set.registry.holds (.api "depot") (crate.recordType catalog) = false := by
  have outcome : ((ContractSet.ofDocuments .raise [crates, numberedCrates]).map fun set =>
      set.registry.holds (.api "depot") (crate.recordType [])).toOption = some false := by
    decide +kernel
  refine ⟨rfl, List.mem_cons_self, List.mem_cons_self, rfl, by decide, ?_⟩
  cases built : ContractSet.ofDocuments .raise [crates, numberedCrates] with
  | error e => rw [built] at outcome; cases outcome
  | ok set =>
    rw [built] at outcome
    exact ⟨set, rfl, fun catalog => Option.some.inj outcome⟩

end ApiContract
