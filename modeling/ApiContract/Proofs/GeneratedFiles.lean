import ApiContract.Proofs.DependencyOrder
import ApiContract.Proofs.GeneratedNames
import ApiContract.Proofs.RegistrationRuns
import ApiContract.Proofs.SchemaPointers

/-!
# What generated files consist of

A file is made of one declaration, or one component, for each name in dependency order. If all
dependencies of the names that a scope reaches exist, a file is closed: whatever is mentioned in it
is declared in it, once.
-/

namespace ApiContract

def Entry.standsUnder (name : String) : Entry → Bool
  | .defined t => t.name == name
  | .placeholder | .aliasOf _ _ => true

namespace Registry

variable {r : Registry}

def Named (r : Registry) : Prop :=
  ∀ s name t, r.entry? s name = some (.defined t) → t.name = name

/-- Registration puts types under their own names. -/
theorem Checked.named (h : r.Checked) : r.Named := by
  intro s name t he
  cases hl : r.tables.lookup s with
  | none => simp [Registry.entry?, table, hl] at he
  | some t' =>
    rw [Registry.entry?, table, hl] at he
    exact (h s t' (mem_of_lookup hl) name t (Keyed.mem_of_get? he)).1

theorem named_of_entries
    (h : ∀ q ∈ r.entries, (r.entry? q.1 q.2).all (Entry.standsUnder q.2) = true) : r.Named := by
  intro s name t he
  have under := h (s, name) (mem_entries he)
  rw [he] at under
  exact beq_iff_eq.mp under

def Known (r : Registry) : Prop :=
  ∀ s name, ∀ p ∈ r.dependencies s name, r.contains p.2 p.1 = true

theorem known_of_entries
    (h : ∀ q ∈ r.entries, ∀ p ∈ r.dependencies q.1 q.2, r.contains p.2 p.1 = true) : r.Known := by
  intro s name p hp
  obtain ⟨found, hq, hm⟩ := exists_entry_of_mem_dependencies hp
  exact h (found, name) hq p hm

/-- Wherever a traversal from a scope comes to a name, the names it depends on exist. -/
def ReachesKnown (r : Registry) (scope : Scope) : Prop :=
  ∀ p, r.Reached scope p → ∀ q ∈ r.dependencies p.2 p.1, r.contains q.2 q.1 = true

theorem Known.reachesKnown (h : r.Known) (scope : Scope) : r.ReachesKnown scope :=
  fun p _ => h p.2 p.1

/-- The dependencies of a listed name are those of the entry that was seen. -/
theorem exists_mem_dependencies {s found : Scope} {name dep : String} {e : Entry} {l : Listing}
    (hl : r.lookup s name = some (found, e)) (listing : e.listing? = some l)
    (hd : dep ∈ l.dependencies) : ∃ ds, (dep, ds) ∈ r.dependencies s name := by
  rw [dependencies, hl]
  cases e with
  | placeholder => cases listing
  | defined t =>
    cases listing
    exact ⟨found, List.mem_map_of_mem hd⟩
  | aliasOf s' target =>
    cases listing
    obtain rfl := List.mem_singleton.mp hd
    exact ⟨s', List.mem_cons_self⟩

theorem Lists.mem_of_mem_dependencies {scope : Scope} {types : List OrderedType}
    (h : r.Lists scope types) (known : r.ReachesKnown scope) {t : OrderedType} (ht : t ∈ types)
    {dep : String} (hd : dep ∈ t.listing.dependencies) : dep ∈ types.map (·.name) := by
  obtain ⟨earlier, later, he⟩ := List.append_of_mem ht
  obtain ⟨s, reached, from_s⟩ := h.listed earlier t later he
  obtain ⟨found, e, hl, listing⟩ := from_s.listing
  obtain ⟨ds, hm⟩ := exists_mem_dependencies hl listing hd
  exact from_s.visited (dep, ds) ⟨hm, known _ reached _ hm⟩

def OwnNames (types : List OrderedType) : Prop :=
  ∀ t ∈ types, ∀ type, t.listing = .defined type → type.name = t.name

/-- Listed names are those that their types stand under. -/
theorem Lists.ownNames {scope : Scope} {types : List OrderedType} (h : r.Lists scope types)
    (named : r.Named) : OwnNames types := by
  intro t ht type hl
  obtain ⟨earlier, later, he⟩ := List.append_of_mem ht
  obtain ⟨s, -, from_s⟩ := h.listed earlier t later he
  obtain ⟨found, e, seen, listing⟩ := from_s.listing
  rw [hl] at listing
  cases e with
  | placeholder => cases listing
  | aliasOf => cases listing
  | defined => cases listing; exact named _ _ _ (entry_of_lookup seen)

theorem lists_of_ordered {scope : Scope} {types : List OrderedType}
    (ordered : r.ordered scope = .ok types) : r.Lists scope types := by
  have outcome := yields_ordered r scope
  rwa [ordered] at outcome

end Registry

namespace Target

open Registry

theorem schemaIdentifier_injective : Function.Injective schemaIdentifier := by
  intro x y h
  have same := congrArg String.toList h
  rw [schemaIdentifier, schemaIdentifier, String.toList_append, String.toList_append] at same
  exact String.toList_inj.mp (List.append_cancel_right same)

variable {c : OutputContext} {types : List OrderedType}

/-! ### The parts of a file -/

theorem once_cons {emitted : List String} {t : OrderedType} (h : t.name ∉ emitted)
    (rest : List OrderedType) :
    once emitted (t :: rest) = (emitted, t) :: once (t.name :: emitted) rest := by
  rw [once, if_neg (by simpa using h)]

/-- Types with new names are kept, each with the names of those in front of it. -/
theorem once_append {emitted : List String} {before : List OrderedType}
    (nodup : (before.map (·.name) ++ emitted).Nodup) (after : List OrderedType) :
    once emitted (before ++ after) =
      once emitted before ++ once ((before.map (·.name)).reverse ++ emitted) after := by
  induction before generalizing emitted with
  | nil => rfl
  | cons t rest ih =>
    have fresh : t.name ∉ emitted :=
      fun h => (List.nodup_cons.mp nodup).1 (List.mem_append_right _ h)
    rw [List.cons_append, once_cons fresh, once_cons fresh, ih (List.nodup_middle.mpr nodup)]
    simp

theorem map_once {emitted : List String} (nodup : (types.map (·.name) ++ emitted).Nodup) :
    (once emitted types).map (·.2) = types := by
  induction types generalizing emitted with
  | nil => rfl
  | cons t rest ih =>
    have fresh : t.name ∉ emitted :=
      fun h => (List.nodup_cons.mp nodup).1 (List.mem_append_right _ h)
    rw [once_cons fresh, List.map_cons, ih (List.nodup_middle.mpr nodup)]

theorem map_contexts (nodup : (types.map (·.name)).Nodup) :
    (contexts c types).map (·.2) = types := by
  rw [contexts, List.map_map]
  exact map_once (by rwa [List.append_nil])

def typeDeclarations (c : OutputContext) (types : List OrderedType) :
    List (Documentation × TypeDeclaration) :=
  (contexts c types).map fun (_, t) =>
    (t.listing.docs c.settings, t.listing.declaration c.settings t.name)

def schemaDeclarations (c : OutputContext) (types : List OrderedType) : List SchemaDeclaration :=
  (contexts c types).map fun (c, t) => t.listing.schemaDeclaration c t.name t.recursive

/-- The declaration of a type's schema behind those of other types. -/
def schemaAfter (c : OutputContext) (before : List OrderedType) (t : OrderedType) :
    SchemaDeclaration :=
  t.listing.schemaDeclaration { c with emitted := (before.map (·.name)).reverse } t.name t.recursive

theorem length_schemaDeclarations (nodup : (types.map (·.name)).Nodup) :
    (schemaDeclarations c types).length = types.length := by
  conv_rhs => rw [← map_contexts nodup (c := c)]
  rw [schemaDeclarations, List.length_map, List.length_map]

/-- Schemas are declared as their types are listed. -/
theorem schemaDeclarations_append {before after : List OrderedType} {t : OrderedType}
    (nodup : ((before ++ t :: after).map (·.name)).Nodup) :
    ∃ rest, schemaDeclarations c (before ++ t :: after) =
      schemaDeclarations c before ++ schemaAfter c before t :: rest := by
  rw [List.map_append, List.map_cons] at nodup
  obtain ⟨front, -, apart⟩ := List.nodup_append.mp nodup
  have fresh : t.name ∉ (before.map (·.name)).reverse ++ [] := by
    rw [List.append_nil, List.mem_reverse]
    exact fun h => apart _ h _ List.mem_cons_self rfl
  have kept := once_append (by rwa [List.append_nil]) (t :: after)
  rw [once_cons fresh] at kept
  rw [schemaDeclarations, contexts, kept, List.map_append, List.map_append, List.map_cons,
    List.append_nil]
  exact ⟨_, rfl⟩

/-- A place in the file is a place in the list, with the same types before it. -/
theorem schemaDeclarations_split (nodup : (types.map (·.name)).Nodup)
    {earlier later : List SchemaDeclaration} {d : SchemaDeclaration}
    (h : schemaDeclarations c types = earlier ++ d :: later) :
    ∃ before t after, types = before ++ t :: after ∧ earlier = schemaDeclarations c before ∧
      d = schemaAfter c before t := by
  have short : earlier.length < types.length := by
    rw [← length_schemaDeclarations nodup (c := c), h]
    simp
  have split : types.take earlier.length ++ types[earlier.length] ::
      types.drop (earlier.length + 1) = types := by
    rw [List.getElem_cons_drop, List.take_append_drop]
  rw [← split] at nodup h
  obtain ⟨rest, he⟩ := schemaDeclarations_append (c := c) nodup
  have front : ((types.take earlier.length).map (·.name)).Nodup := by
    rw [List.map_append] at nodup
    exact nodup.of_append_left
  have same : (schemaDeclarations c (types.take earlier.length)).length = earlier.length := by
    rw [length_schemaDeclarations front, List.length_take_of_le (Nat.le_of_lt short)]
  obtain ⟨before, behind⟩ := List.append_inj (he.symm.trans h) same
  exact ⟨_, _, _, split.symm, before.symm, (List.cons.inj behind).1.symm⟩

/-- The document of a scope with its schemas as they are before they are printed. -/
def draft (c : OutputContext) (apiVersion : String) (types : List OrderedType) : Json :=
  OpenApi.document (c.view.scope.apiName?.getD "global") apiVersion (components c types)

/-- Around the schemas a document has three levels and texts, which stay. -/
theorem reread?_document (n : Nat) (title apiVersion : String) (schemas : Keyed Json) :
    (OpenApi.document title apiVersion schemas).reread? (n + 3) =
      (Json.rereadMembers? n schemas).map (OpenApi.document title apiVersion) := by
  have members (schemas : Keyed Json) : OpenApi.document title apiVersion schemas =
      .object [("components", .object [("schemas", .object schemas)]),
        ("info", .object [("title", .string title), ("version", .string apiVersion)]),
        ("openapi", .string OpenApi.version)] := by
    simp only [OpenApi.document, Json.ofMembers, Keyed.ofList, List.foldl_cons,
      List.foldl_nil, Keyed.insert, String.reduceLT, String.reduceEq, if_true, if_false]
  rw [members]
  cases h : Json.rereadMembers? n schemas <;>
    simp [members, Json.reread?, Json.rereadMembers?, h]

/-- A document is its draft, printed and read back. -/
theorem document?_eq (c : OutputContext) (apiVersion : String) (types : List OrderedType) :
    document? c apiVersion types = (draft c apiVersion types).reread? (Json.maxNesting + 3) := by
  rw [draft, reread?_document, document?]

theorem outline_document {c : OutputContext} {apiVersion : String} {types : List OrderedType}
    {document : Json} (made : document? c apiVersion types = some document) :
    document.outline = (draft c apiVersion types).outline := by
  rw [document?_eq] at made
  exact Json.outline_of_reread? _ _ made

/-- A document without fractions that is not nested too deep comes about as it was drafted. -/
theorem document?_of_haveFirm {c : OutputContext} {types : List OrderedType}
    (firm : Json.haveFirm Json.maxNesting (components c types) = true) (apiVersion : String) :
    document? c apiVersion types = some (draft c apiVersion types) := by
  rw [document?, Json.rereadMembers?_of_haveFirm _ _ firm]
  rfl

theorem assemble_typescript (c : OutputContext) (types : List OrderedType) :
    typescript.assemble c types = .ok (typescript.preamble c ++ String.intercalate "\n"
      ((typeDeclarations c types).map fun (docs, d) => docs.comment "" ++ d.text c.settings)) := by
  simp only [assemble, typeDeclarations, contexts, List.map_map]
  refine congrArg (Except.ok <| _ ++ String.intercalate "\n" ·)
    (List.map_congr_left fun p _ => ?_)
  exact p.2.listing.declarationText_eq c.settings p.2.name

theorem assemble_zod (c : OutputContext) (types : List OrderedType) :
    zod.assemble c types = .ok (zod.preamble c ++ String.intercalate "\n"
      ((schemaDeclarations c types).map (SchemaDeclaration.text c.settings))) := by
  simp only [assemble, schemaDeclarations, contexts, List.map_map]
  rfl

theorem file_of_ordered (target : Target) (view : View) (s : OutputSettings)
    (ordered : view.registry.ordered view.scope = .ok types) :
    target.file view s = (target.assemble ⟨s, view, []⟩ types).map s.lineEnding.apply := by
  rw [file, ordered]
  change (target.assemble ⟨s, view, []⟩ types).bind _ = _
  cases target.assemble ⟨s, view, []⟩ types <;> rfl

/-- A file of schemas holds the document that they make up, if they make one up. -/
theorem file_openApi (apiVersion : String) (view : View) (s : OutputSettings)
    (ordered : view.registry.ordered view.scope = .ok types) :
    (openApi apiVersion).file view s =
      match document? { settings := s, view } apiVersion types with
      | some document => .ok (s.lineEnding.apply (layOut s document))
      | none => .error .unreadableSchema := by
  rw [file_of_ordered _ _ _ ordered, assemble]
  cases document? { settings := s, view } apiVersion types <;> rfl

/-! ### What is declared -/

variable {r : Registry} {scope : Scope}

theorem mem_of_mem_contexts (nodup : (types.map (·.name)).Nodup)
    {p : OutputContext × OrderedType} (hp : p ∈ contexts c types) : p.2 ∈ types := by
  rw [← map_contexts nodup (c := c)]
  exact List.mem_map_of_mem hp

theorem map_name_contexts (nodup : (types.map (·.name)).Nodup) :
    (contexts c types).map (·.2.name) = types.map (·.name) := by
  conv_rhs => rw [← map_contexts nodup (c := c), List.map_map]
  rfl

/-- What is declared for a listed type has its name. -/
theorem declared_eq (own : OwnNames types) {t : OrderedType} (ht : t ∈ types) :
    (t.listing.declaration c.settings t.name).declared = t.name ∧
      (t.listing.schemaDeclaration c t.name t.recursive).name = t.name := by
  cases hl : t.listing with
  | defined type =>
    have same := own t ht type hl
    exact ⟨(type.declared_declaration c.settings).trans same, same⟩
  | aliasOf target => exact ⟨rfl, rfl⟩

theorem map_declared_typeDeclarations (nodup : (types.map (·.name)).Nodup)
    (own : OwnNames types) :
    (typeDeclarations c types).map (·.2.declared) = types.map (·.name) := by
  rw [typeDeclarations, List.map_map, ← map_name_contexts nodup (c := c)]
  refine List.map_congr_left fun p hp => ?_
  exact (declared_eq own (mem_of_mem_contexts nodup hp)).1

theorem map_name_schemaDeclarations (nodup : (types.map (·.name)).Nodup) (own : OwnNames types) :
    (schemaDeclarations c types).map (·.name) = types.map (·.name) := by
  rw [schemaDeclarations, List.map_map, ← map_name_contexts nodup (c := c)]
  refine List.map_congr_left fun p hp => ?_
  exact (declared_eq own (mem_of_mem_contexts nodup hp)).2

/-- The schemas declared before one have the names that are listed before. -/
theorem map_name_before (nodup : (types.map (·.name)).Nodup) (own : OwnNames types)
    {before after : List OrderedType} (split : types = before ++ after) :
    (schemaDeclarations c before).map (·.name) = before.map (·.name) := by
  have front : before ⊆ types := by simp [split]
  rw [split, List.map_append] at nodup
  exact map_name_schemaDeclarations nodup.of_append_left fun t ht => own t (front ht)

/-- The components are those of the listed names. -/
theorem get?_components (nodup : (types.map (·.name)).Nodup) {name : String} {schema : Json} :
    Keyed.get? (components c types) name = some schema ↔
      ∃ t ∈ types, t.name = name ∧ OpenApi.ofListing c.settings t.listing = schema := by
  have pairs : (contexts c types).map
      (fun p => (p.2.name, OpenApi.ofListing c.settings p.2.listing)) =
      types.map fun t => (t.name, OpenApi.ofListing c.settings t.listing) := by
    conv_rhs => rw [← map_contexts nodup (c := c), List.map_map]
    rfl
  have distinct : (Keyed.keys (types.map fun t =>
      (t.name, OpenApi.ofListing c.settings t.listing))).Nodup := by
    rwa [Keyed.keys, List.map_map]
  rw [components, pairs, Keyed.get?_ofList_of_nodup distinct]
  constructor
  · intro h
    obtain ⟨t, ht, he⟩ := List.mem_map.mp (Keyed.mem_of_get? h)
    exact ⟨t, ht, congrArg Prod.fst he, congrArg Prod.snd he⟩
  · rintro ⟨t, ht, rfl, rfl⟩
    exact Keyed.get?_of_mem distinct (List.mem_map_of_mem ht)

/-- Reading again moves no pointer. -/
theorem closed_document (lists : r.Lists scope types) (known : r.ReachesKnown scope)
    (plain : ∀ p, r.Reached scope p → OpenApi.Plain p.1) {apiVersion : String} {document : Json}
    (made : document? c apiVersion types = some document) : OpenApi.Closed document := by
  have same := outline_document made
  intro name schema part v found within points
  obtain ⟨schema', found', likeSchema⟩ := Json.follow?_of_outline same found
  obtain ⟨part', within', likePart⟩ := within.of_outline likeSchema
  obtain ⟨v', points', likeTarget⟩ := points.of_outline likePart
  rw [draft, OpenApi.follow?_document] at found'
  obtain ⟨t, ht, rfl, rfl⟩ := (get?_components lists.nodup).mp found'
  obtain ⟨dep, hd, rfl⟩ := OpenApi.pointsInto_ofListing c.settings t.listing part' v' within' points'
  obtain ⟨u, hu, rfl⟩ := List.mem_map.mp (lists.mem_of_mem_dependencies known ht hd)
  obtain ⟨earlier, later, he⟩ := List.append_of_mem hu
  obtain ⟨s, reached, -⟩ := lists.listed earlier u later he
  have component : (draft c apiVersion types).follow? ["components", "schemas", u.name] =
      some (OpenApi.ofListing c.settings u.listing) := by
    rw [draft, OpenApi.follow?_document]
    exact (get?_components lists.nodup).mpr ⟨u, hu, rfl, rfl⟩
  obtain ⟨k, placed, -⟩ := Json.follow?_of_outline same.symm component
  refine ⟨u.name, k, Json.eq_string_of_outline likeTarget, placed, ?_⟩
  rw [OpenApi.parse_pointerTo (plain _ reached)]
  exact placed

end Target

open Target

/-- If all dependencies of the names that a scope reaches exist, its files are closed. In a document,
which there is if all schemas can be read back, each pointer leads to a component, `~` and `/`
standing in no name; in a file of types each name that is mentioned is declared once, and so is each
schema in a file of schemas. -/
theorem generated_files_closed (r : Registry) (scope : Scope) (s : OutputSettings)
    (apiVersion : String) (types : List Registry.OrderedType)
    (ordered : r.ordered scope = .ok types) (named : r.Named) (known : r.ReachesKnown scope)
    (plain : ∀ p, r.Reached scope p → OpenApi.Plain p.1) :
    let c : OutputContext := { settings := s, view := ⟨r, scope⟩ }
    ((openApi apiVersion).file c.view s = (match document? c apiVersion types with
        | some document => .ok (s.lineEnding.apply (layOut s document))
        | none => .error .unreadableSchema) ∧
      ∀ document, document? c apiVersion types = some document → OpenApi.Closed document) ∧
    (typescript.file c.view s = .ok (s.lineEnding.apply (typescript.preamble c ++
        String.intercalate "\n"
          ((typeDeclarations c types).map fun (docs, d) => docs.comment "" ++ d.text s))) ∧
      ∀ d ∈ typeDeclarations c types, ∀ name ∈ d.2.names,
        ((typeDeclarations c types).map (·.2.declared)).count name = 1) ∧
    (zod.file c.view s = .ok (s.lineEnding.apply (zod.preamble c ++
        String.intercalate "\n" ((schemaDeclarations c types).map (SchemaDeclaration.text s)))) ∧
      ∀ d ∈ schemaDeclarations c types, ∀ m ∈ d.schema.mentions,
        ((schemaDeclarations c types).map fun d => schemaIdentifier d.name).count
          (schemaIdentifier m.type) = 1) := by
  intro c
  have lists := Registry.lists_of_ordered ordered
  have own := lists.ownNames named
  have file (target : Target) := file_of_ordered target c.view s ordered
  refine ⟨⟨file_openApi apiVersion c.view s ordered, fun document made =>
    closed_document lists known plain made⟩, ⟨?_, ?_⟩, ?_, ?_⟩
  · rw [file, assemble_typescript]
    rfl
  · intro d hd name hn
    obtain ⟨p, hp, rfl⟩ := List.mem_map.mp hd
    have ht := mem_of_mem_contexts lists.nodup hp
    rw [map_declared_typeDeclarations lists.nodup own]
    exact List.count_eq_one_of_mem lists.nodup (lists.mem_of_mem_dependencies known ht
      (p.2.listing.names_declaration_subset s p.2.name hn))
  · rw [file, assemble_zod]
    rfl
  · intro d hd m hm
    obtain ⟨p, hp, rfl⟩ := List.mem_map.mp hd
    have ht := mem_of_mem_contexts lists.nodup hp
    obtain ⟨dep, hdep, rfl⟩ := Registry.Listing.mem_mentions_schemaDeclaration hm
    have identifiers : (schemaDeclarations c types).map (fun d => schemaIdentifier d.name) =
        (types.map (·.name)).map schemaIdentifier := by
      rw [← map_name_schemaDeclarations lists.nodup own (c := c), List.map_map]
      rfl
    rw [identifiers]
    exact List.count_eq_one_of_mem (lists.nodup.map schemaIdentifier_injective)
      (List.mem_map_of_mem (lists.mem_of_mem_dependencies known ht hdep))

def paidBy : Definition :=
  .taggedUnion "type" [{ tag := some "card", definition := .reference "Card" },
    { tag := some "cash",
      definition := .object [{ name := "amount", definition := .scalar .decimal }] }]

def item : Definition :=
  .object [{ name := "color", definition := .namedEnum "Color" },
    { name := "parts", definition := .arrayOf (.reference "Item") }]

def typeOf (name : String) (definition : Definition) : String × Entry :=
  (name, .defined { name, definition })

def market : Registry :=
  { tables := [(.global, [typeOf "Color" (.enumeration ["blue", "red"])]),
      (.api "crm", [recordOf "Customer" []]),
      (.api "market", [("Buyer", .aliasOf (.api "crm") "Customer"),
        typeOf "Card" (.object [{ name := "type", definition := .literal (.string "card") },
          { name := "number", definition := .scalar .string }]),
        typeOf "Item" item,
        typeOf "Order" (.object [{ name := "buyer", definition := .reference "Buyer" },
          { name := "items", definition := .arrayOf (.reference "Item") },
          { name := "payment", definition := paidBy }])])] }

theorem market_named : market.Named := Registry.named_of_entries (by decide +kernel)

theorem market_known : market.Known := Registry.known_of_entries (by decide +kernel)

/-- The market's document has a component for whatever it points to. -/
theorem market_closed :
    let c : OutputContext := { settings := {}, view := ⟨market, .api "market"⟩ }
    ∃ types document, market.ordered (.api "market") = .ok types ∧
      document? c "1.0.0" types = some document ∧ OpenApi.Closed document := by
  intro c
  have plain (p : String × Scope) (hp : market.Reached (.api "market") p) : OpenApi.Plain p.1 := by
    obtain ⟨s, e, he⟩ := Registry.Registered.of_contains hp.contains
    have all : ∀ q ∈ market.entries, OpenApi.Plain q.2 := by decide +kernel
    exact all _ (Registry.mem_entries he)
  have firm : ∃ types, market.ordered (.api "market") = .ok types ∧
      (Json.haveFirm Json.maxNesting (components c types)) = true := ⟨_, rfl, by decide +kernel⟩
  obtain ⟨types, ordered, firm⟩ := firm
  have made := document?_of_haveFirm firm "1.0.0"
  exact ⟨types, _, ordered, made, (generated_files_closed market (.api "market") {} "1.0.0"
    types ordered market_named (market_known.reachesKnown _) plain).1.2 _ made⟩

end ApiContract
