import ApiContract.Proofs.GeneratedFiles
import ApiContract.Proofs.SearchBounds

/-!
# Schemas that can be evaluated in order

A script is evaluated from its first line to its last. A schema that another one mentions directly
has to be declared before; one that is looked up when it is used need not, but then the type of the
schema cannot be inferred and is spelled out. The order of types, the names that are declared so far
and the search for cycles are computed apart; together they see to both.
-/

namespace ApiContract

namespace Registry

variable {r : Registry} {scope : Scope} {types : List OrderedType}

theorem Known.sighted (h : r.Known) : r.Sighted := fun s name _ _ hm _ => h s name _ hm

/-- A listed name depends on what its entry mentions, and each of these is listed before it or leads
back to it. -/
theorem Lists.depends (lists : r.Lists scope types) (known : r.Known)
    {earlier later : List OrderedType} {t : OrderedType} (he : types = earlier ++ t :: later)
    {dep : String} (hd : dep ∈ t.listing.dependencies) :
    r.Depends t.name dep ∧ (dep ∈ earlier.map (·.name) ∨ r.Reaches dep t.name) := by
  obtain ⟨s, -, from_s⟩ := lists.listed earlier t later he
  obtain ⟨found, e, hl, listing⟩ := from_s.listing
  obtain ⟨ds, hm⟩ := exists_mem_dependencies hl listing hd
  have edge : r.Leads (t.name, s) (dep, ds) := ⟨hm, known _ _ _ hm⟩
  exact ⟨edge.depends, from_s.before _ edge⟩

/-- A name that has one entry is listed as that. -/
theorem Lists.listing_eq (lists : r.Lists scope types)
    (once : ∀ x, r.Reachable scope x → r.HeldOnce x) {t : OrderedType} (ht : t ∈ types)
    {holder : Scope} {type : NamedType} (entry : r.entry? holder t.name = some (.defined type)) :
    t.listing = .defined type := by
  obtain ⟨earlier, later, he⟩ := List.append_of_mem ht
  obtain ⟨s, reached, from_s⟩ := lists.listed earlier t later he
  obtain ⟨found, e, hl, listing⟩ := from_s.listing
  have seen := entry_of_lookup hl
  obtain rfl := once t.name reached.reachable _ _ _ _ seen entry
  rw [seen] at entry
  cases entry
  exact (Option.some.inj listing).symm

/-- A name that depends on itself, or on one that leads back to it, is marked. -/
theorem Lists.recursive_of_cycle (lists : r.Lists scope types)
    (once : ∀ x, r.Reachable scope x → r.HeldOnce x) (known : r.Known)
    (marked : MarkedBy (r.recursiveNames scope) types) {t : OrderedType} (ht : t ∈ types)
    {dep : String} (edge : r.Depends t.name dep) (back : r.Reaches dep t.name) :
    t.recursive = true := by
  have cycle : r.OnCycle t.name := .head' edge back
  have reachable := lists.reachable (List.mem_map_of_mem ht)
  rw [marked t ht, List.contains_iff_mem]
  exact mem_recursiveNames_of_onCycle once known.sighted reachable cycle

end Registry

open Target

/-- The declaration of a type that is spelled out, and of its annotated schema. -/
theorem SchemaDeclaration.text_of_explicit (s : OutputSettings) {d : SchemaDeclaration}
    {type : TypeDeclaration} (h : d.explicit = some type) :
    ∃ rest, d.text s = d.docs.comment "" ++ type.text s ++ s.style.keyword ++ "const " ++
      schemaIdentifier d.name ++ ": z.ZodType<" ++ d.name ++ "> = " ++ rest := by
  have annotation : "> = " = ">" ++ " = " := rfl
  rw [text, h, annotation]
  simp only [Option.map_some, Option.getD_some, Option.isSome_some, if_true, String.append_assoc]
  exact ⟨_, rfl⟩

/-- If all names that names depend on exist and no name that is reachable is registered in two
scopes, then the schemas of a file can be evaluated in order. A type mentions the schemas of other
names directly only if they are declared before its own; any other one is its own or that of a name
that leads back to it, and then the type is spelled out and annotates the schema. -/
theorem schemas_declared_usable (r : Registry) (scope : Scope) (s : OutputSettings)
    (types : List Registry.OrderedType) (ordered : r.ordered scope = .ok types) (named : r.Named)
    (known : r.Known) (once : ∀ x, r.Reachable scope x → r.HeldOnce x) :
    let c : OutputContext := { settings := s, view := ⟨r, scope⟩ }
    zod.file c.view s = .ok (s.lineEnding.apply (zod.preamble c ++
        String.intercalate "\n" ((schemaDeclarations c types).map (SchemaDeclaration.text s)))) ∧
    ∀ earlier d later, schemaDeclarations c types = earlier ++ d :: later →
      ∀ holder type, r.entry? holder d.name = some (.defined type) →
      (∀ m ∈ d.schema.mentions, m.deferred = false → m.type ∈ earlier.map (·.name)) ∧
      ∀ m ∈ d.schema.mentions, m.deferred = true →
        r.Reaches m.type type.name ∧
        ∃ rest, d.text s = d.docs.comment "" ++ (type.declaration s).text s ++ s.style.keyword ++
          "const " ++ schemaIdentifier type.name ++ ": z.ZodType<" ++ type.name ++ "> = " ++
            rest := by
  intro c
  have lists := Registry.lists_of_ordered ordered
  refine ⟨?_, ?_⟩
  · rw [file_of_ordered zod c.view s ordered, assemble_zod]
    rfl
  · intro earlier d later split holder type entry
    obtain ⟨before, t, after, he, rfl, rfl⟩ := schemaDeclarations_split lists.nodup split
    have ht : t ∈ types := by simp [he]
    have own := lists.ownNames named
    have called : (schemaAfter c before t).name = t.name := (declared_eq own ht).2
    have names := map_name_before (c := c) lists.nodup own he
    rw [called] at entry
    have listing : t.listing = .defined type := lists.listing_eq once ht entry
    have same : type.name = t.name := named _ _ _ entry
    rw [schemaAfter, listing]
    constructor
    · intro m hm direct
      obtain ⟨dep, -, rfl⟩ := Registry.Listing.mem_mentions_schemaDeclaration hm
      rw [names]
      simpa [SchemaExpr.mentionOf, OutputContext.isEmitted] using (Bool.or_eq_false_iff.mp direct).2
    · intro m hm deferred
      obtain ⟨dep, hd, rfl⟩ := Registry.Listing.mem_mentions_schemaDeclaration hm
      obtain ⟨edge, placed⟩ := lists.depends known he (listing ▸ hd)
      -- a dependency that is listed before is mentioned directly, unless it is the type itself
      have back : r.Reaches dep t.name := by
        rcases Bool.or_eq_true_iff.mp deferred with own | later
        · have own : dep = type.name := beq_iff_eq.mp own
          rw [own, same]
        · have later : dep ∉ before.map (·.name) := by
            simpa [OutputContext.isEmitted] using later
          exact placed.resolve_left later
      have recursive := lists.recursive_of_cycle once known
        (Registry.markedBy_ordered ordered) ht edge back
      have explicit : (Registry.Listing.schemaDeclaration
          { c with emitted := (before.map (·.name)).reverse } t.name t.recursive
          (.defined type)).explicit = some (type.declaration s) := by
        rw [recursive]
        rfl
      exact ⟨same ▸ back, SchemaDeclaration.text_of_explicit s explicit⟩

/-- Items mention the colors directly, which are declared before, and themselves through a deferred
look-up; so their type is declared beside their schema. -/
theorem market_items_usable :
    ∃ types earlier d later rest, market.ordered (.api "market") = .ok types ∧
      schemaDeclarations { settings := {}, view := ⟨market, .api "market"⟩ } types =
        earlier ++ d :: later ∧
      ⟨"Color", false⟩ ∈ d.schema.mentions ∧ "Color" ∈ earlier.map (·.name) ∧
      ⟨"Item", true⟩ ∈ d.schema.mentions ∧
      d.text {} = "export interface Item \x7b\n  color: Color;\n  parts: Item[];\n\x7d\n" ++
        "export const ItemSchema: z.ZodType<Item> = " ++ rest := by
  have front : ({} : Documentation).comment "" ++
      (NamedType.declaration {} { name := "Item", definition := item }).text {} ++
      DeclarationStyle.exported.keyword ++ "const " ++ schemaIdentifier "Item" ++
      ": z.ZodType<" ++ "Item" ++ "> = " =
      "export interface Item \x7b\n  color: Color;\n  parts: Item[];\n\x7d\n" ++
        "export const ItemSchema: z.ZodType<Item> = " := by decide +kernel
  have once (x : String) (_ : market.Reachable (.api "market") x) : market.HeldOnce x :=
    (Registry.registeredOnce_of_nodup (by decide +kernel)).heldOnce x
  obtain ⟨-, usable⟩ := schemas_declared_usable market (.api "market") {} _ rfl market_named
    market_known once
  obtain ⟨direct, deferred⟩ := usable [_, _, _, _] _ [_] rfl (.api "market") _ rfl
  have color := direct ⟨"Color", false⟩ (by decide +kernel) rfl
  obtain ⟨-, rest, text⟩ := deferred ⟨"Item", true⟩ (by decide +kernel) rfl
  refine ⟨_, [_, _, _, _], _, [_], rest, rfl, rfl, ?_, color, ?_, text.trans ?_⟩
  · decide +kernel
  · decide +kernel
  · exact congrArg (· ++ rest) front

end ApiContract
