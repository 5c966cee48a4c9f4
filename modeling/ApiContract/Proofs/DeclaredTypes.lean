import ApiContract.Proofs.GeneratedFiles

/-!
# Types in files of schemas

A file of schemas declares types as well. The type of a recursive schema is spelled out in front of
it and annotates it; that of another schema, or of another name, follows it if the settings ask for
inferred types. A type that is spelled out mentions other types, whatever the settings say; so each
type that is mentioned is declared exactly if the settings ask for all types, or those that are
spelled out mention only one another.
-/

namespace ApiContract

namespace Registry.OrderedType

variable (s : OutputSettings) (t : OrderedType)

/-! ### The types beside a schema -/

def spelledOut? : Option TypeDeclaration :=
  match t.listing with
  | .defined type => if t.recursive then some (type.declaration s) else none
  | .aliasOf _ => none

def following? : Option TypeDeclaration :=
  if s.inferredTypes then
    match t.listing with
    | .defined type =>
      if t.recursive then none
      else some (.equation type.name
        (.builtin ("z.infer<typeof " ++ schemaIdentifier type.name ++ ">")))
    | .aliasOf target => some (.ofAlias t.name target)
  else none

def typesBeside : List TypeDeclaration := (t.spelledOut? s).toList ++ (t.following? s).toList

def annotation? : Option String := (t.spelledOut? s).map TypeDeclaration.declared

/-- The registered types that are mentioned beside a schema: in its annotation, and in the types that
are declared there. -/
def typeNames : List String :=
  (t.annotation? s).toList ++ (t.typesBeside s).flatMap TypeDeclaration.names

def schemaText (c : OutputContext) : String :=
  let d := t.listing.schemaDeclaration c t.name t.recursive
  d.docs.comment "" ++ String.join ((t.spelledOut? c.settings).toList.map (·.text c.settings)) ++
    c.settings.style.keyword ++ "const " ++ schemaIdentifier d.name ++
    ((t.annotation? c.settings).map fun name => ": z.ZodType<" ++ name ++ ">").getD "" ++
    " = " ++ d.schemaText c.settings ++ ";\n" ++
    String.join ((t.following? c.settings).toList.map (·.text c.settings))

/-- The text of a declared schema is that of its type, the schema, and the type inferred from it. -/
theorem text_schemaDeclaration (c : OutputContext) :
    (t.listing.schemaDeclaration c t.name t.recursive).text c.settings = t.schemaText c := by
  obtain ⟨name, listing, recursive⟩ := t
  cases listing with
  | defined type =>
    have declared := type.declared_declaration c.settings
    cases recursive <;> cases hi : c.settings.inferredTypes <;>
      simp [schemaText, SchemaDeclaration.text, spelledOut?, following?, annotation?,
        Listing.schemaDeclaration, SchemaDeclaration.ofType, SchemaDeclaration.schemaText, hi,
        declared, TypeDeclaration.text, TypeExpr.text, String.join]
  | aliasOf target =>
    cases hi : c.settings.inferredTypes <;>
      simp [schemaText, SchemaDeclaration.text, spelledOut?, following?, annotation?,
        Listing.schemaDeclaration, SchemaDeclaration.ofAlias, SchemaDeclaration.schemaText, hi,
        TypeDeclaration.ofAlias, TypeDeclaration.text, TypeExpr.text, String.join]

variable {s : OutputSettings} {t : OrderedType}

/-- A type that is spelled out is that of a recursive schema. -/
theorem spelledOut?_eq_some_iff {d : TypeDeclaration} : t.spelledOut? s = some d ↔
    t.recursive = true ∧ ∃ type, t.listing = .defined type ∧ d = type.declaration s := by
  cases hl : t.listing <;> cases hr : t.recursive <;> simp [spelledOut?, hl, hr, eq_comm]

theorem following?_eq_none (off : s.inferredTypes = false) : t.following? s = none := by
  simp [following?, off]

/-- What follows a schema declares its name, and mentions what the name depends on. -/
theorem of_following? {d : TypeDeclaration} (h : t.following? s = some d) :
    (∃ type, t.listing = .defined type ∧ d.declared = type.name ∧ d.names = []) ∨
      ∃ target, t.listing = .aliasOf target ∧ d.declared = t.name ∧ d.names = [target] := by
  unfold following? at h
  split at h
  · split at h
    · rename_i type hl
      split at h
      · cases h
      · cases h
        exact .inl ⟨type, hl, rfl, rfl⟩
    · rename_i target hl
      cases h
      exact .inr ⟨target, hl, rfl, rfl⟩
  · cases h

/-- Types are declared beside a schema if the settings ask for them, or the schema is recursive. -/
theorem typesBeside_ne_nil_iff : t.typesBeside s ≠ [] ↔
    s.inferredTypes = true ∨ t.recursive = true ∧ ∃ type, t.listing = .defined type := by
  cases hl : t.listing <;> cases hr : t.recursive <;> cases hi : s.inferredTypes <;>
    simp [typesBeside, spelledOut?, following?, hl, hr, hi]

/-- The types beside a schema have its name and mention what the name depends on. -/
theorem of_mem_typesBeside (own : ∀ type, t.listing = .defined type → type.name = t.name)
    {d : TypeDeclaration} (hd : d ∈ t.typesBeside s) :
    d.declared = t.name ∧ d.names ⊆ t.listing.dependencies := by
  rw [typesBeside, List.mem_append, Option.mem_toList, Option.mem_toList] at hd
  rcases hd with front | behind
  · obtain ⟨-, type, hl, rfl⟩ := spelledOut?_eq_some_iff.mp front
    rw [hl]
    exact ⟨(type.declared_declaration s).trans (own type hl),
      (Listing.defined type).names_declaration_subset s t.name⟩
  · rcases of_following? behind with ⟨type, hl, declared, names⟩ | ⟨target, hl, declared, names⟩
    · rw [names]
      exact ⟨declared.trans (own type hl), List.nil_subset _⟩
    · rw [names, hl]
      exact ⟨declared, List.Subset.refl _⟩

theorem mem_typeNames_iff {name : String} : name ∈ t.typeNames s ↔
    t.annotation? s = some name ∨ ∃ d ∈ t.typesBeside s, name ∈ d.names := by
  rw [typeNames, List.mem_append, Option.mem_toList, List.mem_flatMap]

/-- Without inferred types, what is mentioned beside a schema is its own type and what that type
mentions, where it is spelled out. -/
theorem mem_typeNames_of_off (off : s.inferredTypes = false) {name : String} :
    name ∈ t.typeNames s ↔
      ∃ d, t.spelledOut? s = some d ∧ (d.declared = name ∨ name ∈ d.names) := by
  rw [mem_typeNames_iff, annotation?, typesBeside, following?_eq_none off]
  cases t.spelledOut? s <;> simp

end Registry.OrderedType

namespace Target

open Registry

variable {s : OutputSettings} {types : List OrderedType} {name : String}

def declaredTypes (s : OutputSettings) (types : List OrderedType) : List String :=
  types.flatMap fun t => (t.typesBeside s).map TypeDeclaration.declared

/-- Whether the type of a name is spelled out in a file of schemas. -/
def SpelledOut (types : List OrderedType) (name : String) : Prop :=
  ∃ t ∈ types, t.name = name ∧ t.recursive = true ∧ ∃ type, t.listing = .defined type

/-- A name is declared if its type stands beside the schema. -/
theorem mem_declaredTypes_iff (own : OwnNames types) :
    name ∈ declaredTypes s types ↔ ∃ t ∈ types, t.name = name ∧ t.typesBeside s ≠ [] := by
  rw [declaredTypes, List.mem_flatMap]
  constructor
  · rintro ⟨t, ht, hn⟩
    obtain ⟨d, hd, rfl⟩ := List.mem_map.mp hn
    exact ⟨t, ht, (OrderedType.of_mem_typesBeside (own t ht) hd).1.symm, List.ne_nil_of_mem hd⟩
  · rintro ⟨t, ht, rfl, some⟩
    obtain ⟨d, hd⟩ := List.exists_mem_of_ne_nil _ some
    exact ⟨t, ht, List.mem_map.mpr ⟨d, hd, (OrderedType.of_mem_typesBeside (own t ht) hd).1⟩⟩

/-- With inferred types, every listed name is declared. -/
theorem mem_declaredTypes_of_on (own : OwnNames types) (on : s.inferredTypes = true)
    (h : name ∈ types.map (·.name)) : name ∈ declaredTypes s types := by
  obtain ⟨t, ht, rfl⟩ := List.mem_map.mp h
  exact (mem_declaredTypes_iff own).mpr
    ⟨t, ht, rfl, OrderedType.typesBeside_ne_nil_iff.mpr (.inl on)⟩

/-- Without them, those are that are spelled out. -/
theorem mem_declaredTypes_of_off (own : OwnNames types) (off : s.inferredTypes = false) :
    name ∈ declaredTypes s types ↔ SpelledOut types name := by
  rw [mem_declaredTypes_iff own, SpelledOut]
  simp only [OrderedType.typesBeside_ne_nil_iff, off, Bool.false_eq_true, false_or]

theorem assemble_zod_types (c : OutputContext) (types : List OrderedType) :
    zod.assemble c types = .ok (zod.preamble c ++ String.intercalate "\n"
      ((contexts c types).map fun (c, t) => t.schemaText c)) := by
  rw [assemble_zod, schemaDeclarations, List.map_map]
  refine congrArg (Except.ok <| _ ++ String.intercalate "\n" ·)
    (List.map_congr_left fun p hp => ?_)
  obtain ⟨q, -, rfl⟩ := List.mem_map.mp hp
  exact OrderedType.text_schemaDeclaration _ _

end Target

open Target

/-- If all dependencies of the names that a scope reaches exist, a file of schemas declares each type
that it mentions (in a type that is spelled out, in the annotation of a schema, or as what another
name stands for) if and only if the settings ask for inferred types, or the types that are spelled
out mention only types that are spelled out as well. -/
theorem schema_file_types_declared_iff (r : Registry) (scope : Scope) (s : OutputSettings)
    (types : List Registry.OrderedType) (ordered : r.ordered scope = .ok types) (named : r.Named)
    (known : r.ReachesKnown scope) :
    let c : OutputContext := { settings := s, view := ⟨r, scope⟩ }
    zod.file c.view s = .ok (s.lineEnding.apply (zod.preamble c ++
        String.intercalate "\n" ((contexts c types).map fun (c, t) => t.schemaText c))) ∧
    ((∀ t ∈ types, ∀ name ∈ t.typeNames s, name ∈ declaredTypes s types) ↔
      s.inferredTypes = true ∨ ∀ t ∈ types, t.recursive = true →
        ∀ type, t.listing = .defined type →
          ∀ name ∈ (type.declaration s).names, SpelledOut types name) := by
  intro c
  have lists := Registry.lists_of_ordered ordered
  have own := lists.ownNames named
  refine ⟨by rw [file_of_ordered zod c.view s ordered, assemble_zod_types]; rfl, ?_⟩
  cases hi : s.inferredTypes with
  | true =>
    refine ⟨fun _ => .inl rfl, fun _ t ht name hn => mem_declaredTypes_of_on own hi ?_⟩
    rcases Registry.OrderedType.mem_typeNames_iff.mp hn with annotated | ⟨d, hd, hn⟩
    · obtain ⟨d, hd, rfl⟩ := Option.map_eq_some_iff.mp annotated
      have beside : d ∈ t.typesBeside s := List.mem_append_left _ (Option.mem_toList.mpr hd)
      rw [(Registry.OrderedType.of_mem_typesBeside (own t ht) beside).1]
      exact List.mem_map_of_mem ht
    · exact lists.mem_of_mem_dependencies known ht
        ((Registry.OrderedType.of_mem_typesBeside (own t ht) hd).2 hn)
  | false =>
    constructor
    · intro declared
      refine .inr fun t ht recursive type hl name hn => ?_
      have spelled : t.spelledOut? s = some (type.declaration s) :=
        Registry.OrderedType.spelledOut?_eq_some_iff.mpr ⟨recursive, type, hl, rfl⟩
      exact (mem_declaredTypes_of_off own hi).mp
        (declared t ht name ((Registry.OrderedType.mem_typeNames_of_off hi).mpr
          ⟨_, spelled, .inr hn⟩))
    · rintro (on | closed) t ht name hn
      · cases on
      obtain ⟨d, spelled, mentioned⟩ := (Registry.OrderedType.mem_typeNames_of_off hi).mp hn
      obtain ⟨recursive, type, hl, rfl⟩ := Registry.OrderedType.spelledOut?_eq_some_iff.mp spelled
      rw [mem_declaredTypes_of_off own hi]
      rcases mentioned with rfl | hn
      · exact ⟨t, ht, ((type.declared_declaration s).trans (own t ht type hl)).symm, recursive, type,
          hl⟩
      · exact closed t ht recursive type hl name hn

/-- In the market's file with inferred types, the colors and the items that the type of items
mentions are declared. -/
theorem market_types_declared :
    ∃ types, market.ordered (.api "market") = .ok types ∧
      (∀ t ∈ types, ∀ name ∈ t.typeNames {}, name ∈ declaredTypes {} types) ∧
      ∃ t ∈ types, "Color" ∈ t.typeNames {} ∧ "Item" ∈ t.typeNames {} := by
  refine ⟨_, rfl, ?_, by decide +kernel⟩
  exact (schema_file_types_declared_iff market (.api "market") {} _ rfl market_named
    (market_known.reachesKnown _)).2.mpr (.inl rfl)

/-- Without inferred types, the colors that the type of items mentions are not declared, although all
names that names of the market depend on exist. -/
theorem market_color_undeclared :
    market.Known ∧ ∃ types, market.ordered (.api "market") = .ok types ∧
      (∃ t ∈ types, "Color" ∈ t.typeNames { inferredTypes := false }) ∧
      "Color" ∉ declaredTypes { inferredTypes := false } types :=
  ⟨market_known, _, rfl, by decide +kernel, by decide +kernel⟩

end ApiContract
