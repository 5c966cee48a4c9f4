import ApiContract.Proofs.LoadedEntries
import ApiContract.Proofs.NamedConformance
import ApiContract.Proofs.Outcomes
import ApiContract.Proofs.SameDefinitions

/-!
# Response bodies and their types

A resource derives the types of its response bodies, and the bodies are put together apart from
them. A body meets its type if the records meet theirs. The keys of the data about a list are
respelled without a definition; this agrees with the shared type of such data, which holds nothing
but scalars under plain names.
-/

namespace ApiContract

open LoadStep Validation

/-! ### Resources that are registered -/

/-- A resource of a catalog is registered: loading raises no error up to its last type. -/
def Catalog.Registered (catalog : Catalog) (scope : Scope) (r : Resource) : Prop :=
  ∃ front back after, Keyed.values catalog = front ++ r :: back ∧
    ((front ++ [r]).forM fun x => x.registerTypes catalog scope).runOn .raise .empty =
      (.ok (), after)

/-- What an empty registry has become when the types derived from a catalog were registered, as far
as no error stopped it. -/
def Catalog.loaded (catalog : Catalog) (scope : Scope) : Registry :=
  ((catalog.registerAll scope).runOn .raise .empty).2

/-- No type derived in a scope of its own has the name of the data about a list, so that all scopes
share one type of that name. -/
def Catalog.SharesPaginationMeta (catalog : Catalog) (scope : Scope) : Prop :=
  scope = .global ∨ ∀ t, catalog.Derives scope scope t → t.name ≠ Resource.paginationMetaName

namespace Catalog

variable {catalog : Catalog} {scope s : Scope} {r : Resource} {t : NamedType} {n : String}

/-- The names of the types derived from a registered resource stand for types with definitions that
are written alike, whatever became of the resources after it. -/
theorem Registered.defined (h : catalog.Registered scope r)
    (derived : r.Derives catalog scope s t) :
    ∃ t', Registry.entry? (catalog.loaded scope) s t.name = some (.defined t') ∧
      t'.definition.Alike t.definition := by
  obtain ⟨front, back, after, listed, done⟩ := h
  let script (x : Resource) : List LoadStep := x.typeSteps catalog scope
  have follows : Loading.Follows ((front ++ [r]).forM fun x => x.registerTypes catalog scope)
      ((front ++ [r]).flatMap script) () :=
    .forM fun x _ => Resource.follows_registerTypes catalog scope x
  rw [follows.runOn_eq] at done
  have mem : (s, t) ∈ types ((front ++ [r]).flatMap script) := by
    rw [types_flatMap, List.mem_flatMap]
    exact ⟨r, by simp, (Resource.mem_types_iff catalog scope r s t).mpr derived⟩
  obtain ⟨t', here, same⟩ := defined_of_run done mem
  have rest : (catalog.loaded scope) = (run .raise (back.flatMap script) after).2 := by
    have steps : catalog.steps scope = (front ++ [r]).flatMap script ++ back.flatMap script := by
      simp [Catalog.steps, listed, script]
    rw [loaded, (catalog.follows_registerAll scope).runOn_eq, steps, run_append, done]
  rw [rest]
  exact ⟨t', (growsTo_run .raise _ after).entry_of_settled here rfl,
    Definition.alike_of_sameValue same⟩

/-- Types are derived in the scope that is loaded into and in the global one. -/
theorem Derives.scope_eq (h : catalog.Derives scope s t) : s = scope ∨ s = .global := by
  obtain ⟨_, -, derived⟩ := h
  cases derived <;> simp

/-- The shared name has no entry but the global one. -/
theorem SharesPaginationMeta.entry_eq_none (h : catalog.SharesPaginationMeta scope)
    (inner : s ≠ .global) :
    Registry.entry? (catalog.loaded scope) s Resource.paginationMetaName = none := by
  rw [loaded, (catalog.follows_registerAll scope).runOn_eq]
  refine entry_run_eq_none rfl fun t ht => ?_
  have derived := (catalog.mem_types_iff scope s t).mp ht
  obtain rfl := derived.scope_eq.resolve_right inner
  exact h.resolve_left inner t derived

end Catalog

/-! ### Names of a loaded registry -/

theorem View.definition?_of_lookup {v : View} {name : String} {found : Scope} {t : NamedType}
    (h : v.registry.lookup v.scope name = some (found, .defined t)) :
    v.definition? name = some t.definition := by
  rw [definition?, resolve, Registry.resolve_of_lookup h]

/-- A name that no inner scope takes over is looked up globally. -/
theorem Registry.lookup_global {r : Registry} {name : String} {e : Entry}
    (here : r.entry? .global name = some e) (inner : ∀ s, s ≠ .global → r.entry? s name = none)
    (scope : Scope) : r.lookup scope name = some (.global, e) := by
  have api (a : String) : r.entry? (.api a) name = none := inner _ (fun h => by cases h)
  have contract (a c : String) : r.entry? (.contract a c) name = none :=
    inner _ (fun h => by cases h)
  cases scope with
  | global => exact lookup_of_entry here
  | api a => simp only [lookup, Scope.chain, lookupIn, api, here]
  | contract a c => simp only [lookup, Scope.chain, lookupIn, api, contract, here]

/-! ### Conformance of bodies -/

section

variable {c : Context} {d : Definition} {shape : List Field} {j : Json} {name : String}

/-- What conforms to a plain reference conforms to the definition that it refers to. -/
theorem Conforms.exists_of_reference (h : Conforms c [] (.reference name) j) :
    ∃ e, c.view.definition? name = some e ∧ Conforms c [] e j := by
  have present : (j.isNull && takesNull (.reference name)) = false := Bool.and_false _
  exact (conforms_iff [] present).mp h

/-- It conforms to every other definition that refers to the same name. -/
theorem Conforms.of_reference (h : Conforms c [] (.reference name) j)
    (hk : d.kind = .reference name) : Conforms c [] d j := by
  obtain ⟨e, hd, conforms⟩ := h.exists_of_reference
  exact .reference hk hd conforms

/-- An object that is put together from one member for each field conforms if the members do. -/
theorem conforms_ofMembers (hk : d.kind = .object shape) (pairs : List (String × Json))
    (keys : Keyed.keys pairs = shape.map (Field.wireName c.case))
    (distinct : (Keyed.keys pairs).Nodup)
    (members : ∀ f ∈ shape, ∀ m, (f.wireName c.case, m) ∈ pairs → Conforms c [] f.definition m) :
    Conforms c [] d (.ofMembers pairs) := by
  have value (key : String) : Keyed.get? (Keyed.ofList pairs) key = Keyed.get? pairs key :=
    Keyed.get?_ofList_of_nodup distinct key
  refine .object hk ?_ ?_ ?_
  · intro key hkey
    obtain ⟨m, hm⟩ := (Keyed.mem_keys_iff _ _).mp hkey
    rw [value] at hm
    exact .inl (keys ▸ Keyed.mem_keys_of_get? hm)
  · intro f hf m hm
    rw [value] at hm
    exact members f hf m (Keyed.mem_of_get? hm)
  · intro f hf none
    rw [value, Keyed.get?_eq_none_iff, keys] at none
    exact absurd (List.mem_map_of_mem hf) none

/-! ### Keys that are respelled at every depth -/

namespace KeyCase

theorem applyMembers_eq_map (case : KeyCase) (ms : List (String × Json)) :
    case.applyMembers ms = ms.map fun p => (case.apply p.1, case.applyDeep p.2) := by
  induction ms with
  | nil => rfl
  | cons p rest ih =>
    obtain ⟨key, j⟩ := p
    rw [applyMembers, ih, List.map_cons]

theorem applyElements_eq_map (case : KeyCase) (js : List Json) :
    case.applyElements js = js.map case.applyDeep := by
  induction js with
  | nil => rfl
  | cons j rest ih => rw [applyElements, ih, List.map_cons]

theorem applyDeep_of_isLeaf (case : KeyCase) (h : j.isLeaf = true) : case.applyDeep j = j := by
  cases j <;> first | rfl | cases h

/-- Where keys are preserved a value in order stays as it is. -/
theorem applyDeep_preserve (ordered : j.Ordered) : preserve.applyDeep j = j := by
  induction ordered with
  | leaf h => exact applyDeep_of_isLeaf _ h
  | array h ih =>
    rw [applyDeep, applyElements_eq_map]
    exact congrArg Json.array ((List.map_congr_left ih).trans (List.map_id' _))
  | @object members sorted h ih =>
    have same : preserve.applyMembers members = members := by
      rw [applyMembers_eq_map]
      refine (List.map_congr_left fun p hp => ?_).trans (List.map_id members)
      rw [apply_preserve, ih p.1 p.2 (Keyed.get?_of_mem sorted.nodup hp)]
      rfl
    rw [applyDeep, same]
    exact congrArg Json.object <|
      (Keyed.sorted_ofList _).ext sorted (Keyed.get?_ofList_of_nodup sorted.nodup)

/-- What respelling makes of an object is read back as that object, if its keys stay apart and its
members are read back. -/
theorem readAs_applyDeep {case : KeyCase} {ms : Keyed Json}
    (apart : (ms.keys.map case.apply).Nodup)
    (below : ∀ key j, ms.get? key = some j → (case.applyDeep j).ReadAs case j) :
    (case.applyDeep (.object ms)).ReadAs case (.object ms) := by
  let pairs : List (String × Json) := case.applyMembers ms
  have keys : Keyed.keys pairs = ms.keys.map case.apply := by
    simp [pairs, applyMembers_eq_map, Keyed.keys, Function.comp_def]
  have value (key : String) : Keyed.get? (Keyed.ofList pairs) key = Keyed.get? pairs key :=
    Keyed.get?_ofList_of_nodup (keys ▸ apart) key
  have moved {key : String} {j : Json} (h : ms.get? key = some j) :
      Keyed.get? (Keyed.ofList pairs) (case.apply key) = some (case.applyDeep j) := by
    rw [value]
    refine Keyed.get?_of_mem (keys ▸ apart) ?_
    rw [show pairs = _ from applyMembers_eq_map case ms]
    exact List.mem_map_of_mem (Keyed.mem_of_get? h)
  refine .object ?_ ?_ ?_
  · intro key hkey
    obtain ⟨j, hj⟩ := (Keyed.mem_keys_iff _ _).mp hkey
    exact Keyed.mem_keys_of_get? (moved hj)
  · intro wire hwire
    obtain ⟨j, hj⟩ := (Keyed.mem_keys_iff _ _).mp hwire
    have mem := Keyed.mem_keys_of_get? (value wire ▸ hj)
    rw [keys] at mem
    exact List.mem_map.mp mem
  · intro key x y hx hy
    rw [moved hy] at hx
    cases hx
    exact below key y hy

end KeyCase

/-- A scalar of a known kind has no keys, so it conforms in every key case. -/
theorem Conforms.of_scalar {kind : ScalarKind} (known : kind ≠ .unknown)
    (hk : d.kind = .scalar kind) (h : Conforms c.byName [] d j) :
    j.isLeaf = true ∧ Conforms c [] d j := by
  cases h with
  | null hn => exact ⟨rfl, .null hn⟩
  | scalar hk' hn meets =>
    rw [hk] at hk'
    cases hk'
    exact ⟨isLeaf_of_hasKind known meets.ofKind, .scalar hk hn meets⟩
  | reference hk' | object hk' | array hk' | shapes hk' | tagged hk' | untagged hk' | literal hk' =>
    simp [hk] at hk'

/-- Data that conform by name to a shape of scalars conform to it when all their keys are respelled,
where no field is renamed and the fields are spelled apart. -/
theorem conforms_applyDeep (hk : d.kind = .object shape) (unrenamed : ∀ f ∈ shape, f.rename = none)
    (apart : (shape.map (Field.wireName c.case)).Nodup)
    (scalars : ∀ f ∈ shape, ∃ kind, kind ≠ .unknown ∧ f.definition.kind = .scalar kind)
    (ordered : j.Ordered) (h : Conforms c.byName [] d j) :
    Conforms c [] d (c.case.applyDeep j) := by
  have scalar {f : Field} (hf : f ∈ shape) {m : Json} (hm : Conforms c.byName [] f.definition m) :
      m.isLeaf = true ∧ Conforms c [] f.definition m := by
    obtain ⟨kind, known, kinds⟩ := scalars f hf
    exact hm.of_scalar known kinds
  cases h with
  | null hn => exact .null hn
  | @object _ _ _ members hk' known present absent =>
    rw [hk] at hk'
    cases hk'
    -- the keys are names of fields, so they are spelled apart like these
    have named : ∀ key ∈ members.keys, ∃ f ∈ shape, f.name = key := by
      intro key hkey
      obtain ⟨f, hf, rfl⟩ := List.mem_map.mp ((known key hkey).resolve_right nofun)
      exact ⟨f, hf, (Field.wireName_preserve (unrenamed f hf)).symm⟩
    have distinct : (members.keys.map c.case.apply).Nodup := by
      refine List.Nodup.map_on ?_ ordered.sorted.nodup
      intro key hkey key' hkey' same
      obtain ⟨f, hf, rfl⟩ := named key hkey
      obtain ⟨g, hg, rfl⟩ := named key' hkey'
      rw [← Field.wireName_of_unrenamed (unrenamed f hf),
        ← Field.wireName_of_unrenamed (unrenamed g hg)] at same
      rw [List.inj_on_of_nodup_map apart hf hg same]
    have read : (c.case.applyDeep (.object members)).ReadAs c.case (.object members) := by
      refine KeyCase.readAs_applyDeep distinct fun key m hm => ?_
      obtain ⟨f, hf, rfl⟩ := named key (Keyed.mem_keys_of_get? hm)
      have wire : f.wireName c.byName.case = f.name := Field.wireName_preserve (unrenamed f hf)
      obtain ⟨leaf, -⟩ := scalar hf (present f hf m (by rw [wire, hm]))
      rw [KeyCase.applyDeep_of_isLeaf _ leaf]
      exact .leaf leaf
    have meets : MeetsShape .preserve [] (Conforms c.byName []) shape members :=
      ⟨known, present, absent⟩
    have respelled := meets.of_readAs unrenamed apart nofun read
    refine .object hk respelled.known ?_ respelled.absent
    intro f hf m hm
    obtain ⟨p, hread, hp⟩ := respelled.present f hf m hm
    obtain ⟨leaf, conforms⟩ := scalar hf hp
    rw [hread.eq_of_isLeaf leaf]
    exact conforms
  | reference hk' | array hk' | shapes hk' | tagged hk' | untagged hk' | literal hk' | scalar hk' =>
    simp [hk] at hk'

/-! ### Data about a list -/

theorem Field.Alike.wireName_eq {f g : Field} (h : f.Alike g) (case : KeyCase) :
    f.wireName case = g.wireName case := by
  rw [wireName, wireName, h.name, h.rename]

theorem Field.map_wireName_of_alike {fs gs : List Field} (h : List.Forall₂ Field.Alike fs gs)
    (case : KeyCase) : fs.map (Field.wireName case) = gs.map (Field.wireName case) := by
  induction h with
  | nil => rfl
  | cons alike _ ih => rw [List.map_cons, List.map_cons, ih, alike.wireName_eq]

/-- Whatever is written like the shared type of data about a list accepts respelled what it accepts
by name. -/
theorem conforms_paginationMeta (alike : d.Alike Resource.paginationMeta) (ordered : j.Ordered)
    (h : Conforms c.byName [] d j) : Conforms c [] d (c.case.applyDeep j) := by
  obtain ⟨shape, hk, fields⟩ := alike.kind.eq_object
  have plain {f : Field} (hf : f ∈ shape) :
      f.rename = none ∧ f.definition.kind = .scalar .integer := by
    obtain ⟨g, hg, same⟩ := exists_of_forall₂ fields hf
    have own : g.rename = none ∧ g.definition.kind = .scalar .integer := by
      simp only [List.mem_cons, List.not_mem_nil, or_false] at hg
      rcases hg with rfl | rfl | rfl | rfl | rfl <;> exact ⟨rfl, rfl⟩
    have kinds := same.definition.kind
    rw [own.2] at kinds
    exact ⟨same.rename.trans own.1, kinds.eq_scalar⟩
  have apart : (shape.map (Field.wireName c.case)).Nodup := by
    rw [Field.map_wireName_of_alike fields]
    cases c.case <;> decide +kernel
  exact conforms_applyDeep hk (fun f hf => (plain hf).1) apart
    (fun f hf => ⟨.integer, nofun, (plain hf).2⟩) ordered h

theorem KeyCase.apply_meta (case : KeyCase) : case.apply "meta" = "meta" := by
  cases case <;> decide +kernel

/-! ### Bodies of responses -/

namespace Catalog.Registered

variable {catalog : Catalog} {scope : Scope} {r : Resource}

/-- The names of the types of a registered resource, as they are seen from its scope. -/
theorem named (h : catalog.Registered scope r)
    (view : c.view = { registry := catalog.loaded scope, scope }) {t : NamedType}
    (derived : r.Derives catalog scope scope t) :
    ∃ e, c.view.definition? t.name = some e ∧ e.Alike t.definition := by
  obtain ⟨t', here, alike⟩ := h.defined derived
  have seen : c.view.registry.lookup c.view.scope t.name = some (scope, .defined t') := by
    rw [view]
    exact Registry.lookup_of_entry here
  exact ⟨t'.definition, View.definition?_of_lookup seen, alike⟩

/-- Data about a list that conform by name conform respelled, unless the scope has a type of its own
under the shared name and keys do change. -/
theorem conforms_about (h : catalog.Registered scope r)
    (view : c.view = { registry := catalog.loaded scope, scope }) (ordered : j.Ordered)
    (plain : Conforms c.byName [] (.reference Resource.paginationMetaName) j)
    (respelled : c.case = .preserve ∨ catalog.SharesPaginationMeta scope) :
    Conforms c [] (.reference Resource.paginationMetaName) (c.case.applyDeep j) := by
  rcases respelled with preserved | shared
  · have same : c.byName = c := congrArg (Context.mk c.view) preserved.symm
    rw [preserved, KeyCase.applyDeep_preserve ordered, ← same]
    exact plain
  · obtain ⟨t, here, alike⟩ := h.defined .paginationMeta
    have seen : c.view.registry.lookup c.view.scope Resource.paginationMetaName =
        some (.global, .defined t) := by
      rw [view]
      exact Registry.lookup_global here (fun s inner => shared.entry_eq_none inner) scope
    have single := View.definition?_of_lookup seen
    obtain ⟨e, same, conforms⟩ := plain.exists_of_reference
    obtain rfl : e = t.definition := Option.some.inj (same.symm.trans single)
    exact .reference rfl single (conforms_paginationMeta alike ordered conforms)

end Catalog.Registered

theorem conforms_of_accepts (h : c.accepts d j = true) : Conforms c [] d j :=
  conforms_of_cleanBy ((acceptsWithin_iff c (nestingLimit + 1) d j).mp h)

/-- A list of records conforms to whatever is written like a list of references to their type. -/
theorem conforms_list (alike : d.Alike (.arrayOf (.reference name))) {items : List Json}
    (each : ∀ item ∈ items, Conforms c [] (.reference name) item) :
    Conforms c [] d (.array items) := by
  obtain ⟨element, hk, same⟩ := alike.kind.eq_arrayOf
  have unbounded : d.Counts items := fun _ _ =>
    ⟨by simp [alike.min rfl], by simp [alike.max rfl]⟩
  exact .array hk unbounded fun item hi => (each item hi).of_reference same.kind.eq_reference

/-- A body with one record. -/
theorem conforms_member {r : Resource} (alike : d.Alike r.responseType.definition)
    (record : Conforms c [] (.reference r.name) j) :
    Conforms c [] d (.object [(c.case.apply r.rootKey.singular, j)]) := by
  obtain ⟨shape, hk, fields⟩ := alike.kind.eq_object
  cases fields with
  | @cons f _ _ _ own none =>
    cases none
    have wire : f.wireName c.case = c.case.apply r.rootKey.singular := own.wireName_eq c.case
    refine conforms_ofMembers hk [(c.case.apply r.rootKey.singular, j)] ?_ ?_ ?_
    · rw [List.map_singleton, wire]
      rfl
    · exact List.nodup_singleton _
    · intro g hg m hm
      obtain rfl := List.mem_singleton.mp hg
      rw [wire] at hm
      cases List.mem_singleton.mp hm
      exact record.of_reference own.definition.kind.eq_reference

/-- A body with a list of records and the data about it. -/
theorem conforms_collection {r : Resource} (alike : d.Alike r.collectionResponseType.definition)
    (apart : c.case.apply r.rootKey.plural ≠ "meta") {items : List Json}
    (records : ∀ item ∈ items, Conforms c [] (.reference r.name) item)
    (about : Conforms c [] (.reference Resource.paginationMetaName) j) :
    Conforms c [] d (.ofMembers [(c.case.apply r.rootKey.plural, .array items), ("meta", j)]) := by
  obtain ⟨shape, hk, fields⟩ := alike.kind.eq_object
  cases fields with
  | @cons f _ _ _ list rest =>
    cases rest with
    | @cons g _ _ _ data none =>
      cases none
      have wire : f.wireName c.case = c.case.apply r.rootKey.plural := list.wireName_eq c.case
      have wire' : g.wireName c.case = "meta" := (data.wireName_eq c.case).trans c.case.apply_meta
      refine conforms_ofMembers hk _ ?_ ?_ ?_
      · simp [Keyed.keys, wire, wire']
      · simpa [Keyed.keys] using apart
      · intro e he m hm
        simp only [List.mem_cons, List.not_mem_nil, or_false, Prod.mk.injEq] at he hm
        rcases he with rfl | rfl <;> rcases hm with ⟨spelled, rfl⟩ | ⟨spelled, rfl⟩
        · exact conforms_list list.definition records
        · exact absurd (wire.symm.trans spelled) apart
        · exact absurd (spelled.symm.trans wire') apart
        · exact about.of_reference data.definition.kind.eq_reference

end

/-- A payload is accepted, unless its walk is cut off at the nesting limit. -/
def Context.AcceptsShallow (c : Context) (d : Definition) (j : Json) : Prop :=
  (∀ k, Descends c d j k → k ≤ nestingLimit) → c.accepts d j = true

theorem Conforms.acceptsShallow {c : Context} {d : Definition} {j : Json} (h : Conforms c [] d j) :
    c.AcceptsShallow d j :=
  fun shallow => List.isEmpty_iff.mpr ((validate_issues_eq_nil_iff_conforms c d j shallow).mpr h)

theorem Context.AcceptsShallow.accepts {c : Context} {d : Definition} {j : Json}
    (h : c.AcceptsShallow d j) (ends : c.endsWithin (nestingLimit + 1) d j = true) :
    c.accepts d j = true :=
  h fun _ walk => Nat.le_of_lt_succ (walk.lt_of_endsWithin ends)

namespace Exchange

variable {x : Exchange} {d : Definition} {typeName rootKey : String}

theorem serializeMember_of_ok {record wire : Json}
    (h : x.serializeRecord d typeName record = .ok wire) :
    x.serializeMember d typeName rootKey record =
      .ok (.object [((x.config.keyCaseFor .responseBody).apply rootKey, wire)]) := by
  rw [serializeMember, h]
  rfl

theorem serializeCollection_of_ok {records items : List Json} (about : Json)
    (h : records.mapM (x.serializeRecord d typeName) = .ok items) :
    x.serializeCollection d typeName rootKey records (some about) =
      .ok (.ofMembers [((x.config.keyCaseFor .responseBody).apply rootKey, .array items),
        ("meta", (x.config.keyCaseFor .responseBody).applyDeep about)]) := by
  rw [serializeCollection, h]
  rfl

end Exchange

/-- The bodies of responses meet the types that a registered resource derives for them, in every key
case: one with a record that meets its type, and one with a list of such records and data about it
that meet their type by name. A body with a list needs its plural root key apart from `meta`, and,
where keys are respelled, no other type may have the name of the shared one. -/
theorem response_bodies_accepted (catalog : Catalog) (scope : Scope) (r : Resource)
    (registered : catalog.Registered scope r) (x : Exchange)
    (view : x.view = { registry := catalog.loaded scope, scope }) (d : Definition)
    (typeName : String) :
    (∀ record wire, x.serializeRecord d typeName record = .ok wire →
      (x.context .responseBody).accepts (.reference r.name) wire = true →
      ∃ body, x.serializeMember d typeName r.rootKey.singular record = .ok body ∧
        (x.context .responseBody).AcceptsShallow (.reference r.responseName) body) ∧
    (∀ records about,
      (∀ record ∈ records, ∃ wire, x.serializeRecord d typeName record = .ok wire ∧
        (x.context .responseBody).accepts (.reference r.name) wire = true) →
      about.Ordered →
      (x.context .responseBody).byName.accepts (.reference Resource.paginationMetaName) about =
        true →
      (x.context .responseBody).case.apply r.rootKey.plural ≠ "meta" →
      (x.context .responseBody).case = .preserve ∨ catalog.SharesPaginationMeta scope →
      ∃ body, x.serializeCollection d typeName r.rootKey.plural records (some about) = .ok body ∧
        (x.context .responseBody).AcceptsShallow (.reference r.collectionResponseName) body) := by
  have seen : (x.context .responseBody).view = { registry := catalog.loaded scope, scope } := view
  constructor
  · intro record wire serialized accepted
    obtain ⟨e, found, alike⟩ := registered.named seen .response
    refine ⟨_, Exchange.serializeMember_of_ok serialized, Conforms.acceptsShallow ?_⟩
    exact .reference rfl found (conforms_member alike (conforms_of_accepts accepted))
  · intro records about each ordered accepted apart respelled
    obtain ⟨items, serialized, meet⟩ := Except.exists_mapM_ok each
    obtain ⟨e, found, alike⟩ := registered.named seen .collectionResponse
    have data := registered.conforms_about seen ordered (conforms_of_accepts accepted) respelled
    refine ⟨_, Exchange.serializeCollection_of_ok about serialized, Conforms.acceptsShallow ?_⟩
    exact .reference rfl found (conforms_collection alike apart
      (fun item hi => conforms_of_accepts (meet item hi)) data)

def page : Json :=
  .object [("current_page", .int 2), ("next_page", .null), ("prev_page", .int 1),
    ("total_count", .int 11), ("total_pages", .int 2)]

theorem page_ordered : page.Ordered := Json.ordered_of_leaves (by decide) (by decide)

def meterReading : Resource where
  name := "Reading"
  attributes := [{ name := "taken_on", definition := .scalar .date }]

def meters : Catalog := [("Reading", meterReading)]

def meterExchange : Exchange where
  view := { registry := meters.loaded (.api "meters"), scope := .api "meters" }
  config := { keyCase := .camel }

def meterContext : Context := meterExchange.context .responseBody

def reading : Json := .object [("taken_on", .string "2024-02-29")]

/-- A reading and a page of readings are sent as their types say. -/
theorem readings_accepted : ∃ body list,
    meterExchange.serializeMember (.reference "Reading") "Reading" "reading" reading = .ok body ∧
    meterExchange.serializeCollection (.reference "Reading") "Reading" "readings" [reading]
      (some page) = .ok list ∧
    meterContext.accepts (.reference "ReadingResponse") body = true ∧
    meterContext.accepts (.reference "ReadingCollectionResponse") list = true := by
  have registered : meters.Registered (.api "meters") meterReading :=
    ⟨[], [], _, rfl, Loading.runOn_of_isOk (by decide +kernel)⟩
  have shared : meters.SharesPaginationMeta (.api "meters") := by
    have other : ∀ p ∈ types (meters.steps (.api "meters")), p.1 = .api "meters" →
        p.2.name ≠ Resource.paginationMetaName := by decide +kernel
    exact .inr fun t derived => other _ ((meters.mem_types_iff _ _ t).mpr derived) rfl
  obtain ⟨member, collection⟩ := response_bodies_accepted meters (.api "meters") meterReading
    registered meterExchange rfl (.reference "Reading") "Reading"
  have singular : meterReading.rootKey.singular = "reading" := by decide +kernel
  have plural : meterReading.rootKey.plural = "readings" := by decide +kernel
  have response : meterReading.responseName = "ReadingResponse" := by decide +kernel
  have collectionResponse : meterReading.collectionResponseName = "ReadingCollectionResponse" := by
    decide +kernel
  rw [singular, response] at member
  rw [plural, collectionResponse] at collection
  obtain ⟨wire, serialized, accepted⟩ :=
    Except.exists_ok_of_any (x := meterExchange.serializeRecord (.reference "Reading") "Reading" reading)
      (p := meterContext.accepts (.reference "Reading")) (by decide +kernel)
  obtain ⟨body, sent, whole⟩ := member reading wire serialized accepted
  obtain ⟨list, listed, whole'⟩ := collection [reading] page
    (List.forall_mem_singleton.mpr ⟨wire, serialized, accepted⟩) page_ordered (by decide +kernel)
    (by decide +kernel) (.inr shared)
  have ended {outcome : Except ExchangeError Json} {type : String} {j : Json}
      (sent : outcome = .ok j)
      (h : outcome.toOption.any (meterContext.endsWithin (nestingLimit + 1) (.reference type)) =
        true) : meterContext.endsWithin (nestingLimit + 1) (.reference type) j = true := by
    obtain ⟨_, same, ends⟩ := Except.exists_ok_of_any h
    obtain rfl := Except.ok.inj (sent.symm.trans same)
    exact ends
  exact ⟨body, list, sent, listed, whole.accepts (ended sent (by decide +kernel)),
    whole'.accepts (ended listed (by decide +kernel))⟩

def auditSize : Field where
  name := "size"
  rename := some "page_size"
  definition := .scalar .integer

def auditPage : Resource where
  name := "PaginationMeta"
  attributes := [{ name := "window", definition := .object [auditSize] }]

def audits : Catalog := [("PaginationMeta", auditPage)]

def auditExchange (case : KeyCase) : Exchange where
  view := { registry := audits.loaded (.api "audit"), scope := .api "audit" }
  config := { keyCase := case }

def auditContext (case : KeyCase) : Context := (auditExchange case).context .responseBody

def auditWindow : Json := .object [("window", .object [("page_size", .int 50)])]

/-- A list is refused, although the data about it meet by name the type that has the shared name in
the scope, or the shared type. -/
theorem audits_refused :
    audits.Registered (.api "audit") auditPage ∧
      (auditContext .camel).byName.accepts (.reference "PaginationMeta") auditWindow = true ∧
      Context.accepts ⟨⟨audits.loaded (.api "audit"), .global⟩, .preserve⟩
        (.reference "PaginationMeta") page = true ∧
      ∀ p ∈ [(KeyCase.camel, auditWindow), (KeyCase.preserve, page)], p.2.Ordered ∧
        p.1.apply auditPage.rootKey.plural ≠ "meta" ∧
        ∃ body, (auditExchange p.1).serializeCollection (.reference "PaginationMeta")
            "PaginationMeta" auditPage.rootKey.plural [] (some p.2) = .ok body ∧
          (∀ k, Descends (auditContext p.1) (.reference "PaginationMetaCollectionResponse") body k →
            k ≤ nestingLimit) ∧
          (auditContext p.1).accepts (.reference "PaginationMetaCollectionResponse") body =
            false := by
  have registered : audits.Registered (.api "audit") auditPage :=
    ⟨[], [], _, rfl, Loading.runOn_of_isOk (by decide +kernel)⟩
  have window : auditWindow.Ordered := by
    refine .object (by decide) fun key m hm => ?_
    obtain rfl : m = .object [("page_size", .int 50)] := by
      cases List.mem_singleton.mp (Keyed.mem_of_get? hm)
      rfl
    exact Json.ordered_of_leaves (by decide) (by decide)
  have refused {outcome : Except ExchangeError Json} {c : Context} {d : Definition}
      (h : outcome.toOption.any (fun body => c.endsWithin (nestingLimit + 1) d body &&
        !c.accepts d body) = true) :
      ∃ body, outcome = .ok body ∧ (∀ k, Descends c d body k → k ≤ nestingLimit) ∧
        c.accepts d body = false := by
    obtain ⟨body, sent, found⟩ := Except.exists_ok_of_any h
    obtain ⟨ends, refusal⟩ := Bool.and_eq_true_iff.mp found
    exact ⟨body, sent, fun k walk => Nat.le_of_lt_succ (walk.lt_of_endsWithin ends),
      by simpa using refusal⟩
  refine ⟨registered, by decide +kernel, by decide +kernel, List.forall_mem_cons.mpr
    ⟨⟨window, by decide +kernel, refused (by decide +kernel)⟩, List.forall_mem_singleton.mpr
    ⟨page_ordered, by decide +kernel, refused (by decide +kernel)⟩⟩⟩

end ApiContract
