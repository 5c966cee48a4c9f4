import ApiContract.Proofs.KeyOrder
import ApiContract.Schema.Codec

/-!
# The members of written definitions

A definition is written as the members of an object, between those of what holds it. `WrittenIn`
says what stands under each key of such an object. It is all that reading asks for, so a definition
is read back from every object it is written in, if no default or example in it is `null`.
-/

namespace ApiContract

/-! ### Look-ups in written members -/

namespace Keyed

variable {α : Type}

theorem get?_union (t pairs : Keyed α) (key : String) :
    get? (union t pairs) key = (get? (ofList pairs) key).or (get? t key) := by
  induction pairs generalizing t with
  | nil => rfl
  | cons p rest ih =>
    have first (u : Keyed α) : union u (p :: rest) = union (insert p.1 p.2 u) rest := rfl
    have alone : ofList (p :: rest) = union (insert p.1 p.2 []) rest := rfl
    rw [first, alone, ih, ih, Option.or_assoc, get?_insert, get?_insert]
    split <;> simp

@[simp] theorem get?_ofList_nil (key : String) :
    get? (ofList ([] : List (String × α))) key = none :=
  rfl

@[simp] theorem get?_ofList_append (pairs more : List (String × α)) (key : String) :
    get? (ofList (pairs ++ more)) key = (get? (ofList more) key).or (get? (ofList pairs) key) := by
  have split : ofList (pairs ++ more) = union (ofList pairs) more := List.foldl_append
  rw [split, get?_union]

@[simp] theorem get?_ofList_cons (k : String) (v : α) (rest : List (String × α)) (key : String) :
    get? (ofList ((k, v) :: rest)) key =
      (get? (ofList rest) key).or (if key = k then some v else none) := by
  have alone : get? (ofList [(k, v)]) key = if key = k then some v else none := by
    have inserted : ofList [(k, v)] = insert k v [] := rfl
    rw [inserted, get?_insert, get?_nil]
  rw [← alone]
  exact get?_ofList_append [(k, v)] rest key

@[simp] theorem get?_ofList_ite (p : Prop) [Decidable p] (pairs more : List (String × α))
    (key : String) : get? (ofList (if p then pairs else more)) key =
      if p then get? (ofList pairs) key else get? (ofList more) key := by
  split <;> rfl

end Keyed

namespace Json

@[simp] theorem get?_ofList_present (k : String) (value : Option Json) (key : String) :
    Keyed.get? (Keyed.ofList (present k value)) key = if key = k then value else none := by
  cases value with
  | none => simp [present]
  | some v => simp [present]

@[simp] theorem get?_ofList_flagged (k : String) (flag : Bool) (key : String) :
    Keyed.get? (Keyed.ofList (flagged k flag)) key =
      if key = k ∧ flag = true then some (.bool true) else none := by
  cases flag <;> simp [flagged]

variable {α : Type} {ms : Keyed Json} {key : String}

/-- A flag is read from a member that is there only if it is set. -/
theorem defaulted_flag {flag : Bool}
    (h : ms.get? key = if flag = true then some (.bool true) else none) :
    defaulted ms key false bool? = some flag := by
  cases flag <;> simp [defaulted, h, bool?]

/-- What may be missing is read from a member that is there only if it is not missing. -/
theorem optional_map {write : α → Json} {read : Json → Option α} {x : Option α}
    (h : ms.get? key = x.map write) (back : ∀ a, x = some a → read (write a) = some a)
    (spoken : ∀ a, x = some a → write a ≠ .null) : optional ms key read = some x := by
  cases x with
  | none => simp [optional, h]
  | some a =>
    have value : ms.get? key = some (write a) := h
    rw [optional, value]
    split
    · rename_i none
      cases none
    · rename_i null
      exact absurd (Option.some.inj null) (spoken a rfl)
    · rename_i same
      obtain rfl := Option.some.inj same
      rw [back a rfl]
      rfl

/-- A value that is no `null` is read as it is, and so is a missing one. -/
theorem optional_any {x : Option Json} (h : ms.get? key = x) (spoken : x ≠ some .null) :
    optional ms key any? = some x := by
  rw [optional, h]
  split
  · rfl
  · contradiction
  · rfl

theorem required_eq {read : Json → Option α} {j : Json} {a : α} (h : ms.get? key = some j)
    (back : read j = some a) : required ms key read = some a := by
  rw [required, h]
  exact back

theorem required_string {s : String} (h : ms.get? key = some (.string s)) :
    required ms key string? = some s := required_eq h rfl

theorem optional_string {s : Option String} (h : ms.get? key = s.map .string) :
    optional ms key string? = some s := optional_map h (fun _ _ => rfl) nofun

@[simp] theorem strings?_strings (xs : List String) : (Json.strings xs).strings? = some xs := by
  have each : (xs.map Json.string).mapM string? = some xs := by
    induction xs with
    | nil => rfl
    | cons x rest ih => simp [List.mapM_cons, string?, ih]
  exact each

end Json

@[simp] theorem Allowed.ofJson?_toJson (a : Allowed) : ofJson? a.toJson = some a := by
  cases a with
  | inline values =>
    have listed : ofJson? (Json.strings values) = (Json.strings values).strings?.map inline := rfl
    rw [toJson, listed, Json.strings?_strings]
    rfl
  | named type => rfl

/-! ### Objects that a definition is written in -/

def Kind.memberKeys : List String :=
  ["type", "items", "shape", "variants", "discriminator", "to", "value"]

def Definition.memberKeys : List String :=
  Kind.memberKeys ++ ["nullable", "optional", "format", "min", "max", "enum", "default", "decode",
    "encode", "description", "example", "deprecated"]

/-- An object holds a kind, if its members under the keys of that kind are as they are written. -/
def Kind.WrittenIn (ms : Keyed Json) : Kind → Prop
  | .scalar kind => ms.get? "type" = some (.string kind.name)
  | .array items => ms.get? "type" = some (.string "array") ∧ ms.get? "items" = some items.toJson
  | .object shape =>
    ms.get? "type" = some (.string "object") ∧
      ms.get? "shape" = some (.array (Field.listToJson shape))
  | .union discriminator variants =>
    ms.get? "type" = some (.string "union") ∧
      ms.get? "variants" = some (.array (Variant.listToJson variants)) ∧
      ms.get? "discriminator" = discriminator.map .string
  | .reference target =>
    ms.get? "type" = some (.string "reference") ∧ ms.get? "to" = some (.string target)
  | .literal value => ms.get? "type" = some (.string "literal") ∧ ms.get? "value" = some value

/-- What an object holds in which a definition is written, perhaps beside other members. -/
structure Definition.WrittenIn (ms : Keyed Json) (d : Definition) : Prop where
  kind : d.kind.WrittenIn ms
  nullable : ms.get? "nullable" = if d.nullable = true then some (.bool true) else none
  optional : ms.get? "optional" = if d.optional = true then some (.bool true) else none
  format : ms.get? "format" = d.format.map StringFormat.toJson
  min : ms.get? "min" = d.min.map .float
  max : ms.get? "max" = d.max.map .float
  allowed : ms.get? "enum" = d.allowed.map Allowed.toJson
  default? : ms.get? "default" = d.default?
  decode : ms.get? "decode" = d.decode.map .string
  encode : ms.get? "encode" = d.encode.map .string
  description : ms.get? "description" = d.docs.description.map .string
  example? : ms.get? "example" = d.docs.example?
  deprecated : ms.get? "deprecated" = if d.docs.deprecated = true then some (.bool true) else none

namespace Kind

/-- A kind has members under its own keys only. -/
theorem get?_members_of_not_mem (k : Kind) {key : String} (h : key ∉ memberKeys) :
    Keyed.get? (Keyed.ofList k.members) key = none := by
  simp only [memberKeys, List.mem_cons, List.not_mem_nil, or_false, not_or] at h
  obtain ⟨_, _, _, _, _, _, _⟩ := h
  cases k <;> simp [members, *]

theorem writtenIn_members (k : Kind) : k.WrittenIn (Keyed.ofList k.members) := by
  cases k <;> simp [WrittenIn, members]

theorem WrittenIn.type {k : Kind} {ms : Keyed Json} (h : k.WrittenIn ms) :
    ms.get? "type" = some (.string k.name) := by
  cases k with
  | scalar kind => exact h
  | array _ | object _ | union _ _ | reference _ | literal _ => exact h.1

/-- Only members under the keys of kinds matter. -/
theorem WrittenIn.congr {k : Kind} {ms ns : Keyed Json} (h : k.WrittenIn ms)
    (same : ∀ key ∈ memberKeys, ns.get? key = ms.get? key) : k.WrittenIn ns := by
  have eq (key : String) (hk : key ∈ memberKeys) {j : Option Json} (hj : ms.get? key = j) :
      ns.get? key = j := (same key hk).trans hj
  cases k with
  | scalar kind => exact eq _ (by decide) h
  | union discriminator variants =>
    exact ⟨eq _ (by decide) h.1, eq _ (by decide) h.2.1, eq _ (by decide) h.2.2⟩
  | array _ | object _ | reference _ | literal _ =>
    exact ⟨eq _ (by decide) h.1, eq _ (by decide) h.2⟩

end Kind

namespace Definition

theorem get?_modifierMembers_of_mem (d : Definition) {key : String} (h : key ∈ Kind.memberKeys) :
    Keyed.get? (Keyed.ofList d.modifierMembers) key = none := by
  simp only [Kind.memberKeys, List.mem_cons, List.not_mem_nil, or_false] at h
  rcases h with rfl | rfl | rfl | rfl | rfl | rfl | rfl <;>
    simp [modifierMembers, Documentation.members]

/-- A definition is written in its own members. -/
theorem writtenIn_members (d : Definition) : d.WrittenIn (Keyed.ofList d.members) := by
  obtain ⟨kind, nullable, optional, format, min, max, allowed, default?, decode, encode, docs⟩ := d
  have ofKind : kind.WrittenIn (Keyed.ofList (members ⟨kind, nullable, optional, format, min, max,
      allowed, default?, decode, encode, docs⟩)) := by
    refine (Kind.writtenIn_members kind).congr fun key hk => ?_
    rw [members, Keyed.get?_ofList_append, get?_modifierMembers_of_mem _ hk, Option.none_or]
  refine ⟨ofKind, ?_, ?_, ?_, ?_, ?_, ?_, ?_, ?_, ?_, ?_, ?_, ?_⟩
  all_goals
    rw [members, Keyed.get?_ofList_append, Kind.get?_members_of_not_mem kind (by decide),
      Option.or_none]
    simp [modifierMembers, Documentation.members]

/-- A definition has members under its own keys only. -/
theorem get?_members_of_not_mem (d : Definition) {key : String} (h : key ∉ memberKeys) :
    Keyed.get? (Keyed.ofList d.members) key = none := by
  obtain ⟨kind, nullable, optional, format, min, max, allowed, default?, decode, encode, docs⟩ := d
  simp only [memberKeys, List.mem_append, not_or] at h
  rw [members, Keyed.get?_ofList_append, Kind.get?_members_of_not_mem kind h.1, Option.or_none]
  simp only [List.mem_cons, List.not_mem_nil, or_false, not_or] at h
  simp [modifierMembers, Documentation.members, h]

theorem WrittenIn.congr {d : Definition} {ms ns : Keyed Json} (h : d.WrittenIn ms)
    (same : ∀ key ∈ memberKeys, ns.get? key = ms.get? key) : d.WrittenIn ns where
  kind := h.kind.congr fun key hk => same key (List.mem_append_left _ hk)
  nullable := (same _ (by decide)).trans h.nullable
  optional := (same _ (by decide)).trans h.optional
  format := (same _ (by decide)).trans h.format
  min := (same _ (by decide)).trans h.min
  max := (same _ (by decide)).trans h.max
  allowed := (same _ (by decide)).trans h.allowed
  default? := (same _ (by decide)).trans h.default?
  decode := (same _ (by decide)).trans h.decode
  encode := (same _ (by decide)).trans h.encode
  description := (same _ (by decide)).trans h.description
  example? := (same _ (by decide)).trans h.example?
  deprecated := (same _ (by decide)).trans h.deprecated

/-- A definition is written in an object beside members that have other keys. -/
theorem writtenIn_beside (d : Definition) (front back : List (String × Json))
    (before : ∀ key ∈ memberKeys, Keyed.get? (Keyed.ofList front) key = none)
    (after : ∀ key ∈ memberKeys, Keyed.get? (Keyed.ofList back) key = none) :
    d.WrittenIn (Keyed.ofList (front ++ d.members ++ back)) := by
  refine d.writtenIn_members.congr fun key hk => ?_
  rw [Keyed.get?_ofList_append, Keyed.get?_ofList_append, before key hk, after key hk,
    Option.none_or, Option.or_none]

/-- Members that have other keys than a definition are not touched by it. -/
theorem get?_beside (d : Definition) (front back : List (String × Json)) {key : String}
    (h : key ∉ memberKeys) : Keyed.get? (Keyed.ofList (front ++ d.members ++ back)) key =
      (Keyed.get? (Keyed.ofList back) key).or (Keyed.get? (Keyed.ofList front) key) := by
  rw [Keyed.get?_ofList_append, Keyed.get?_ofList_append, d.get?_members_of_not_mem h,
    Option.none_or]

end Definition

/-! ### Reading a definition -/

namespace NestedMembers

theorem items_read (ms : Keyed Json) : (read ms).items = (ms.get? "items").map Items.ofJson? := by
  induction ms with
  | nil => rfl
  | cons p rest ih =>
    obtain ⟨key, j⟩ := p
    rw [read, Keyed.get?_cons]
    grind

theorem shape_read (ms : Keyed Json) :
    (read ms).shape = (ms.get? "shape").map Field.listOfJson? := by
  induction ms with
  | nil => rfl
  | cons p rest ih =>
    obtain ⟨key, j⟩ := p
    rw [read, Keyed.get?_cons]
    grind

theorem variants_read (ms : Keyed Json) :
    (read ms).variants = (ms.get? "variants").map Variant.listOfJson? := by
  induction ms with
  | nil => rfl
  | cons p rest ih =>
    obtain ⟨key, j⟩ := p
    rw [read, Keyed.get?_cons]
    grind

end NestedMembers

mutual

/-- No default and no example in a definition is `null`, which would mean as a member that there is
none. -/
def Definition.NoNullMembers : Definition → Prop
  | { kind, default?, docs, .. } =>
    default? ≠ some .null ∧ docs.example? ≠ some .null ∧ kind.NoNullMembers

def Kind.NoNullMembers : Kind → Prop
  | .scalar _ | .reference _ | .literal _ => True
  | .array items => items.NoNullMembers
  | .object shape => Field.ListNoNullMembers shape
  | .union _ variants => Variant.ListNoNullMembers variants

def Items.NoNullMembers : Items → Prop
  | .of element => element.NoNullMembers
  | .shape fields => Field.ListNoNullMembers fields

def Field.ListNoNullMembers : List Field → Prop
  | [] => True
  | { definition, .. } :: rest => definition.NoNullMembers ∧ Field.ListNoNullMembers rest

def Variant.ListNoNullMembers : List Variant → Prop
  | [] => True
  | { definition, .. } :: rest => definition.NoNullMembers ∧ Variant.ListNoNullMembers rest

end

namespace Definition

/-- What does not depend on the kind is read as it was written. -/
theorem assemble?_of_kind {d : Definition} {ms : Keyed Json} {nested : NestedMembers}
    (h : d.WrittenIn ms) (ofKind : Kind.assemble? ms nested = some d.kind)
    (default : d.default? ≠ some .null) (example? : d.docs.example? ≠ some .null) :
    assemble? ms nested = some d := by
  have number (key : String) {x : Option Binary64} (hx : ms.get? key = x.map .float) :
      Json.optional ms key Json.toBinary64? = some x :=
    Json.optional_map hx (fun _ _ => rfl) fun _ _ => by simp
  have format : Json.optional ms "format" StringFormat.ofJson? = some d.format :=
    Json.optional_map h.format (fun f _ => StringFormat.ofJson?_toJson f) fun f _ => by
      cases f <;> nofun
  have allowed : Json.optional ms "enum" Allowed.ofJson? = some d.allowed :=
    Json.optional_map h.allowed (fun a _ => Allowed.ofJson?_toJson a) fun a _ => by
      cases a <;> simp [Allowed.toJson, Json.strings]
  have docs : Documentation.ofMembers? ms = some d.docs := by
    rw [Documentation.ofMembers?, Json.optional_string h.description,
      Json.optional_any h.example? example?, Json.defaulted_flag h.deprecated]
    rfl
  rw [assemble?, Json.defaulted_flag h.nullable, Json.defaulted_flag h.optional, format,
    number _ h.min, number _ h.max, allowed, Json.optional_any h.default? default,
    Json.optional_string h.decode, Json.optional_string h.encode, ofKind, docs]
  cases d
  rfl

end Definition

namespace Field

def members (f : Field) : Keyed Json :=
  Keyed.ofList (ownMembers f.name f.rename ++ f.definition.members)

variable (f : Field)

theorem writtenIn_members : f.definition.WrittenIn f.members := by
  have beside := f.definition.writtenIn_beside (ownMembers f.name f.rename) [] (fun key hk => by
    have other : key ≠ "name" ∧ key ≠ "rename" := by revert key; decide
    simp [ownMembers, other]) fun _ _ => rfl
  rwa [List.append_nil] at beside

theorem get?_members {key : String} (h : key ∉ Definition.memberKeys) :
    f.members.get? key = Keyed.get? (Keyed.ofList (ownMembers f.name f.rename)) key := by
  rw [members, Keyed.get?_ofList_append, f.definition.get?_members_of_not_mem h, Option.none_or]

theorem get?_name : f.members.get? "name" = some (.string f.name) := by
  rw [f.get?_members (by decide)]
  simp [ownMembers]

theorem get?_rename : f.members.get? "rename" = f.rename.map .string := by
  rw [f.get?_members (by decide)]
  simp [ownMembers]

/-- A field is read from its own members and the definition beside them. -/
theorem ofJson?_of_written
    (back : ∀ ms, f.definition.WrittenIn ms →
      Definition.assemble? ms (NestedMembers.read ms) = some f.definition) :
    ofJson? (.object f.members) = some f := by
  rw [ofJson?, Json.required_string f.get?_name, Json.optional_string f.get?_rename,
    back _ f.writtenIn_members]
  cases f
  rfl

end Field

namespace Variant

def members (v : Variant) : Keyed Json :=
  Keyed.ofList (Json.present "tag" (v.tag.map .string) ++ v.definition.members)

theorem writtenIn_members (v : Variant) : v.definition.WrittenIn v.members := by
  have beside := v.definition.writtenIn_beside (Json.present "tag" (v.tag.map .string)) []
    (fun key hk => by
      have other : key ≠ "tag" := by revert key; decide
      simp [other]) fun _ _ => rfl
  rwa [List.append_nil] at beside

theorem get?_tag (v : Variant) : v.members.get? "tag" = v.tag.map .string := by
  rw [members, Keyed.get?_ofList_append, v.definition.get?_members_of_not_mem (by decide),
    Option.none_or]
  simp

/-- A variant is read from its tag and the definition beside it. -/
theorem ofJson?_of_written (tag : Option String) {d : Definition}
    (back : ∀ ms, d.WrittenIn ms → Definition.assemble? ms (NestedMembers.read ms) = some d) :
    ofJson? (.ofMembers (Json.present "tag" (tag.map .string) ++ d.members)) =
      some { tag, definition := d } := by
  have written : Json.ofMembers (Json.present "tag" (tag.map .string) ++ d.members) =
      .object (members { tag, definition := d }) := rfl
  rw [written, ofJson?, Json.optional_string (get?_tag _), back _ (writtenIn_members _)]
  rfl

end Variant

mutual

theorem Definition.assemble?_of_writtenIn : (d : Definition) → (ms : Keyed Json) →
    d.NoNullMembers → d.WrittenIn ms → Definition.assemble? ms (NestedMembers.read ms) = some d
  | { kind, .. }, ms, spoken, h =>
    have ofKind := kind.assemble?_of_writtenIn ms spoken.2.2 h.kind
    Definition.assemble?_of_kind h ofKind spoken.1 spoken.2.1

/-- A kind is read back from every object it is written in. -/
theorem Kind.assemble?_of_writtenIn : (k : Kind) → (ms : Keyed Json) → k.NoNullMembers →
    k.WrittenIn ms → Kind.assemble? ms (NestedMembers.read ms) = some k
  | .scalar kind, ms, _, h => by
    have name : Json.required ms "type" Kind.nameOf? = some kind.name := Json.required_eq h rfl
    rw [Kind.assemble?, name]
    simp
  | .array items, ms, spoken, ⟨type, held⟩ => by
    have name : Json.required ms "type" Kind.nameOf? = some "array" := Json.required_eq type rfl
    rw [Kind.assemble?, name, NestedMembers.items_read, held, Option.map_some,
      items.ofJson?_toJson spoken]
    rfl
  | .object shape, ms, spoken, ⟨type, held⟩ => by
    have name : Json.required ms "type" Kind.nameOf? = some "object" := Json.required_eq type rfl
    rw [Kind.assemble?, name, NestedMembers.shape_read, held, Option.map_some,
      Field.listOfJson?, Field.allOfJson?_listToJson shape spoken]
    rfl
  | .union discriminator variants, ms, spoken, ⟨type, held, key⟩ => by
    have name : Json.required ms "type" Kind.nameOf? = some "union" := Json.required_eq type rfl
    rw [Kind.assemble?, name, NestedMembers.variants_read, held,
      Option.map_some, Variant.listOfJson?, Variant.allOfJson?_listToJson variants spoken,
      Json.optional_string key]
    rfl
  | .reference target, ms, _, ⟨type, named⟩ => by
    have name : Json.required ms "type" Kind.nameOf? = some "reference" := Json.required_eq type rfl
    rw [Kind.assemble?, name, Option.bind_eq_bind, Option.bind_some, Json.required_string named]
    rfl
  | .literal value, ms, _, ⟨type, held⟩ => by
    have name : Json.required ms "type" Kind.nameOf? = some "literal" := Json.required_eq type rfl
    rw [Kind.assemble?, name, held]
    rfl

theorem Items.ofJson?_toJson : (items : Items) → items.NoNullMembers →
    Items.ofJson? items.toJson = some items
  | .of element, spoken => by
    have back := element.assemble?_of_writtenIn _ spoken element.writtenIn_members
    rw [Items.toJson, Items.ofJson?, if_pos rfl, Json.ofMembers, Definition.ofJson?, back]
    rfl
  | .shape fields, spoken => by
    rw [Items.toJson, Items.ofJson?, if_neg (by decide), if_pos rfl, Field.listOfJson?,
      Field.allOfJson?_listToJson fields spoken]
    rfl

theorem Field.allOfJson?_listToJson : (fields : List Field) → Field.ListNoNullMembers fields →
    Field.allOfJson? (Field.listToJson fields) = some fields
  | [], _ => rfl
  | { name, rename, definition } :: rest, ⟨spoken, others⟩ => by
    have first := Field.ofJson?_of_written { name, rename, definition } fun ms =>
      definition.assemble?_of_writtenIn ms spoken
    have written : Json.ofMembers (Field.ownMembers name rename ++ definition.members) =
        .object (Field.members { name, rename, definition }) := rfl
    rw [Field.listToJson, Field.allOfJson?, written, first, Field.allOfJson?_listToJson rest others]
    rfl

theorem Variant.allOfJson?_listToJson : (variants : List Variant) →
    Variant.ListNoNullMembers variants →
    Variant.allOfJson? (Variant.listToJson variants) = some variants
  | [], _ => rfl
  | { tag, definition } :: rest, ⟨spoken, others⟩ => by
    have first := Variant.ofJson?_of_written tag fun ms =>
      definition.assemble?_of_writtenIn ms spoken
    rw [Variant.listToJson, Variant.allOfJson?, first, Variant.allOfJson?_listToJson rest others]
    rfl

end

end ApiContract
