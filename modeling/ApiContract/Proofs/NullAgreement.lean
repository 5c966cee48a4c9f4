import ApiContract.Proofs.Conformance
import ApiContract.Proofs.RereadSchemas

/-!
# Null in payloads and in documents

Whether a payload may be `null` is said by a definition itself or by those that it leads to; the
schema of the definition says it by a second type, or by alternatives of which exactly one has to
hold. The two agree as long as `null` gets through in one way only: where a reference may be `null`
and so may its target, or two variants of a union, the schema refuses it. What is unknown is refused
by the validation unless it may be `null`, while its schema takes everything, `null` once more
excluded.
-/

namespace ApiContract

open Relation (ReflTransGen)
open Validation

namespace Context

/-! ### What `null` is left to -/

/-- The definitions that the schema of one leads to without going into the value; a name that does
not resolve leads to none. -/
def leads (c : Context) (d : Definition) : List (Option Definition) :=
  match d.kind, d.allowed with
  | .reference target, _ => [c.view.definition? target]
  | .union _ variants, _ => variants.map fun v => some v.definition
  | .scalar .string, some (.named type) => [c.view.definition? type]
  | _, _ => []

def Leads (c : Context) (d e : Definition) : Prop := some e ∈ c.leads d

/-- All that a definition leads to resolves, and ends within some levels. -/
def leadsWithin (c : Context) : Nat → Definition → Bool
  | 0, _ => false
  | n + 1, d => (c.leads d).all fun e => e.any (leadsWithin c n)

def nullsBelow (c : Context) (d : Definition) : Nat :=
  (c.leads d).countP fun e => e.any (c.accepts · .null)

/-- There is one way at most for `null` to get through a definition: what may be `null` itself leads
to nothing that may, and no two alternatives may. What is unknown is left out: its schema takes
everything, or everything else. -/
def nullOnce (c : Context) (d : Definition) : Bool :=
  match d.kind with
  | .scalar .unknown => false
  | .literal value => !(d.nullable && value.isNull)
  | .reference _ => !d.nullable || c.nullsBelow d == 0
  | .union none _ => if d.nullable then c.nullsBelow d != 1 else c.nullsBelow d ≤ 1
  | _ => c.nullsBelow d != 1

/-- Whether the schema of a definition takes `null`, where the schemas below take it as the
definitions do. -/
def schemaTakesNull (c : Context) (d : Definition) : Bool :=
  (match d.kind with
    | .scalar .unknown => true
    | .literal value => value.isNull
    | _ => c.nullsBelow d == 1) != d.nullable

variable {c : Context} {d e : Definition} {n : Nat}

/-- A scalar leads nowhere, unless its values are those of a registered type. -/
theorem leads_scalar {kind : ScalarKind} (hk : d.kind = .scalar kind)
    (unnamed : ∀ type, kind = .string → d.allowed ≠ some (.named type)) : c.leads d = [] := by
  unfold leads
  rw [hk]
  split
  · rename_i same
    cases same
  · rename_i same
    cases same
  · rename_i type same ha
    cases same
    exact absurd ha (unnamed type rfl)
  · rfl

theorem leadsWithin_of_leads (h : c.leadsWithin (n + 1) d = true) {o : Option Definition}
    (ho : o ∈ c.leads d) : ∃ e, o = some e ∧ c.leadsWithin n e = true := by
  rw [leadsWithin, List.all_eq_true] at h
  exact (Option.any_eq_true ..).mp (h o ho)

/-- More levels do no harm. -/
theorem leadsWithin_mono {m : Nat} (hle : n ≤ m) (h : c.leadsWithin n d = true) :
    c.leadsWithin m d = true := by
  induction n generalizing m d with
  | zero => cases h
  | succ n ih =>
    obtain ⟨m, rfl⟩ := Nat.exists_eq_succ_of_ne_zero (show m ≠ 0 by omega)
    rw [leadsWithin, List.all_eq_true]
    intro o ho
    obtain ⟨e, rfl, below⟩ := leadsWithin_of_leads h ho
    exact ih (by omega) below

/-- A walk over `null` goes nowhere else. -/
theorem endsWithin_of_leadsWithin (h : c.leadsWithin n d = true) :
    c.endsWithin n d .null = true := by
  induction n generalizing d with
  | zero => cases h
  | succ n ih =>
    have below (o : Option Definition) (ho : o ∈ c.leads d) :
        ∃ e, o = some e ∧ c.endsWithin n e .null = true :=
      (leadsWithin_of_leads h ho).imp fun e he => ⟨he.1, ih he.2⟩
    unfold endsWithin
    cases hk : d.kind with
    | reference target =>
      obtain ⟨e, he, ends⟩ := below (c.view.definition? target) (by simp [leads, hk])
      simpa [he] using ends
    | union discriminator variants =>
      cases discriminator with
      | some key => rfl
      | none =>
        refine List.all_eq_true.mpr fun v hv => ?_
        obtain ⟨e, he, ends⟩ := below (some v.definition)
          (by simpa [leads, hk] using ⟨v, hv, rfl⟩)
        cases he
        exact ends
    | array items => cases items <;> rfl
    | _ => rfl

/-! ### What the validation says -/

/-- The value `null` conforms where it is taken, or where something that is led to takes it. -/
theorem conforms_null_iff :
    Conforms c [] d .null ↔
      takesNull d = true ∨ defersNull d = true ∧ ∃ e, c.Leads d e ∧ Conforms c [] e .null := by
  by_cases ht : takesNull d = true
  · exact iff_of_true (.null ht) (.inl ht)
  · rw [conforms_iff [] (by simp [ht]), or_iff_right ht]
    unfold StepMeets defersNull Leads leads
    cases hk : d.kind with
    | reference target => simp [eq_comm]
    | union discriminator variants =>
      cases discriminator with
      | some key => simp
      | none => simp
    | literal value =>
      cases value with
      | null => simp [takesNull, hk] at ht
      | _ => simp [Json.sameValue]
    | array items => cases items <;> simp
    | scalar kind => simp
    | object shape => simp

/-- Validation goes by the count of the definitions that take `null`. -/
theorem accepts_null (ends : c.leadsWithin (nestingLimit + 1) d = true) :
    c.accepts d .null = (takesNull d || defersNull d && 0 < c.nullsBelow d) := by
  have below (e : Definition) (he : c.Leads d e) :
      c.accepts e .null = true ↔ Conforms c [] e .null := by
    obtain ⟨_, ⟨⟩, inside⟩ := leadsWithin_of_leads ends he
    exact accepts_iff_conforms (Nat.le_succ nestingLimit) (endsWithin_of_leadsWithin inside)
  rw [Bool.eq_iff_iff, accepts_iff_conforms le_rfl (endsWithin_of_leadsWithin ends),
    conforms_null_iff]
  simp only [Bool.or_eq_true, Bool.and_eq_true, decide_eq_true_eq, nullsBelow, List.countP_pos_iff,
    Option.any_eq_true]
  refine or_congr_right (and_congr_right fun _ => ⟨?_, ?_⟩)
  · rintro ⟨e, he, h⟩
    exact ⟨some e, he, e, rfl, (below e he).mpr h⟩
  · rintro ⟨_, ho, e, rfl, h⟩
    exact ⟨e, ho, (below e ho).mp h⟩

theorem nullsBelow_le_of_reference {target : String} (hk : d.kind = .reference target) :
    c.nullsBelow d ≤ 1 := by
  have one : (c.leads d).length = 1 := by simp [leads, hk]
  exact one ▸ List.countP_le_length

/-- The schema and the validation agree just where there is one way for `null` at most. -/
theorem nullOnce_iff (ends : c.leadsWithin (nestingLimit + 1) d = true) :
    c.nullOnce d = true ↔ c.schemaTakesNull d = c.accepts d .null := by
  rw [accepts_null ends]
  unfold nullOnce schemaTakesNull takesNull defersNull
  cases hk : d.kind with
  | reference target =>
    have few := nullsBelow_le_of_reference (c := c) hk
    generalize c.nullsBelow d = k at few
    obtain rfl | rfl := Nat.le_one_iff_eq_zero_or_eq_one.mp few <;> cases d.nullable <;> simp
  | union discriminator variants =>
    cases discriminator with
    | some key => cases d.nullable <;> simp
    | none => rcases c.nullsBelow d with _ | _ | k <;> cases d.nullable <;> simp
  | literal value => cases value <;> cases d.nullable <;> simp [Json.isNull]
  | scalar kind =>
    cases kind <;> cases d.nullable <;> simp
  | array items => cases d.nullable <;> simp
  | object shape => cases d.nullable <;> simp

/-- A search for what is taken more than once, which has to end within some levels. -/
def onceWithin (c : Context) : Nat → Definition → Bool
  | 0, _ => false
  | n + 1, d => c.nullOnce d && (c.leads d).all fun e => e.any (onceWithin c n)

/-- The search goes wherever the definition leads. -/
theorem nullOnce_of_onceWithin (h : c.onceWithin n d = true) (leads : ReflTransGen c.Leads d e) :
    c.nullOnce e = true := by
  induction leads using ReflTransGen.head_induction_on generalizing n with
  | refl =>
    cases n with
    | zero => cases h
    | succ n =>
      rw [onceWithin, Bool.and_eq_true] at h
      exact h.1
  | head edge _ ih =>
    cases n with
    | zero => cases h
    | succ n =>
      rw [onceWithin, Bool.and_eq_true, List.all_eq_true] at h
      exact ih (h.2 _ edge)

end Context

/-! ### What the schema says -/

namespace Definition

/-- With a tag put in, an object is one still. -/
theorem exists_object_asVariant {d : Definition} {shape : List Field} (hk : d.kind = .object shape)
    (discriminator tag : Option String) :
    ∃ shape', (d.asVariant discriminator tag).kind = .object shape' := by
  unfold asVariant
  split
  · rw [withTag_of_object _ _ hk]
    exact ⟨_, rfl⟩
  · exact ⟨shape, hk⟩

end Definition

namespace OpenApi

variable {reading : Reading} {document : Json} {s : OutputSettings} {answer : Bool}
  {c : Context} {d : Definition}

theorem settles_object_null {shape : List Field} (hk : d.kind = .object shape) :
    Settles reading document (ofDefinition s d) .null d.nullable := by
  rw [ofDefinition_eq, settles_finish, hk, ofKind]
  exact (Typed.of_ofProperties _ _).settles_null d.nullable

/-- A tag that is put in makes no difference to `null`. -/
theorem settles_withTags_null (v : Variant) (discriminator : Option String)
    (h : Settles reading document (ofDefinition s v.definition.withTags) .null answer) :
    Settles reading document (ofDefinition s (v.withTags discriminator).definition) .null
      answer := by
  by_cases inPlace : ∃ shape, v.definition.withTags.kind = .object shape
  · obtain ⟨shape, hk⟩ := inPlace
    obtain ⟨shape', hk'⟩ := Definition.exists_object_asVariant hk discriminator v.tag
    rw [h.unique (settles_object_null hk),
      ← Definition.nullable_asVariant discriminator v.tag v.definition.withTags]
    exact settles_object_null hk'
  · rw [Variant.withTags, Definition.asVariant_of_not_object]
    · exact h
    · exact fun shape hk => inPlace ⟨shape, hk⟩

/-- All that a definition leads to resolves, and its schema takes `null` as the validation does. -/
def AgreesBelow (reading : Reading) (document : Json) (s : OutputSettings) (c : Context)
    (d : Definition) : Prop :=
  ∀ o ∈ c.leads d, ∃ e, o = some e ∧
    Settles reading document (ofDefinition s e.withTags) .null (c.accepts e .null)

/-- A schema with a type of its own says by itself whether it takes `null`. -/
theorem settles_null_typed {schema : Keyed Json} {type : String} (typed : Typed schema type)
    (nothing : c.leads d = []) :
    Settles reading document (.object (if d.nullable then allowNull schema else schema)) .null
      ((c.nullsBelow d == 1) != d.nullable) := by
  have none : c.nullsBelow d = 0 := by rw [Context.nullsBelow, nothing]; rfl
  simpa [none] using typed.settles_null d.nullable

/-- Where a schema has no type, `null` is an alternative to it if the definition may be `null`. -/
theorem settles_null_untyped {schema : Keyed Json} {answer : Bool}
    (untyped : ∀ type, Keyed.get? schema "type" ≠ some (.string type))
    (h : Settles reading document (.object schema) .null answer) (nullable : Bool) :
    Settles reading document (.object (if nullable then allowNull schema else schema)) .null
      (answer != nullable) := by
  simpa [Json.isNull] using settles_nullable_of_untyped untyped h nullable

/-- A reference says of `null` what its type says, or the opposite where both let it through. -/
theorem settles_null_pointer (represents : Represents reading document s c.view)
    (below : AgreesBelow reading document s c d) {name : String}
    (h : c.leads d = [c.view.definition? name]) :
    Settles reading document
      (.object (if d.nullable then allowNull (mention name) else mention name)) .null
      ((c.nullsBelow d == 1) != d.nullable) := by
  obtain ⟨e, he, settled⟩ := below (c.view.definition? name) (by simp [h])
  have one : (c.nullsBelow d == 1) = c.accepts e .null := by
    rw [Context.nullsBelow, h, he]
    cases ha : c.accepts e .null <;> simp [ha]
  rw [one]
  exact settles_null_untyped (mention_untyped name)
    (represents name e .null _ he settled) d.nullable

/-- Exactly one alternative must take `null`, so the count decides. -/
theorem settles_null_alternatives (below : AgreesBelow reading document s c d)
    {discriminator : Option String} {variants : List Variant}
    (hk : d.kind = .union discriminator variants) :
    Settles reading document (.object (ofUnion s.keyCase discriminator
      (variants.map (Variant.withTags discriminator))
      (variants.map fun v => ofDefinition s (v.withTags discriminator).definition))) .null
      (c.nullsBelow d == 1) := by
  have each (v : Variant) (hv : v ∈ variants) :
      Settles reading document (ofDefinition s (v.withTags discriminator).definition) .null
        (c.accepts v.definition .null) := by
    obtain ⟨_, ⟨⟩, settled⟩ := below (some v.definition)
      (by simpa [Context.leads, hk] using ⟨v, hv, rfl⟩)
    exact settles_withTags_null v discriminator settled
  have count : c.nullsBelow d = variants.countP fun v => c.accepts v.definition .null := by
    simp [Context.nullsBelow, Context.leads, hk, List.countP_map, Function.comp_def]
  rw [count]
  exact settles_ofUnion each _ _ _

/-- A scalar takes `null` by its second type, unless its values are listed elsewhere. -/
theorem settles_null_scalar (represents : Represents reading document s c.view)
    (below : AgreesBelow reading document s c d) {kind : ScalarKind} (hk : d.kind = .scalar kind)
    (known : kind ≠ .unknown) (format : Option StringFormat) (lower upper : Option Binary64) :
    Settles reading document
      (.object (if d.nullable then allowNull (ofScalar kind format lower upper d.allowed)
        else ofScalar kind format lower upper d.allowed)) .null
      ((c.nullsBelow d == 1) != d.nullable) := by
  by_cases named : ∃ type, kind = .string ∧ d.allowed = some (.named type)
  · obtain ⟨type, rfl, ha⟩ := named
    rw [ha]
    exact settles_null_pointer represents below (by simp [Context.leads, hk, ha])
  · have unnamed (type : String) (hs : kind = .string) : d.allowed ≠ some (.named type) :=
      fun ha => named ⟨type, hs, ha⟩
    obtain ⟨type, typed⟩ := Typed.of_ofScalar kind format lower upper known
      fun hs name => unnamed name hs
    exact settles_null_typed typed (Context.leads_scalar hk unnamed)

/-- One step: what the schemas below say of `null` settles what a schema says. -/
theorem settles_schemaTakesNull (represents : Represents reading document s c.view)
    (below : AgreesBelow reading document s c d) :
    Settles reading document (ofDefinition s d.withTags) .null (c.schemaTakesNull d) := by
  rw [ofDefinition_withTags, settles_finish, Context.schemaTakesNull]
  cases hk : d.kind with
  | reference target => exact settles_null_pointer represents below (by simp [Context.leads, hk])
  | union discriminator variants =>
    rw [Kind.withTags, ofKind, ofVariants_eq, Variant.listWithTags_eq, List.map_map]
    exact settles_null_untyped (ofUnion_untyped _ _ _ _) (settles_null_alternatives below hk)
      d.nullable
  | literal value =>
    rw [Kind.withTags, ofKind]
    refine settles_null_untyped (by simp [Keyed.get?_cons])
      (settles_iff.mpr (.of_forall fun n => ?_)) d.nullable
    rw [holds_object, holdsAt_const, Json.null_equals]
  | scalar kind =>
    by_cases known : kind = .unknown
    · subst known
      exact settles_null_untyped (by simp) settles_unknown d.nullable
    · have said := settles_null_scalar represents below hk known d.format d.min d.max
      cases kind <;> first | exact said | exact absurd rfl known
  | array items =>
    rw [Kind.withTags, ofKind]
    exact settles_null_typed ((Typed.of_items _).bounded (by decide) (by decide) _ _)
      (by simp [Context.leads, hk])
  | object shape =>
    rw [Kind.withTags, ofKind]
    exact settles_null_typed (Typed.of_ofProperties _ _) (by simp [Context.leads, hk])

/-- By induction on the levels that are left. -/
theorem settles_accepts_null (represents : Represents reading document s c.view) {n : Nat}
    (few : n ≤ nestingLimit + 1) (ends : c.leadsWithin n d = true)
    (once : ∀ e, ReflTransGen c.Leads d e → c.nullOnce e = true) :
    Settles reading document (ofDefinition s d.withTags) .null (c.accepts d .null) := by
  induction n generalizing d with
  | zero => cases ends
  | succ n ih =>
    have agreed := (Context.nullOnce_iff (Context.leadsWithin_mono few ends)).mp (once d .refl)
    rw [← agreed]
    refine settles_schemaTakesNull represents fun o ho => ?_
    obtain ⟨e, rfl, below⟩ := Context.leadsWithin_of_leads ends ho
    exact ⟨e, rfl, ih (by omega) below fun f hf => once f (.head ho hf)⟩

theorem agreesBelow_of_onceWithin (represents : Represents reading document s c.view) {n m : Nat}
    (few : n ≤ nestingLimit + 1) (ends : c.leadsWithin (n + 1) d = true)
    (once : ((c.leads d).all fun e => e.any (c.onceWithin m)) = true) :
    AgreesBelow reading document s c d := by
  intro o ho
  obtain ⟨e, rfl, below⟩ := Context.leadsWithin_of_leads ends ho
  exact ⟨e, rfl, settles_accepts_null represents few below fun _ =>
    Context.nullOnce_of_onceWithin (List.all_eq_true.mp once _ ho)⟩

end OpenApi

/-- Payloads and documents agree on `null`. If each name is listed as the type that it resolves to,
and all that a definition leads to ends in time with one way for `null` at most, then the validation
accepts `null` just where `null` satisfies the schema of the definition in the document, be it as it
is generated or as it is read back, which differs in numbers only. -/
theorem null_agreement (c : Context) (reading : OpenApi.Reading) (s : OutputSettings)
    (apiVersion : String) (types : List Registry.OrderedType)
    (ordered : c.view.registry.ordered c.view.scope = .ok types)
    (listed : ∀ name t, c.view.resolve name = .ok t → Registry.StandsFor types name t)
    (plain : ∀ t ∈ types, OpenApi.Plain t.name) (d : Definition)
    (ends : c.leadsWithin (nestingLimit + 1) d = true)
    (once : ∀ e, ReflTransGen c.Leads d e → c.nullOnce e = true) :
    let document? := Target.document? { settings := s, view := c.view } apiVersion types
    (Target.openApi apiVersion).file c.view s = (match document? with
        | some document => .ok (s.lineEnding.apply (Target.layOut s document))
        | none => .error .unreadableSchema) ∧
      ∀ document schema, document? = some document →
        schema.outline = (OpenApi.ofDefinition s d.withTags).outline →
          OpenApi.Settles reading document schema .null (c.accepts d .null) := by
  refine ⟨Target.file_openApi apiVersion c.view s ordered, fun document schema made same => ?_⟩
  have settled : OpenApi.Settles reading
      (Target.draft { settings := s, view := c.view } apiVersion types)
      (OpenApi.ofDefinition s d.withTags) .null (c.accepts d .null) :=
    OpenApi.settles_accepts_null
      (OpenApi.represents_draft s c.view (Registry.lists_of_ordered ordered).nodup plain listed)
      le_rfl ends once
  exact settled.null_of_outline (Target.outline_document made) same

def memos : Registry :=
  { tables := [(.api "desk",
      [typeOf "Memo" (.object [{ name := "note", definition := .reference "Note" }]),
        typeOf "Note" (Definition.scalar .string).orNull])] }

def memoContext : Context := { view := ⟨memos, .api "desk"⟩, case := .preserve }

theorem memos_listed : ∃ types, memos.ordered (.api "desk") = .ok types ∧
    Json.haveFirm Json.maxNesting
      (Target.components { settings := {}, view := memoContext.view } types) = true ∧
    (∀ name t, memos.resolve (.api "desk") name = .ok t → Registry.StandsFor types name t) ∧
    ∀ t ∈ types, OpenApi.Plain t.name := by
  refine ⟨_, rfl, by decide +kernel, ?_, by decide +kernel⟩
  intro name t resolved
  have known : name ∈ ["Memo", "Note"] :=
    Registry.mem_keys_visible (Registry.contains_of_resolveWithin resolved)
  rcases List.mem_cons.mp known with rfl | known
  · cases resolved
    exact .defined rfl
  · obtain rfl := List.mem_singleton.mp known
    cases resolved
    exact .defined rfl

def noteOrNumber : Definition := .union [.reference "Note", .scalar .integer]

theorem noteOrNumber_agreed :
    ∃ types document, memos.ordered (.api "desk") = .ok types ∧
      Target.document? { settings := {}, view := memoContext.view } "1.0.0" types = some document ∧
      memoContext.leadsWithin (nestingLimit + 1) noteOrNumber = true ∧
      memoContext.accepts noteOrNumber .null = true ∧
      OpenApi.Settles OpenApi.unlimited document
        (OpenApi.ofDefinition {} noteOrNumber.withTags) .null true := by
  obtain ⟨types, ordered, firm, listed, plain⟩ := memos_listed
  have made := Target.document?_of_haveFirm firm "1.0.0"
  have ends : memoContext.leadsWithin (nestingLimit + 1) noteOrNumber = true := by decide +kernel
  have accepted : memoContext.accepts noteOrNumber .null = true := by decide +kernel
  have once : memoContext.onceWithin 3 noteOrNumber = true := by decide +kernel
  have agreed := (null_agreement memoContext OpenApi.unlimited {} "1.0.0" types ordered listed plain
    noteOrNumber ends fun _ => Context.nullOnce_of_onceWithin once).2 _ _ made rfl
  rw [accepted] at agreed
  exact ⟨types, _, ordered, made, ends, accepted, agreed⟩

/-- Two alternatives that may be `null`, a reference that may be to what may be, and the literal
`null` that may be: `null` gets through twice. A variant that may be `null` and a named list of
values that may be: `null` is not handed on to them. And what is unknown. -/
def disputed : List Definition :=
  [.union [.reference "Note", (Definition.scalar .integer).orNull],
    (Definition.reference "Note").orNull,
    (Definition.literal .null).orNull,
    .taggedUnion "kind" [{ tag := some "bare", definition := (Definition.object []).orNull }],
    { kind := .scalar .string, allowed := some (.named "Note") },
    .scalar .unknown]

def wrappedText : Nat → Definition
  | 0 => (Definition.scalar .string).orNull
  | n + 1 => .union [wrappedText n]

/-- Each union around the text passes `null` on. -/
theorem settles_wrappedText {reading : OpenApi.Reading} {document : Json} {s : OutputSettings}
    (n : Nat) :
    OpenApi.Settles reading document (OpenApi.ofDefinition s (wrappedText n).withTags) .null
      true := by
  induction n with
  | zero =>
    rw [OpenApi.ofDefinition_withTags, OpenApi.settles_finish]
    have typed : OpenApi.Typed (OpenApi.ofString none none none none) "string" :=
      .of_ofString none none none (by simp)
    exact typed.settles_null true
  | succ n ih =>
    have each : ∀ v ∈ [({ definition := wrappedText n } : Variant)], OpenApi.Settles reading
        document (OpenApi.ofDefinition s (v.withTags none).definition) .null true :=
      List.forall_mem_singleton.mpr (OpenApi.settles_withTags_null _ none ih)
    rw [OpenApi.ofDefinition_withTags, OpenApi.settles_finish, wrappedText, Definition.union,
      Kind.withTags, OpenApi.ofKind, OpenApi.ofVariants_eq, Variant.listWithTags_eq]
    exact OpenApi.settles_ofUnion each s.keyCase none []

/-- The schema and the validation judge `null` differently for each disputed definition, and for a
text that stands deeper than a walk may go. -/
theorem null_disagreed :
    ∃ types document, memos.ordered (.api "desk") = .ok types ∧
      Target.document? { settings := {}, view := memoContext.view } "1.0.0" types = some document ∧
      let settles (d : Definition) :=
        OpenApi.Settles OpenApi.unlimited document (OpenApi.ofDefinition {} d.withTags) .null
      (∀ d ∈ disputed, settles d (!memoContext.accepts d .null)) ∧
      memoContext.accepts (wrappedText (nestingLimit + 1)) .null = false ∧
      settles (wrappedText (nestingLimit + 1)) true := by
  obtain ⟨types, ordered, firm, listed, plain⟩ := memos_listed
  refine ⟨types, _, ordered, Target.document?_of_haveFirm firm _, ?_⟩
  intro settles
  have represents : OpenApi.Represents OpenApi.unlimited
      (Target.draft { settings := {}, view := memoContext.view } "1.0.0" types) {}
      memoContext.view :=
    OpenApi.represents_draft {} memoContext.view (Registry.lists_of_ordered ordered).nodup plain
      listed
  refine ⟨fun d hd => ?_, by decide +kernel, settles_wrappedText _⟩
  have ends : ∀ d ∈ disputed, memoContext.leadsWithin 4 d = true := by decide +kernel
  have below : ∀ d ∈ disputed,
      ((memoContext.leads d).all fun e => e.any (memoContext.onceWithin 3)) = true := by
    decide +kernel
  have otherwise : ∀ d ∈ disputed,
      memoContext.schemaTakesNull d = !memoContext.accepts d .null := by
    decide +kernel
  have settled := OpenApi.settles_schemaTakesNull represents
    (OpenApi.agreesBelow_of_onceWithin represents (by decide) (ends d hd) (below d hd))
  rwa [otherwise d hd] at settled

end ApiContract
