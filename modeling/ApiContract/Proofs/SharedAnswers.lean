import ApiContract.Output.Target
import ApiContract.Proofs.ConsultedNames

/-!
# Views with the same answers

Requests and responses depend on their view by what names resolve to. A generated file has besides
the types in dependency order and the scope's name from its view. So two views of one scope with the
same answers for all names come to the same payloads, and, with the same types in order, to the same
files.
-/

namespace ApiContract

variable {view other : View}

/-- Following references takes nothing of a view but what names resolve to. -/
theorem View.derefWithin_congr (same : ∀ name, other.resolve name = view.resolve name)
    (name : String) (hops : Nat) (d : Definition) (nullable : Bool) :
    other.derefWithin name hops d nullable = view.derefWithin name hops d nullable := by
  induction hops generalizing d nullable with
  | zero => rfl
  | succ hops ih =>
    rw [derefWithin, derefWithin]
    split
    · rename_i target _
      rw [same target]
      cases view.resolve target with
      | ok t => exact ih t.definition _
      | error e => rfl
    · rfl

theorem View.deref_congr (same : ∀ name, other.resolve name = view.resolve name)
    (d : Definition) : other.deref d = view.deref d :=
  derefWithin_congr same _ _ d _

/-! ### Requests and responses -/

namespace Exchange

theorem extractMember_congr (same : ∀ name, other.resolve name = view.resolve name)
    (extract : Definition → Json → Json) (f : Field) (j : Json) :
    extractMember other extract f j = extractMember view extract f j := by
  rw [extractMember, extractMember, View.deref_congr same]

/-- Nor does extraction. -/
theorem extractWithin_congr (same : ∀ name, other.resolve name = view.resolve name)
    (case : KeyCase) (n : Nat) (d : Definition) (j : Json) :
    extractWithin ⟨other, case⟩ n d j = extractWithin ⟨view, case⟩ n d j := by
  induction n generalizing d j with
  | zero => rfl
  | succ n ih =>
    have below : extractWithin ⟨other, case⟩ n = extractWithin ⟨view, case⟩ n :=
      funext fun d => funext fun j => ih d j
    have members (shape : List Field) (ms : Keyed Json) :
        extractMembers ⟨other, case⟩ (extractWithin ⟨other, case⟩ n) shape ms =
          extractMembers ⟨view, case⟩ (extractWithin ⟨view, case⟩ n) shape ms := by
      simp only [extractMembers, below, extractMember_congr same]
    simp only [extractWithin, View.deref_congr same, members]

def seenBy (x : Exchange) (other : View) : Exchange := { x with view := other }

/-- Two exchanges come to the same for every payload, in and out. -/
structure ActsAlike (x x' : Exchange) : Prop where
  process : ∀ direction d raw, x'.process direction d raw = x.process direction d raw
  serializeRecord : ∀ d typeName record,
    x'.serializeRecord d typeName record = x.serializeRecord d typeName record
  serializeMember : ∀ d typeName rootKey record,
    x'.serializeMember d typeName rootKey record = x.serializeMember d typeName rootKey record
  serializeCollection : ∀ d typeName rootKey records about,
    x'.serializeCollection d typeName rootKey records about =
      x.serializeCollection d typeName rootKey records about
  processBreaksOff : ∀ direction d raw,
    x'.processBreaksOff direction d raw = x.processBreaksOff direction d raw
  recordBreaksOff : ∀ d record, x'.recordBreaksOff d record = x.recordBreaksOff d record

/-- An exchange comes to the same by a view in which names resolve alike. -/
theorem actsAlike_seenBy (x : Exchange) (same : ∀ name, other.resolve name = x.view.resolve name) :
    x.ActsAlike (x.seenBy other) := by
  have walks (d : Definition) : View.WalksAlike x.view other d :=
    View.AnswersAlike.walksAlike fun name _ => same name
  have serialized (d : Definition) (typeName : String) (record : Json) :
      (x.seenBy other).serializeRecord d typeName record = x.serializeRecord d typeName record := by
    simp only [Exchange.serializeRecord, seenBy, context, Context.accepts, (walks d).transform,
      (walks d).toWire, (walks d).coerce, (walks d).validate]
    rfl
  refine ⟨?_, serialized, ?_, ?_, ?_, ?_⟩
  · intro direction d raw
    simp only [process, seenBy, context, extractWithin_congr same, (walks d).transform,
      (walks d).coerce, (walks d).validate]
    rfl
  · intro d typeName rootKey record
    rw [serializeMember, serializeMember, serialized]
    rfl
  · intro d typeName rootKey records about
    rw [serializeCollection, serializeCollection, funext (serialized d typeName)]
    rfl
  · intro direction d raw
    simp only [processBreaksOff, seenBy, context, extractWithin_congr same, (walks d).coerce,
      (walks d).coerceBreaksOff, (walks d).validateBreaksOff]
  · intro d record
    simp only [recordBreaksOff, seenBy, context, (walks d).transform, (walks d).toWire,
      (walks d).coerce, (walks d).coerceBreaksOff, (walks d).validateBreaksOff]

end Exchange

/-! ### Output -/

namespace OutputContext

def seenBy (c : OutputContext) (other : View) : OutputContext := { c with view := other }

variable {c : OutputContext}

theorem isObject_seenBy (same : ∀ name, other.resolve name = c.view.resolve name) (name : String) :
    (c.seenBy other).isObject name = c.isObject name := by
  have hd (d : Definition) : other.deref d = c.view.deref d := View.deref_congr same d
  simp only [isObject, seenBy, same name, hd]

end OutputContext

open OutputContext

variable {c : OutputContext}

/-! #### Schemas -/

namespace SchemaExpr

theorem isObjectVariant_seenBy (same : ∀ name, other.resolve name = c.view.resolve name)
    (current : String) (v : Variant) :
    isObjectVariant (c.seenBy other) current v = isObjectVariant c current v := by
  rw [isObjectVariant, isObjectVariant]
  split
  · rfl
  · rw [isObject_seenBy same]
    rfl
  · rfl

theorem ofUnion_seenBy (same : ∀ name, other.resolve name = c.view.resolve name) (current : String)
    (discriminator : Option String) (variants : List Variant) (schemas : List SchemaExpr) :
    ofUnion (c.seenBy other) current discriminator variants schemas =
      ofUnion c current discriminator variants schemas := by
  have objects : isObjectVariant (c.seenBy other) current = isObjectVariant c current :=
    funext (isObjectVariant_seenBy same current)
  cases discriminator with
  | none => rfl
  | some key => simp only [ofUnion, objects]; rfl

mutual

theorem ofDefinition_seenBy (same : ∀ name, other.resolve name = c.view.resolve name)
    (current : String) :
    ∀ d : Definition, ofDefinition (c.seenBy other) current d = ofDefinition c current d
  | { kind, nullable, format, min, max, allowed, .. } => by
    rw [ofDefinition, ofDefinition, ofKind_seenBy same current format min max allowed kind]

/-- Schemas take nothing of a view but what names resolve to. -/
theorem ofKind_seenBy (same : ∀ name, other.resolve name = c.view.resolve name)
    (current : String) (format : Option StringFormat) (lower upper : Option Binary64)
    (allowed : Option Allowed) : ∀ kind : Kind,
      ofKind (c.seenBy other) current format lower upper allowed kind =
        ofKind c current format lower upper allowed kind
  | .scalar _ | .reference _ | .literal _ => rfl
  | .array items => by rw [ofKind, ofKind, ofItems_seenBy same current items]
  | .object shape => by rw [ofKind, ofKind, ofFields_seenBy same current shape]
  | .union discriminator variants => by
    rw [ofKind, ofKind, ofVariants_seenBy same current variants, ofUnion_seenBy same]

theorem ofItems_seenBy (same : ∀ name, other.resolve name = c.view.resolve name)
    (current : String) :
    ∀ items : Items, ofItems (c.seenBy other) current items = ofItems c current items
  | .of element => by rw [ofItems, ofItems, ofDefinition_seenBy same current element]
  | .shape fields => by rw [ofItems, ofItems, ofFields_seenBy same current fields]

theorem ofFields_seenBy (same : ∀ name, other.resolve name = c.view.resolve name)
    (current : String) :
    ∀ fields : List Field, ofFields (c.seenBy other) current fields = ofFields c current fields
  | [] => rfl
  | { definition, .. } :: rest => by
    rw [ofFields, ofFields, ofDefinition_seenBy same current definition,
      ofFields_seenBy same current rest]
    rfl

theorem ofVariants_seenBy (same : ∀ name, other.resolve name = c.view.resolve name)
    (current : String) :
    ∀ variants : List Variant,
      ofVariants (c.seenBy other) current variants = ofVariants c current variants
  | [] => rfl
  | { definition, .. } :: rest => by
    rw [ofVariants, ofVariants, ofDefinition_seenBy same current definition,
      ofVariants_seenBy same current rest]

end

end SchemaExpr

/-! #### Files -/

theorem Registry.Listing.schemaDeclaration_seenBy
    (same : ∀ name, other.resolve name = c.view.resolve name) (name : String) (recursive : Bool)
    (l : Registry.Listing) :
    l.schemaDeclaration (c.seenBy other) name recursive = l.schemaDeclaration c name recursive := by
  cases l with
  | defined t =>
    simp only [schemaDeclaration, SchemaDeclaration.ofType, SchemaExpr.ofDefinition_seenBy same]
    rfl
  | aliasOf target => rfl

namespace Target

theorem generate_seenBy (same : ∀ name, other.resolve name = c.view.resolve name) (target : Target)
    (t : Registry.OrderedType) : target.generate (c.seenBy other) t = target.generate c t := by
  cases target with
  | typescript => rfl
  | zod => simp only [generate, Registry.Listing.schemaDeclaration_seenBy same]; rfl
  | openApi version => rfl

theorem header_seenBy (scope : other.scope = c.view.scope) (target : Target) :
    target.header (c.seenBy other) = target.header c := by
  have here : (c.seenBy other).view.scope = c.view.scope := scope
  rw [header, header, here]
  rfl

theorem map_contexts_seenBy {α : Type} (f : OutputContext × Registry.OrderedType → α)
    (each : ∀ emitted t, f (({ c with emitted } : OutputContext).seenBy other, t) =
      f ({ c with emitted }, t)) (types : List Registry.OrderedType) :
    (contexts (c.seenBy other) types).map f = (contexts c types).map f := by
  rw [contexts, contexts, List.map_map, List.map_map]
  exact List.map_congr_left fun p _ => each p.1 p.2

/-- A file is the same by another view of its scope. -/
theorem assemble_seenBy (same : ∀ name, other.resolve name = c.view.resolve name)
    (scope : other.scope = c.view.scope) (target : Target) (types : List Registry.OrderedType) :
    target.assemble (c.seenBy other) types = target.assemble c types := by
  have here : (c.seenBy other).view.scope = c.view.scope := scope
  have codes : (contexts (c.seenBy other) types).map (fun p => (target.generate p.1 p.2).code) =
      (contexts c types).map fun p => (target.generate p.1 p.2).code := by
    refine map_contexts_seenBy _ (fun emitted t => ?_) types
    have each := generate_seenBy (c := { c with emitted }) same target t
    exact congrArg Generated.code each
  cases target with
  | typescript => simp only [assemble, preamble, header_seenBy scope, codes]
  | zod => simp only [assemble, preamble, header_seenBy scope, codes]
  | openApi version =>
    have schemas : components (c.seenBy other) types = components c types := by
      refine congrArg Keyed.ofList (map_contexts_seenBy _ (fun _ _ => ?_) types)
      rfl
    simp only [assemble, document?, here, schemas]
    rfl

/-- Files are the same for views of one scope with the same types and the same answers. -/
theorem file_eq (same : ∀ name, other.resolve name = view.resolve name)
    (scope : other.scope = view.scope)
    (ordered : other.registry.ordered other.scope = view.registry.ordered view.scope)
    (target : Target) (settings : OutputSettings) :
    target.file other settings = target.file view settings := by
  rw [file, file, ordered]
  refine congrArg (Except.bind _) (funext fun types => ?_)
  have assembled := assemble_seenBy (c := { settings, view }) same scope target types
  exact congrArg (Except.bind · fun text => .ok (settings.lineEnding.apply text)) assembled

end Target

end ApiContract
