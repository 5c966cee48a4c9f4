import ApiContract.Proofs.NestedOperations
import ApiContract.Proofs.SameAcceptance
import ApiContract.Proofs.SingleFaults
import ApiContract.Proofs.SoundDefinitions

/-!
# Ids of several resources in one field

A polymorphic association is written as an id and a tag. The tag may be that of any target, and
whichever it is, the field of the id takes ids of the first target. So it takes those of another
target only where the two have ids of one kind.
-/

namespace ApiContract

open Validation

/-! ### Names of fields -/

theorem NamedType.names_of_check {t : NamedType} {shape : List Field}
    (hk : t.definition.kind = .object shape) (h : t.check = .ok ()) :
    (shape.map Field.name).Nodup := by
  have coherent := (t.definition.flaws_eq_nil_iff t.name).mp (check_ok_iff_flaws.mp h).2
  exact Definition.fields_of_object hk ▸ (coherent t.definition .refl).names

namespace Resource

variable {catalog : Catalog} {scope : Scope} {r : Resource} {context : WriteContext}
  {before after : Registry}

/-- Once the types are registered, every association can be written. -/
theorem written_of_registered
    (registered : (r.registerTypes catalog scope).runOn .raise before = (.ok (), after))
    {a : Association} (ha : a ∈ r.writtenAssociations context) :
    ∃ fields, a.written catalog r context = .ok fields ∧
      fields ⊆ r.writtenFields catalog context := by
  rw [(follows_registerTypes catalog scope r).runOn_eq] at registered
  have taken : LoadStep.ofExcept (a.written catalog r context) ⊆ r.typeSteps catalog scope := by
    intro step hs
    have written : step ∈ r.writeSteps catalog context := List.mem_flatMap.mpr ⟨a, ha, hs⟩
    simp only [typeSteps, List.mem_append, payloadSteps, List.mem_flatMap]
    cases context <;> simp [written]
  obtain ⟨fields, made⟩ := LoadStep.eq_ok_of_run registered taken
  refine ⟨fields, made, fun f hf => ?_⟩
  refine List.mem_append_right _ (List.mem_flatMap.mpr ⟨a, ha, ?_⟩)
  rw [made]
  exact hf

theorem names_of_registered
    (registered : (r.registerTypes catalog scope).runOn .raise before = (.ok (), after))
    (context : WriteContext) : ((r.writtenFields catalog context).map Field.name).Nodup := by
  rw [(follows_registerTypes catalog scope r).runOn_eq] at registered
  have derived := (mem_types_iff catalog scope r scope _).mpr (.payload context)
  exact NamedType.names_of_check rfl (LoadStep.check_of_run registered derived)

theorem wireNames_preserve {fields : List Field} (plain : ∀ f ∈ fields, f.rename = none) :
    fields.map (Field.wireName .preserve) = fields.map Field.name :=
  List.map_congr_left fun f hf => Field.wireName_preserve (plain f hf)

end Resource

/-! ### Issues of one member -/

/-- Nothing is said of what stands under a key, or further inside. -/
def Verdict.SilentAt (v : Verdict) (key : String) : Prop :=
  ∀ i ∈ v.issues, i.path.head? ≠ some (.key key)

instance (v : Verdict) (key : String) : Decidable (v.SilentAt key) :=
  inferInstanceAs (Decidable (∀ i ∈ v.issues, _))

namespace Validation

variable {c : Context} {next : Judge} {case : KeyCase} {shape : List Field}
  {members : Keyed Json} {f : Field} {d : Definition} {x : Json}

/-- An issue about a field is at its key or further inside. -/
theorem head_of_mem_field (hp : Placed next) {i : Issue}
    (hi : i ∈ (field case next [] members f).issues) :
    i.path.head? = some (.key (f.wireName case)) := by
  cases hm : Keyed.get? members (f.wireName case) with
  | some j =>
    simp only [field, hm] at hi
    rw [hp.at_path] at hi
    obtain ⟨i, -, rfl⟩ := List.mem_map.mp hi
    rfl
  | none =>
    cases hd : f.definition.default? with
    | some j => simp [field, hm, hd] at hi
    | none =>
      simp only [field, hm, hd, List.mem_ite_nil_left, List.mem_singleton] at hi
      rw [hi.2]
      rfl

/-- Where fields have different keys, nothing is said of one of them if and only if nothing is wrong
with the value under its key. -/
theorem silentAt_object_iff (hp : Placed next)
    (distinct : (shape.map (Field.wireName case)).Nodup) (hf : f ∈ shape)
    (hm : Keyed.get? members (f.wireName case) = some x) :
    (object case next [] shape (.object members)).SilentAt (f.wireName case) ↔
      CleanBy next [] f.definition x := by
  have told : (field case next [] members f).issues =
      (next [] f.definition x).issues.map (Issue.under [.key (f.wireName case)]) := by
    simp only [field, hm, List.nil_append]
    rw [hp.at_path, Verdict.under_issues]
  rw [CleanBy, clean_nil_iff, ← List.map_eq_nil_iff, ← told, Verdict.SilentAt, issues_object]
  constructor
  · intro silent
    rw [List.eq_nil_iff_forall_not_mem]
    intro i hi
    refine silent i (List.mem_append_left _ (List.mem_flatMap.mpr ⟨f, hf, hi⟩)) ?_
    exact head_of_mem_field hp hi
  · intro clean i hi here
    rcases List.mem_append.mp hi with hi | hi
    · obtain ⟨g, hg, hi⟩ := List.mem_flatMap.mp hi
      have same : g.wireName case = f.wireName case := by
        simpa using (head_of_mem_field hp hi).symm.trans here
      obtain rfl := List.inj_on_of_nodup_map distinct hg hf same
      simp [clean] at hi
    · obtain ⟨key, hk, rfl⟩ := List.mem_map.mp hi
      obtain rfl : key = f.wireName case := by simpa [Issue.unknownField] using here
      have known : f.wireName case ∈ shape.map (Field.wireName case) := List.mem_map_of_mem hf
      have undeclared := (List.mem_filter.mp hk).2
      simp only [List.contains_iff_mem.mpr known] at undeclared
      cases undeclared

/-- A payload read by name is read by the shape that the name stands for. -/
theorem validate_named {name : String} (found : c.view.definition? name = some d)
    (hk : d.kind = .object shape) (members : Keyed Json) :
    c.validate (.reference name) (.object members) =
      object c.case (judge c (nestingLimit - 1)) [] shape (.object members) := by
  have named : c.validate (.reference name) (.object members) =
      judge c nestingLimit [] d (.object members) := by
    rw [Context.validate, judge_succ]
    simp [step, Json.isNull, Definition.reference, found]
  have shaped : judge c (nestingLimit - 1 + 1) [] d (.object members) =
      object c.case (judge c (nestingLimit - 1)) [] shape (.object members) := by
    rw [judge_succ]
    simp [step, Json.isNull, hk]
  exact named.trans shaped

/-- Whether a field may be left out does not matter to its value. -/
theorem acceptsWithin_optional (c : Context) (n : Nat) (d : Definition) (optional : Bool)
    (x : Json) : c.acceptsWithin n { d with optional } x = c.acceptsWithin n d x := by
  cases n with
  | zero => rfl
  | succ n =>
    rw [Context.acceptsWithin, Context.acceptsWithin, judge_succ]
    rfl

/-- A definition that may take null besides takes what it took. -/
theorem acceptsWithin_nullable {n : Nat} (required : d.nullable = false) (nullable : Bool)
    (accepted : c.acceptsWithin n d x = true) :
    c.acceptsWithin n { d with nullable } x = true := by
  cases d
  cases required
  cases nullable with
  | false => exact accepted
  | true =>
    obtain ⟨n, rfl⟩ := level_of_cleanBy ((acceptsWithin_iff ..).mp accepted)
    cases null : x.isNull with
    | true =>
      exact (acceptsWithin_iff ..).mpr (cleanBy_judge_of_null n [] (by simp [null, takesNull]))
    | false =>
      rw [Context.acceptsWithin, judge_succ, step] at accepted ⊢
      rw [null] at accepted ⊢
      exact accepted

/-- An enumeration takes the strings that it lists. -/
theorem acceptsWithin_enumeration (c : Context) (n : Nat) {values : List String} {value : String}
    (nullable : Bool) (listed : value ∈ values) :
    c.acceptsWithin (n + 1) { Definition.enumeration values with nullable } (.string value) =
      true := by
  rw [acceptsWithin_iff, cleanBy_judge_iff_stepMeets c n [] rfl]
  refine ⟨by simp, ?_⟩
  constructor
  case ofKind => rfl
  case value =>
    intro numeric
    cases numeric
  case length =>
    intro _ s _ size _
    constructor <;> simp [Definition.enumeration, Definition.scalar]
  case format =>
    intro s _ format formatted
    cases formatted
  case allowed =>
    intro others same
    cases same
    exact listed

end Validation

/-! ### Members of a write -/

/-- Once a resource is registered without an error, nothing is said of a member of a write if and
only if its field takes it, two levels down. -/
theorem Resource.silentAt_written_iff {catalog : Catalog} {scope : Scope} {r : Resource}
    {context : WriteContext} {before after later : Registry} {case : KeyCase}
    (registered : (r.registerTypes catalog scope).runOn .raise before = (.ok (), after))
    (grown : after.GrowsTo later)
    (distinct : ((r.writtenFields catalog context).map (Field.wireName case)).Nodup)
    {f : Field} (hf : f ∈ r.writtenFields catalog context) {members : Keyed Json} {x : Json}
    (hm : Keyed.get? members (f.wireName case) = some x) :
    let c : Context := ⟨{ registry := later, scope }, case⟩
    (c.validate (.reference (r.payloadName context)) (.object members)).SilentAt
        (f.wireName case) ↔
      c.acceptsWithin (nestingLimit - 1) f.definition x = true := by
  intro c
  obtain ⟨d, found, alike⟩ := Resource.exists_definition registered grown
    (.payload context : r.Derives catalog scope scope (r.payloadType catalog context))
  have found : c.view.definition? (r.payloadName context) = some d := found
  obtain ⟨shape, hk, fields⟩ := alike.kind.eq_object
  obtain ⟨g, hg, same⟩ := exists_of_forall₂ fields.flip hf
  rw [← Field.map_wireName_of_alike fields] at distinct
  rw [← same.wireName_eq] at hm ⊢
  rw [validate_named found hk, ← acceptsWithin_congr same.definition, acceptsWithin_iff]
  exact silentAt_object_iff (placed_judge c _) distinct hg hm

/-! ### Polymorphic associations -/

/-- A polymorphic association is written by the fields of its tag. -/
theorem Association.written_polymorphic {catalog : Catalog} {r : Resource}
    {context : WriteContext} {a : Association} {resources : Keyed String} {fields : List Field}
    (polymorphic : a.target = .polymorphic resources)
    (made : a.written catalog r context = .ok fields) :
    ∃ targets, catalog.targets? a = some targets ∧
      fields = a.tagFields resources targets (context == .update || a.optional) := by
  simp only [written, polymorphic, writtenTagged] at made
  split at made
  · cases made
  · split at made
    · cases made
    · cases made
      exact ⟨_, ‹_›, rfl⟩

/-- The tags of the targets are those that are declared. -/
theorem Catalog.mem_keys_of_targets? {catalog : Catalog} {a : Association}
    {resources : Keyed String} {targets : List (String × Resource)}
    (polymorphic : a.target = .polymorphic resources) (found : catalog.targets? a = some targets)
    {tag : String} {target : Resource} (hm : (tag, target) ∈ targets) :
    tag ∈ Keyed.keys resources := by
  simp only [targets?, polymorphic] at found
  obtain ⟨p, hp, made⟩ := exists_of_mem_mapM found hm
  obtain ⟨_, -, same⟩ := Option.map_eq_some_iff.mp made
  cases same
  exact List.mem_map_of_mem hp

theorem Resource.idDefinition_nullable (r : Resource) : r.idDefinition.nullable = false := by
  rw [idDefinition]
  split <;> rfl

/-- Once a resource with a writable polymorphic association is registered without an error, a new
record may name any of its tags, and then nothing is said of the id if and only if it is one of the
first target. So nothing is said of an id of the target that the tag names, if the ids of this
target are those of the first one. -/
theorem polymorphic_ids_are_of_first (catalog : Catalog) (scope : Scope) (r : Resource)
    {before after later : Registry} (case : KeyCase)
    (registered : (r.registerTypes catalog scope).runOn .raise before = (.ok (), after))
    (grown : after.GrowsTo later)
    (distinct : case ≠ .preserve →
      ((r.writtenFields catalog .create).map (Field.wireName case)).Nodup)
    {a : Association} (ha : a ∈ r.associations) {resources : Keyed String}
    (polymorphic : a.target = .polymorphic resources)
    (writable : a.writable.allows .create = true) :
    let c : Context := ⟨{ registry := later, scope }, case⟩
    let idKey := case.apply (a.name ++ "_id")
    let tagKey := case.apply (a.name ++ "_" ++ a.discriminator)
    ∃ targets, catalog.targets? a = some targets ∧
      ∀ tag target, (tag, target) ∈ targets →
        ∃ first, targets.head?.map Prod.snd = some first ∧
          ∀ members x, Keyed.get? members idKey = some x →
            Keyed.get? members tagKey = some (.string tag) →
            let v := c.validate (.reference r.createPayloadName) (.object members)
            v.SilentAt tagKey ∧
            (v.SilentAt idKey ↔ c.acceptsWithin (nestingLimit - 1)
              { first.idDefinition with nullable := a.nullable } x = true) ∧
            (target.idDefinition.Alike first.idDefinition →
              c.acceptsWithin (nestingLimit - 1) target.idDefinition x = true →
                v.SilentAt idKey) := by
  intro c idKey tagKey
  have written : a ∈ r.writtenAssociations .create := List.mem_filter.mpr ⟨ha, writable⟩
  obtain ⟨fields, made, within⟩ := Resource.written_of_registered registered written
  obtain ⟨targets, found, rfl⟩ := Association.written_polymorphic polymorphic made
  have distinct : ((r.writtenFields catalog .create).map (Field.wireName case)).Nodup := by
    by_cases kept : case = .preserve
    · rw [kept, Resource.wireNames_preserve fun f hf => (Resource.written_of_mem hf).plain]
      exact Resource.names_of_registered registered .create
    · exact distinct kept
  refine ⟨targets, found, fun tag target hm => ?_⟩
  have listed := Catalog.mem_keys_of_targets? polymorphic found hm
  cases targets with
  | nil => cases hm
  | cons first rest =>
    refine ⟨first.2, rfl, fun members x hid htag => ?_⟩
    intro v
    have idTold : v.SilentAt idKey ↔ c.acceptsWithin (nestingLimit - 1)
        { first.2.idDefinition with nullable := a.nullable } x = true := by
      rw [← acceptsWithin_optional c _ _ a.optional]
      exact Resource.silentAt_written_iff registered grown distinct
        (within List.mem_cons_self) hid
    have tagTold : v.SilentAt tagKey := by
      refine (Resource.silentAt_written_iff registered grown distinct
        (within (.tail _ List.mem_cons_self)) htag).mpr ?_
      exact (acceptsWithin_optional c _ _ _ _).trans
        (acceptsWithin_enumeration c _ a.nullable listed)
    refine ⟨tagTold, idTold, fun alike accepted => idTold.mpr ?_⟩
    rw [acceptsWithin_congr alike] at accepted
    exact acceptsWithin_nullable first.2.idDefinition_nullable a.nullable accepted

/-! ### Comments -/

def commentSubject : Association where
  name := "subject"
  cardinality := .belongsTo
  target := .polymorphic
    [("customer", "Customer"), ("invoice", "Invoice"), ("supplier", "Supplier")]
  writable := .flag true

def comment : Resource where
  name := "Comment"
  associations := [commentSubject]

def party (name : String) : Resource where
  name := name
  attributes := [{ name := "id", definition := .scalar .uuid }]

def plainInvoice : Resource where
  name := "Invoice"

def commented : Catalog := [
  ("Comment", comment), ("Customer", party "Customer"), ("Invoice", plainInvoice),
  ("Supplier", party "Supplier")]

def commentTypes : Registry :=
  ((comment.registerTypes commented (.api "desk")).runOn .raise .empty).2

/-- Nothing is said of the id of a supplier, which is one that a customer could have. -/
theorem supplier_comment_silent :
    let c : Context := ⟨⟨commentTypes, .api "desk"⟩, .camel⟩
    let id := Json.string "6f9619ff-8b86-4d01-b42d-00cf4fc964ff"
    let body := Json.object [("subjectId", id), ("subjectType", .string "supplier")]
    let v := c.validate (.reference "CommentCreatePayload") body
    c.acceptsWithin (nestingLimit - 1) (party "Supplier").idDefinition id = true ∧
      v.SilentAt "subjectId" ∧ v.SilentAt "subjectType" := by
  have registered : (comment.registerTypes commented (.api "desk")).runOn .raise .empty =
      (.ok (), commentTypes) := Loading.runOn_of_isOk (by decide +kernel)
  have distinct : ((comment.writtenFields commented .create).map
      (Field.wireName .camel)).Nodup := by decide +kernel
  have name : comment.createPayloadName = "CommentCreatePayload" := by decide +kernel
  have idKey : KeyCase.camel.apply (commentSubject.name ++ "_id") = "subjectId" := by
    decide +kernel
  have tagKey : KeyCase.camel.apply (commentSubject.name ++ "_" ++ commentSubject.discriminator) =
      "subjectType" := by decide +kernel
  have alike : (party "Supplier").idDefinition.Alike (party "Customer").idDefinition :=
    Definition.alike_of_sameValue (Definition.sameValue_refl _)
  intro c id body v
  have accepted : c.acceptsWithin (nestingLimit - 1) (party "Supplier").idDefinition id = true := by
    decide +kernel
  obtain ⟨targets, found, told⟩ := polymorphic_ids_are_of_first commented (.api "desk") comment
    .camel registered (.refl _) (fun _ => distinct) (a := commentSubject) List.mem_cons_self rfl rfl
  cases found
  obtain ⟨first, same, silent⟩ := told "supplier" (party "Supplier") (by simp)
  cases same
  simp only [name, idKey, tagKey] at silent
  obtain ⟨atTag, -, atId⟩ :=
    silent [("subjectId", id), ("subjectType", .string "supplier")] id rfl rfl
  exact ⟨accepted, atId alike accepted, atTag⟩

/-- No comment can be about an invoice: its number is taken for the id of a customer. -/
theorem invoice_comment_refused :
    let c : Context := ⟨⟨commentTypes, .api "desk"⟩, .preserve⟩
    let body := Json.object [("subject_id", .int 5), ("subject_type", .string "invoice")]
    ((comment.registerTypes commented (.api "desk")).runOn .raise .empty).1.isOk = true ∧
      commentSubject ∈ comment.associations ∧ commentSubject.name = "subject" ∧
      commentSubject.discriminator = "type" ∧ commentSubject.writable.allows .create = true ∧
      commentSubject.nested = false ∧
      (∃ targets, commented.targets? commentSubject = some targets ∧
        ("invoice", plainInvoice) ∈ targets) ∧
      c.accepts plainInvoice.idDefinition (.int 5) = true ∧
      ¬ (c.validate (.reference "CommentCreatePayload") body).SilentAt "subject_id" := by
  refine ⟨by decide +kernel, List.mem_cons_self, rfl, rfl, rfl, rfl, ?_, by decide +kernel,
    by decide +kernel⟩
  exact ⟨_, rfl, by simp⟩

end ApiContract
