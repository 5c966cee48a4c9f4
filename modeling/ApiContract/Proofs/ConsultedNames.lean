import Mathlib.Data.List.Find
import ApiContract.Payload.Interruption
import ApiContract.Proofs.RespelledRecords
import ApiContract.Proofs.SettledPayload

/-!
# The names that walks look up

A walk over a payload asks its view for the target of a reference and for the type whose values an
enumeration takes, at any definition it comes to. Two views that answer alike for these names, which
do not depend on the payload, give the same verdicts, conversions, wire keys and transformations.
-/

namespace ApiContract

/-- A walk looks a name up at a definition itself. -/
inductive Definition.LooksUp : Definition → String → Prop where
  | target {d name} (hk : d.kind = .reference name) : LooksUp d name
  | values {d kind name} (hk : d.kind = .scalar kind) (ha : d.allowed = some (.named name)) :
    LooksUp d name

namespace Definition

/-! ### Names looked up are mentioned -/

theorem mentions_eq (d : Definition) :
    d.mentions = (match d.allowed with
      | some (.named type) => [type]
      | _ => []) ++ d.kind.mentions := by
  obtain ⟨kind, _, _, _, _, _, allowed⟩ := d
  rcases allowed with _ | _ | type <;> rw [mentions.eq_def]

theorem mem_mentions_of_kind {d : Definition} {x : String} (h : x ∈ d.kind.mentions) :
    x ∈ d.mentions := by
  rw [mentions_eq]
  exact List.mem_append_right _ h

/-- The mentions of a field are among those of the shape. -/
theorem mem_listMentions_of_field {shape : List Field} {f : Field} (hf : f ∈ shape) {x : String}
    (h : x ∈ f.definition.mentions) : x ∈ Field.listMentions shape := by
  induction shape with
  | nil => cases hf
  | cons g rest ih =>
    have cons : Field.listMentions (g :: rest) =
        g.definition.mentions ++ Field.listMentions rest := by
      cases g
      rw [Field.listMentions]
    rw [cons, List.mem_append]
    rcases List.mem_cons.mp hf with rfl | hf
    · exact .inl h
    · exact .inr (ih hf)

/-- The mentions of a variant are among those of the union. -/
theorem mem_listMentions_of_variant {variants : List Variant} {v : Variant} (hv : v ∈ variants)
    {x : String} (h : x ∈ v.definition.mentions) : x ∈ Variant.listMentions variants := by
  induction variants with
  | nil => cases hv
  | cons w rest ih =>
    have cons : Variant.listMentions (w :: rest) =
        w.definition.mentions ++ Variant.listMentions rest := by
      cases w
      rw [Variant.listMentions]
    rw [cons, List.mem_append]
    rcases List.mem_cons.mp hv with rfl | hv
    · exact .inl h
    · exact .inr (ih hv)

theorem LooksUp.mem_mentions {d : Definition} {name : String} (h : d.LooksUp name) :
    name ∈ d.mentions := by
  cases h with
  | target hk => exact mem_mentions_of_kind (by simp [hk, Kind.mentions])
  | values _ ha => simp [mentions_eq, ha]

/-- What holds of the names a definition mentions, and goes over from a name to those that its type
mentions, holds of all that definitions occurring there mention. -/
theorem Occurs.all_mentions {view : View} {P : String → Prop} {d e : Definition}
    (closed : ∀ target definition, P target → view.definition? target = some definition →
      ∀ x ∈ definition.mentions, P x)
    (occurs : Occurs view e d) (h : ∀ x ∈ d.mentions, P x) : ∀ x ∈ e.mentions, P x := by
  induction occurs with
  | here => exact h
  | reference hk hd _ ih =>
    exact ih (closed _ _ (h _ (LooksUp.target hk).mem_mentions) hd)
  | field hk hf _ ih =>
    exact ih fun x hx => h x (mem_mentions_of_kind (by
      rw [hk]
      exact mem_listMentions_of_field hf hx))
  | element hk _ ih => exact ih fun x hx => h x (mem_mentions_of_kind (by rwa [hk]))
  | shapeField hk hf _ ih =>
    exact ih fun x hx => h x (mem_mentions_of_kind (by
      rw [hk]
      exact mem_listMentions_of_field hf hx))
  | variant hk hv _ ih =>
    exact ih fun x hx => h x (mem_mentions_of_kind (by
      rw [hk]
      exact mem_listMentions_of_variant hv hx))

end Definition

namespace View

/-- A walk along a definition may look a name up. -/
def Consults (view : View) (d : Definition) (name : String) : Prop :=
  ∃ e, Definition.Occurs view e d ∧ e.LooksUp name

/-- Another view has the same answers to what walks along a definition look up. -/
def AnswersAlike (view other : View) (d : Definition) : Prop :=
  ∀ name, view.Consults d name → other.resolve name = view.resolve name

/-- Walks along a definition come to the same by two views. -/
structure WalksAlike (view other : View) (d : Definition) : Prop where
  validate : ∀ case j, Context.validate ⟨other, case⟩ d j = Context.validate ⟨view, case⟩ d j
  coerce : ∀ case j, Context.coerce ⟨other, case⟩ d j = Context.coerce ⟨view, case⟩ d j
  toWire : ∀ case j, Context.toWire ⟨other, case⟩ d j = Context.toWire ⟨view, case⟩ d j
  transform : ∀ ts stage j, other.transform ts stage d j = view.transform ts stage d j
  validateBreaksOff : ∀ case j,
    Context.validateBreaksOff ⟨other, case⟩ d j = Context.validateBreaksOff ⟨view, case⟩ d j
  coerceBreaksOff : ∀ case j,
    Context.coerceBreaksOff ⟨other, case⟩ d j = Context.coerceBreaksOff ⟨view, case⟩ d j

namespace AnswersAlike

variable {view other : View} {d : Definition}

/-! ### Definitions below -/

theorem below (h : view.AnswersAlike other d) {e : Definition}
    (he : ∀ e', Definition.Occurs view e' e → Definition.Occurs view e' d) :
    view.AnswersAlike other e :=
  fun name ⟨e', occurs, looks⟩ => h name ⟨e', he e' occurs, looks⟩

theorem reference (h : view.AnswersAlike other d) {target : String} {definition : Definition}
    (hk : d.kind = .reference target) (hd : view.definition? target = some definition) :
    view.AnswersAlike other definition := h.below fun _ => .reference hk hd

theorem field (h : view.AnswersAlike other d) {shape : List Field} {f : Field}
    (hk : d.kind = .object shape) (hf : f ∈ shape) : view.AnswersAlike other f.definition :=
  h.below fun _ => .field hk hf

theorem element (h : view.AnswersAlike other d) {element : Definition}
    (hk : d.kind = .array (.of element)) : view.AnswersAlike other element :=
  h.below fun _ => .element hk

theorem shapeField (h : view.AnswersAlike other d) {fields : List Field} {f : Field}
    (hk : d.kind = .array (.shape fields)) (hf : f ∈ fields) :
    view.AnswersAlike other f.definition := h.below fun _ => .shapeField hk hf

theorem variant (h : view.AnswersAlike other d) {key : Option String} {variants : List Variant}
    {v : Variant} (hk : d.kind = .union key variants) (hv : v ∈ variants) :
    view.AnswersAlike other v.definition := h.below fun _ => .variant hk hv

/-- The variant that a tag chooses is one of the union's. -/
theorem chosen (h : view.AnswersAlike other d) {discriminator : Option String}
    {variants : List Variant} {key : String} {j : Json} {v : Variant}
    (hk : d.kind = .union discriminator variants) (hv : Variant.chosenBy? variants key j = some v) :
    view.AnswersAlike other v.definition := by
  obtain ⟨tag, -, found⟩ := Option.bind_eq_some_iff.mp hv
  exact h.variant hk (List.mem_of_find?_eq_some found)

theorem resolve_target (h : view.AnswersAlike other d) {target : String}
    (hk : d.kind = .reference target) : other.resolve target = view.resolve target :=
  h target ⟨d, .here, .target hk⟩

theorem definition?_target (h : view.AnswersAlike other d) {target : String}
    (hk : d.kind = .reference target) : other.definition? target = view.definition? target := by
  rw [definition?, definition?, h.resolve_target hk]

/-- Listed values are looked up by a name that the definition mentions. -/
theorem allowedValues? (h : view.AnswersAlike other d) {kind : ScalarKind}
    (hk : d.kind = .scalar kind) :
    Validation.allowedValues? other d = Validation.allowedValues? view d := by
  cases ha : d.allowed with
  | none => simp [Validation.allowedValues?, ha]
  | some allowed =>
    cases allowed with
    | inline values => simp [Validation.allowedValues?, ha]
    | named name =>
      have same := h name ⟨d, .here, .values hk ha⟩
      simp [Validation.allowedValues?, ha, enumValues, same]

end AnswersAlike

end View

open View

variable {view other : View} {case : KeyCase} {d : Definition}

/-! ### Verdicts -/

namespace Validation

variable {next next' : Judge}

/-- The verdict on an object depends on the verdicts on its fields only. -/
theorem object_congr {shape : List Field}
    (h : ∀ f ∈ shape, ∀ path j, next' path f.definition j = next path f.definition j)
    (path : Path) (j : Json) : object case next' path shape j = object case next path shape j := by
  cases j with
  | object members =>
    have fields : (shape.map fun f => (f, field case next' path members f)) =
        shape.map fun f => (f, field case next path members f) := by
      refine List.map_congr_left fun f hf => ?_
      rw [field, field]
      split
      · rw [h f hf]
      · rfl
    simp only [object, fields]
  | _ => rfl

/-- The variant is chosen by the value alone. -/
theorem taggedUnion_congr {variants : List Variant}
    (h : ∀ v ∈ variants, ∀ path j, next' path v.definition j = next path v.definition j)
    (path : Path) (key : String) (j : Json) :
    taggedUnion case next' path key variants j = taggedUnion case next path key variants j := by
  cases j with
  | object members =>
    simp only [taggedUnion]
    split
    · rfl
    · split
      · rfl
      · rename_i tag _ variant chosen
        obtain ⟨s, -, hs⟩ := Option.bind_eq_some_iff.mp chosen
        rw [h variant (List.mem_of_find?_eq_some hs)]
  | _ => rfl

/-- All trials come to the same, so the same one is chosen. -/
theorem untaggedUnion_congr {variants : List Variant}
    (h : ∀ v ∈ variants, ∀ path j, next' path v.definition j = next path v.definition j)
    (path : Path) (j : Json) :
    untaggedUnion next' path variants j = untaggedUnion next path variants j := by
  have first : firstClean? next' path j variants = firstClean? next path j variants := by
    induction variants with
    | nil => rfl
    | cons v rest ih =>
      rw [firstClean?, firstClean?, h v List.mem_cons_self,
        ih fun w hw => h w (List.mem_cons_of_mem v hw)]
  rw [untaggedUnion, untaggedUnion, first]

/-- One value is judged alike if those below it are. -/
theorem step_congr {afterNext afterNext' : Judge} (alike : view.AnswersAlike other d)
    (hn : ∀ e, view.AnswersAlike other e → ∀ path j, next' path e j = next path e j)
    (ha : ∀ e, view.AnswersAlike other e → ∀ path j, afterNext' path e j = afterNext path e j)
    (path : Path) (j : Json) :
    step ⟨other, case⟩ next' afterNext' path d j = step ⟨view, case⟩ next afterNext path d j := by
  rw [step, step]
  split
  · rfl
  · split
    · rfl
    · split
      · rename_i target hk
        simp only [alike.definition?_target hk]
        split
        · rename_i definition hd
          exact hn definition (alike.reference hk hd) path j
        · rfl
      · rename_i shape hk
        exact object_congr (fun f hf => hn _ (alike.field hk hf)) path j
      · rename_i element hk
        have same : (fun path => next' path element) = fun path => next path element :=
          funext fun path => funext fun j => hn element (alike.element hk) path j
        rw [same]
      · rename_i fields hk
        have same : (fun path => object case afterNext' path fields) =
            fun path => object case afterNext path fields :=
          funext fun path => funext fun j =>
            object_congr (fun f hf => ha _ (alike.shapeField hk hf)) path j
        simp only [same]
      · rename_i key variants hk
        exact taggedUnion_congr (fun v hv => hn _ (alike.variant hk hv)) path key j
      · rename_i variants hk
        exact untaggedUnion_congr (fun v hv => hn _ (alike.variant hk hv)) path j
      · rfl
      · rename_i kind hk
        simp only [scalar, enumIssues, alike.allowedValues? hk]

/-- Two views that answer alike judge alike, by induction on the levels. -/
theorem judge_congr (n : Nat) (alike : view.AnswersAlike other d) (path : Path) (j : Json) :
    judge ⟨other, case⟩ n path d j = judge ⟨view, case⟩ n path d j := by
  induction n using Nat.strongRecOn generalizing d path j with
  | ind n ih =>
    cases n with
    | zero => rfl
    | succ n =>
      rw [judge_succ, judge_succ]
      exact step_congr alike (fun e he path j => ih n (by omega) he path j)
        (fun e he path j => ih (n - 1) (by omega) he path j) path j

end Validation

theorem accepts_congr (alike : view.AnswersAlike other d) (j : Json) :
    Context.accepts ⟨other, case⟩ d j = Context.accepts ⟨view, case⟩ d j := by
  rw [Context.accepts, Context.accepts, Context.validate, Context.validate,
    Validation.judge_congr _ alike]

/-! ### Conversions -/

namespace Coercion

variable {next next' : Converter}

theorem object_congr {shape : List Field}
    (h : ∀ f ∈ shape, ∀ j, next' f.definition j = next f.definition j) (j : Json) :
    object case next' shape j = object case next shape j := by
  cases j with
  | object members =>
    have fields := List.foldl_ext
      (fun members (f : Field) => Keyed.modify (f.wireName case) (next' f.definition) members)
      (fun members f => Keyed.modify (f.wireName case) (next f.definition) members) members
      fun ms f hf => by rw [funext (h f hf)]
    simp only [object, fields]
  | _ => rfl

/-- The trials of variants are judged in the same way, so the same one is taken. -/
theorem firstAccepted?_congr {variants : List Variant}
    (alike : ∀ v ∈ variants, view.AnswersAlike other v.definition)
    (h : ∀ v ∈ variants, ∀ j, next' v.definition j = next v.definition j) (j : Json) :
    firstAccepted? ⟨other, case⟩ next' j variants = firstAccepted? ⟨view, case⟩ next j variants := by
  induction variants with
  | nil => rfl
  | cons v rest ih =>
    rw [firstAccepted?, firstAccepted?, h v List.mem_cons_self,
      accepts_congr (alike v List.mem_cons_self),
      ih (fun w hw => alike w (List.mem_cons_of_mem v hw))
        fun w hw => h w (List.mem_cons_of_mem v hw)]

/-- One value is converted alike if those below it are. -/
theorem step_congr {afterNext afterNext' : Converter} (alike : view.AnswersAlike other d)
    (hn : ∀ e, view.AnswersAlike other e → ∀ j, next' e j = next e j)
    (ha : ∀ e, view.AnswersAlike other e → ∀ j, afterNext' e j = afterNext e j) (j : Json) :
    step ⟨other, case⟩ next' afterNext' d j = step ⟨view, case⟩ next afterNext d j := by
  rw [step, step]
  split
  · rfl
  · split
    · rename_i target hk
      simp only [alike.definition?_target hk]
      split
      · rename_i definition hd
        exact hn definition (alike.reference hk hd) j
      · rfl
    · rename_i shape hk
      exact object_congr (fun f hf => hn _ (alike.field hk hf)) j
    · rename_i element hk
      rw [funext (hn element (alike.element hk))]
    · rename_i fields hk
      have same : object case afterNext' fields = object case afterNext fields :=
        funext (object_congr fun f hf => ha _ (alike.shapeField hk hf))
      simp only [same]
    · rename_i key variants hk
      dsimp only
      split
      · rename_i variant chosen
        exact hn _ (alike.chosen hk chosen) j
      · rfl
    · rename_i variants hk
      have first : firstAccepted? ⟨other, case⟩ next' j variants =
          firstAccepted? ⟨view, case⟩ next j variants :=
        firstAccepted?_congr (fun v hv => alike.variant hk hv)
          (fun v hv => hn _ (alike.variant hk hv)) j
      simp only [untaggedUnion, first]
    · rfl
    · rfl

/-- They convert alike as well. -/
theorem convert_congr (n : Nat) (alike : view.AnswersAlike other d) (j : Json) :
    convert ⟨other, case⟩ n d j = convert ⟨view, case⟩ n d j := by
  induction n using Nat.strongRecOn generalizing d j with
  | ind n ih =>
    cases n with
    | zero => rfl
    | succ n =>
      rw [convert_succ, convert_succ]
      exact step_congr alike (fun e he j => ih n (by omega) he j)
        (fun e he j => ih (n - 1) (by omega) he j) j

end Coercion

/-! ### Wire keys -/

namespace WireKeys

variable {next next' : Rekeying}

/-- Entries go out alike if the values of all fields do. -/
theorem outEntries_congr {shape : List Field}
    (h : ∀ f ∈ shape, ∀ j, next' f.definition j = next f.definition j) (record : Keyed Json) :
    outEntries case next' shape record = outEntries case next shape record := by
  induction shape generalizing record with
  | nil => rfl
  | cons f rest ih =>
    have below := ih fun g hg => h g (List.mem_cons_of_mem f hg)
    rw [outEntries, outEntries]
    split
    · rw [h f List.mem_cons_self, below]
    · exact below record

theorem object_congr {shape : List Field}
    (h : ∀ f ∈ shape, ∀ j, next' f.definition j = next f.definition j) (j : Json) :
    object case next' shape j = object case next shape j := by
  cases j with
  | object record =>
    rw [object, object, members_eq_ofList, members_eq_ofList, outEntries_congr h]
  | _ => rfl

/-- The keys of one value are respelled alike if those below it are. -/
theorem step_congr (alike : view.AnswersAlike other d)
    (hn : ∀ e, view.AnswersAlike other e → ∀ j, next' e j = next e j) (j : Json) :
    step ⟨other, case⟩ next' d j = step ⟨view, case⟩ next d j := by
  rw [step, step]
  split
  · rename_i target hk
    simp only [alike.definition?_target hk]
    split
    · rename_i definition hd
      exact hn definition (alike.reference hk hd) j
    · rfl
  · rename_i shape hk
    exact object_congr (fun f hf => hn _ (alike.field hk hf)) j
  · rename_i element hk
    rw [funext (hn element (alike.element hk))]
  · rename_i fields hk
    have same : object case next' fields = object case next fields :=
      funext (object_congr fun f hf => hn _ (alike.shapeField hk hf))
    simp only [same]
  · rename_i key variants hk
    dsimp only
    congr 1
    split
    · rename_i variant chosen
      exact hn _ (alike.chosen hk chosen) j
    · rfl
  · rename_i variants hk
    split
    · rename_i variant first
      exact hn _ (alike.variant hk (List.mem_of_find?_eq_some first)) j
    · rfl
  · rfl
  · rfl

theorem rekey_congr (n : Nat) (alike : view.AnswersAlike other d) (j : Json) :
    rekey ⟨other, case⟩ n d j = rekey ⟨view, case⟩ n d j := by
  induction n generalizing d j with
  | zero => rfl
  | succ n ih =>
    rw [rekey, rekey]
    exact step_congr alike (fun e he j => ih he j) j

end WireKeys

/-! ### Transformations -/

namespace Transformation

variable {next next' : Transform}

theorem object_congr {shape : List Field}
    (h : ∀ f ∈ shape, ∀ j, next' f.definition j = next f.definition j) (j : Json) :
    object next' shape j = object next shape j := by
  cases j with
  | object members =>
    have same : shape.foldlM (fun members f => modifyM f.name (next' f.definition) members) members =
        shape.foldlM (fun members f => modifyM f.name (next f.definition) members) members := by
      induction shape generalizing members with
      | nil => rfl
      | cons f rest ih =>
        rw [List.foldlM_cons, List.foldlM_cons, funext (h f List.mem_cons_self)]
        congr 1
        funext ms
        exact ih (fun g hg => h g (List.mem_cons_of_mem f hg)) ms
    simp only [object, same]
  | _ => rfl

/-- What lies below one value is transformed alike if each value there is. -/
theorem inside_congr {afterNext afterNext' : Transform} (alike : view.AnswersAlike other d)
    (hn : ∀ e, view.AnswersAlike other e → ∀ j, next' e j = next e j)
    (ha : ∀ e, view.AnswersAlike other e → ∀ j, afterNext' e j = afterNext e j) (j : Json) :
    inside other next' afterNext' d j = inside view next afterNext d j := by
  rw [inside, inside]
  split
  · rename_i target hk
    rw [alike.resolve_target hk]
    cases hr : view.resolve target with
    | error e => rfl
    | ok t =>
      have hd : view.definition? target = some t.definition := by rw [definition?, hr]
      exact hn t.definition (alike.reference hk hd) j
  · rename_i shape hk
    exact object_congr (fun f hf => hn _ (alike.field hk hf)) j
  · rename_i element hk
    rw [funext (hn element (alike.element hk))]
  · rename_i fields hk
    have same : object afterNext' fields = object afterNext fields :=
      funext (object_congr fun f hf => ha _ (alike.shapeField hk hf))
    simp only [same]
  · rename_i key variants hk
    split
    · rename_i variant chosen
      exact hn _ (alike.chosen hk chosen) j
    · rfl
  · rename_i variants hk
    have chosen : (variants.find? fun v => Context.accepts ⟨other, .preserve⟩ v.definition j) =
        variants.find? fun v => Context.accepts ⟨view, .preserve⟩ v.definition j :=
      List.find?_congr fun v hv => accepts_congr (alike.variant hk hv) j
    simp only [chosen]
    split
    · rename_i variant first
      exact hn _ (alike.variant hk (List.mem_of_find?_eq_some first)) j
    · rfl
  · rfl
  · rfl

/-- Transformers are those of the definition itself, so only look-ups matter. -/
theorem transform_congr (ts : Transformers) (stage : Stage) (n : Nat)
    (alike : view.AnswersAlike other d) (j : Json) :
    transform other ts stage n d j = transform view ts stage n d j := by
  induction n using Nat.strongRecOn generalizing d j with
  | ind n ih =>
    cases n with
    | zero => rfl
    | succ n =>
      rw [transform_succ, transform_succ, step, step,
        inside_congr alike (fun e he j => ih n (by omega) he j)
          (fun e he j => ih (n - 1) (by omega) he j) j]

end Transformation

/-! ### Texts read as datetimes -/

section

variable {next next' : TextsRead}

theorem membersRead_congr {shape : List Field}
    (h : ∀ f ∈ shape, ∀ j, next' f.definition j = next f.definition j) (j : Json) :
    membersRead case next' shape j = membersRead case next shape j := by
  cases j with
  | object members => exact List.flatMap_congr fun f hf => by rw [funext (h f hf)]
  | _ => rfl

end

namespace Validation

variable {next next' afterNext afterNext' : TextsRead} {judge judge' : Judge}

/-- The texts that the trials of variants read are the same, as the same trials are made. -/
theorem variantsRead_congr {variants : List Variant} {j : Json}
    (hj : ∀ v ∈ variants, judge' [] v.definition j = judge [] v.definition j)
    (h : ∀ v ∈ variants, next' v.definition j = next v.definition j) :
    variantsRead judge' next' j variants = variantsRead judge next j variants := by
  induction variants with
  | nil => rfl
  | cons v rest ih =>
    rw [variantsRead, variantsRead, hj v List.mem_cons_self, h v List.mem_cons_self,
      ih (fun w hw => hj w (List.mem_cons_of_mem v hw)) fun w hw => h w (List.mem_cons_of_mem v hw)]

/-- The same texts are read at one value if they are at those below it. -/
theorem stepRead_congr (alike : view.AnswersAlike other d)
    (hj : ∀ e, view.AnswersAlike other e → ∀ path j, judge' path e j = judge path e j)
    (hn : ∀ e, view.AnswersAlike other e → ∀ j, next' e j = next e j)
    (ha : ∀ e, view.AnswersAlike other e → ∀ j, afterNext' e j = afterNext e j) (j : Json) :
    stepRead ⟨other, case⟩ judge' next' afterNext' d j =
      stepRead ⟨view, case⟩ judge next afterNext d j := by
  rw [stepRead, stepRead]
  split
  · rfl
  · split
    · rename_i target hk
      simp only [alike.definition?_target hk]
      split
      · rename_i definition hd
        exact hn definition (alike.reference hk hd) j
      · rfl
    · rename_i shape hk
      exact membersRead_congr (fun f hf => hn _ (alike.field hk hf)) j
    · rename_i element hk
      rw [funext (hn element (alike.element hk))]
    · rename_i fields hk
      have same : membersRead case afterNext' fields = membersRead case afterNext fields :=
        funext (membersRead_congr fun f hf => ha _ (alike.shapeField hk hf))
      simp only [same]
    · rename_i key variants hk
      dsimp only
      split
      · rename_i variant chosen
        exact hn _ (alike.chosen hk chosen) j
      · rfl
    · rename_i variants hk
      exact variantsRead_congr (fun v hv => hj _ (alike.variant hk hv) [] j)
        (fun v hv => hn _ (alike.variant hk hv) j)
    · rfl
    · rfl

theorem read_congr (n : Nat) (alike : view.AnswersAlike other d) (j : Json) :
    read ⟨other, case⟩ n d j = read ⟨view, case⟩ n d j := by
  induction n using Nat.strongRecOn generalizing d j with
  | ind n ih =>
    cases n with
    | zero => rfl
    | succ n =>
      rw [read_succ, read_succ]
      exact stepRead_congr alike (fun e he path j => judge_congr n he path j)
        (fun e he j => ih n (by omega) he j) (fun e he j => ih (n - 1) (by omega) he j) j

end Validation

namespace Coercion

variable {next next' afterNext afterNext' : TextsRead}
  {convert convert' afterConvert afterConvert' : Converter}

theorem fieldsRead_congr {shape : List Field}
    (hc : ∀ f ∈ shape, ∀ j, convert' f.definition j = convert f.definition j)
    (h : ∀ f ∈ shape, ∀ j, next' f.definition j = next f.definition j) (members : Keyed Json) :
    fieldsRead case convert' next' shape members = fieldsRead case convert next shape members := by
  induction shape generalizing members with
  | nil => rfl
  | cons f rest ih =>
    rw [fieldsRead, fieldsRead, funext (hc f List.mem_cons_self), funext (h f List.mem_cons_self),
      ih (fun g hg => hc g (List.mem_cons_of_mem f hg)) fun g hg => h g (List.mem_cons_of_mem f hg)]

theorem objectRead_congr {shape : List Field}
    (hc : ∀ f ∈ shape, ∀ j, convert' f.definition j = convert f.definition j)
    (h : ∀ f ∈ shape, ∀ j, next' f.definition j = next f.definition j) (j : Json) :
    objectRead case convert' next' shape j = objectRead case convert next shape j := by
  cases j with
  | object members => exact fieldsRead_congr hc h members
  | _ => rfl

theorem variantsRead_congr {variants : List Variant} {j : Json}
    (alike : ∀ v ∈ variants, view.AnswersAlike other v.definition)
    (hc : ∀ v ∈ variants, convert' v.definition j = convert v.definition j)
    (h : ∀ v ∈ variants, next' v.definition j = next v.definition j) :
    variantsRead ⟨other, case⟩ convert' next' j variants =
      variantsRead ⟨view, case⟩ convert next j variants := by
  induction variants with
  | nil => rfl
  | cons v rest ih =>
    have tested : Context.readByValidate ⟨other, case⟩ v.definition =
        Context.readByValidate ⟨view, case⟩ v.definition :=
      funext (Validation.read_congr (nestingLimit + 1) (alike v List.mem_cons_self))
    rw [variantsRead, variantsRead, hc v List.mem_cons_self, h v List.mem_cons_self, tested,
      accepts_congr (alike v List.mem_cons_self),
      ih (fun w hw => alike w (List.mem_cons_of_mem v hw))
        (fun w hw => hc w (List.mem_cons_of_mem v hw))
        fun w hw => h w (List.mem_cons_of_mem v hw)]

/-- The same texts are read at one value if they are at those below it. -/
theorem stepRead_congr (alike : view.AnswersAlike other d)
    (hc : ∀ e, view.AnswersAlike other e → ∀ j, convert' e j = convert e j)
    (hac : ∀ e, view.AnswersAlike other e → ∀ j, afterConvert' e j = afterConvert e j)
    (hn : ∀ e, view.AnswersAlike other e → ∀ j, next' e j = next e j)
    (ha : ∀ e, view.AnswersAlike other e → ∀ j, afterNext' e j = afterNext e j) (j : Json) :
    stepRead ⟨other, case⟩ convert' afterConvert' next' afterNext' d j =
      stepRead ⟨view, case⟩ convert afterConvert next afterNext d j := by
  rw [stepRead, stepRead]
  split
  · rfl
  · split
    · rename_i target hk
      simp only [alike.definition?_target hk]
      split
      · rename_i definition hd
        exact hn definition (alike.reference hk hd) j
      · rfl
    · rename_i shape hk
      exact objectRead_congr (fun f hf => hc _ (alike.field hk hf))
        (fun f hf => hn _ (alike.field hk hf)) j
    · rename_i element hk
      rw [funext (hn element (alike.element hk))]
    · rename_i fields hk
      have same : objectRead case afterConvert' afterNext' fields =
          objectRead case afterConvert afterNext fields :=
        funext (objectRead_congr (fun f hf => hac _ (alike.shapeField hk hf))
          fun f hf => ha _ (alike.shapeField hk hf))
      simp only [same]
    · rename_i key variants hk
      dsimp only
      split
      · rename_i variant chosen
        exact hn _ (alike.chosen hk chosen) j
      · rfl
    · rename_i variants hk
      have same : variantsRead ⟨other, case⟩ convert' next' j variants =
          variantsRead ⟨view, case⟩ convert next j variants :=
        variantsRead_congr (fun v hv => alike.variant hk hv)
          (fun v hv => hc _ (alike.variant hk hv) j) (fun v hv => hn _ (alike.variant hk hv) j)
      simp only [unionRead, same]
    · rfl
    · rfl

theorem read_congr (n : Nat) (alike : view.AnswersAlike other d) (j : Json) :
    read ⟨other, case⟩ n d j = read ⟨view, case⟩ n d j := by
  induction n using Nat.strongRecOn generalizing d j with
  | ind n ih =>
    cases n with
    | zero => rfl
    | succ n =>
      rw [read_succ, read_succ]
      exact stepRead_congr alike (fun e he j => convert_congr n he j)
        (fun e he j => convert_congr (n - 1) he j) (fun e he j => ih n (by omega) he j)
        (fun e he j => ih (n - 1) (by omega) he j) j

end Coercion

/-- Views with the same answers to what walks along a definition look up walk along it alike. -/
theorem View.AnswersAlike.walksAlike (alike : view.AnswersAlike other d) :
    view.WalksAlike other d where
  validate _ j := Validation.judge_congr (nestingLimit + 1) alike [] j
  coerce _ j := Coercion.convert_congr (nestingLimit + 1) alike j
  toWire _ j := WireKeys.rekey_congr (nestingLimit + 1) alike j
  transform ts stage j := Transformation.transform_congr ts stage (nestingLimit + 1) alike j
  validateBreaksOff _ j :=
    congrArg (List.any · breaksOff) (Validation.read_congr (nestingLimit + 1) alike j)
  coerceBreaksOff _ j :=
    congrArg (List.any · breaksOff) (Coercion.read_congr (nestingLimit + 1) alike j)

end ApiContract
