import ApiContract.Proofs.Conformance
import ApiContract.Proofs.SettledPayload

/-!
# Searching a definition

A definition whose references come to an end has finitely many definitions below it, so that what is
asked of all of them can be computed. A walk over any payload then ends as well.
-/

namespace ApiContract

namespace Definition

/-- The fields of an object, or of the objects that an array holds. -/
def fields (d : Definition) : List Field :=
  match d.kind with
  | .object shape | .array (.shape shape) => shape
  | _ => []

def taggedVariants (d : Definition) : List Variant :=
  match d.kind with
  | .union (some _) variants => variants
  | _ => []

theorem fields_of_object {d : Definition} {shape : List Field} (hk : d.kind = .object shape) :
    d.fields = shape := by
  simp [fields, hk]

theorem fields_of_shapes {d : Definition} {shape : List Field}
    (hk : d.kind = .array (.shape shape)) : d.fields = shape := by
  simp [fields, hk]

theorem taggedVariants_of_union {d : Definition} {key : String} {variants : List Variant}
    (hk : d.kind = .union (some key) variants) : d.taggedVariants = variants := by
  simp [taggedVariants, hk]

/-- A definition is an object of a shape with some property, or comes to such definitions by
references and by tagged unions. -/
inductive ComesToShapes (view : View) (P : List Field → Prop) : Definition → Prop where
  | object {d shape} (hk : d.kind = .object shape) (hp : P shape) : ComesToShapes view P d
  | reference {d target} (hk : d.kind = .reference target)
      (h : ∀ definition, view.definition? target = some definition →
        ComesToShapes view P definition) : ComesToShapes view P d
  | tagged {d key variants} (hk : d.kind = .union (some key) variants)
      (h : ∀ v ∈ variants, ComesToShapes view P v.definition) : ComesToShapes view P d

/-- Every definition that occurs in one has a property. -/
def Throughout (view : View) (P : Definition → Prop) (d : Definition) : Prop :=
  ∀ e, Occurs view e d → P e

namespace Throughout

variable {view : View} {P : Definition → Prop} {d : Definition}

theorem self (h : Throughout view P d) : P d := h d .here

theorem reference (h : Throughout view P d) {target : String} {definition : Definition}
    (hk : d.kind = .reference target) (hd : view.definition? target = some definition) :
    Throughout view P definition :=
  fun e he => h e (.reference hk hd he)

theorem field (h : Throughout view P d) {shape : List Field} {f : Field}
    (hk : d.kind = .object shape) (hf : f ∈ shape) : Throughout view P f.definition :=
  fun e he => h e (.field hk hf he)

theorem element (h : Throughout view P d) {element : Definition}
    (hk : d.kind = .array (.of element)) : Throughout view P element :=
  fun e he => h e (.element hk he)

theorem shapeField (h : Throughout view P d) {fields : List Field} {f : Field}
    (hk : d.kind = .array (.shape fields)) (hf : f ∈ fields) : Throughout view P f.definition :=
  fun e he => h e (.shapeField hk hf he)

/-- What an array holds, as a definition of its own. -/
theorem shapes (h : Throughout view P d) {fields : List Field}
    (hk : d.kind = .array (.shape fields)) (hp : P (.object fields)) :
    Throughout view P (.object fields) := by
  intro e he
  cases he with
  | here => exact hp
  | field hk' hf he =>
    cases hk'
    exact h e (.shapeField hk hf he)
  | _ hk' => cases hk'

theorem variant (h : Throughout view P d) {key : Option String} {variants : List Variant}
    {v : Variant} (hk : d.kind = .union key variants) (hv : v ∈ variants) :
    Throughout view P v.definition :=
  fun e he => h e (.variant hk hv he)

end Throughout

end Definition

namespace View

/-- A check of a definition and of every one below it, which has to end within some levels. -/
def everywhere (view : View) (check : Definition → Bool) : Nat → Definition → Bool
  | 0, _ => false
  | n + 1, d => check d &&
    match d.kind with
    | .reference target => (view.definition? target).all (everywhere view check n)
    | .object shape => shape.all fun f => everywhere view check n f.definition
    | .array (.of element) => everywhere view check n element
    | .array (.shape fields) =>
      match n with
      | 0 => false
      | m + 1 => fields.all fun f => everywhere view check m f.definition
    | .union _ variants => variants.all fun v => everywhere view check n v.definition
    | .scalar _ | .literal _ => true

def comesToShapes (view : View) (check : List Field → Bool) : Nat → Definition → Bool
  | 0, _ => false
  | n + 1, d =>
    match d.kind with
    | .object shape => check shape
    | .reference target => (view.definition? target).all (comesToShapes view check n)
    | .union (some _) variants => variants.all fun v => comesToShapes view check n v.definition
    | _ => false

/-- What the search accepts comes to shapes that pass the check. -/
theorem comesToShapes_sound {view : View} {check : List Field → Bool} {P : List Field → Prop}
    (hc : ∀ shape, check shape = true → P shape) {n : Nat} {d : Definition}
    (h : view.comesToShapes check n d = true) : d.ComesToShapes view P := by
  induction n generalizing d with
  | zero => cases h
  | succ n ih =>
    unfold comesToShapes at h
    cases hk : d.kind with
    | object shape => exact .object hk (hc shape (by simpa [hk] using h))
    | reference target =>
      simp only [hk] at h
      refine .reference hk fun definition hd => ih ?_
      simpa [hd] using h
    | union discriminator variants =>
      cases discriminator with
      | some key =>
        simp only [hk, List.all_eq_true] at h
        exact .tagged hk fun v hv => ih (h v hv)
      | none => simp [hk] at h
    | scalar kind => simp [hk] at h
    | array items => simp [hk] at h
    | literal value => simp [hk] at h

variable {view : View} {check : Definition → Bool} {n : Nat} {d : Definition}

theorem check_of_everywhere (h : view.everywhere check n d = true) : check d = true := by
  cases n with
  | zero => cases h
  | succ n =>
    rw [everywhere, Bool.and_eq_true] at h
    exact h.1

theorem everywhere_reference (h : view.everywhere check (n + 1) d = true) {target : String}
    {definition : Definition} (hk : d.kind = .reference target)
    (hd : view.definition? target = some definition) :
    view.everywhere check n definition = true := by
  rw [everywhere, Bool.and_eq_true, hk] at h
  simpa [hd] using h.2

theorem everywhere_field (h : view.everywhere check (n + 1) d = true) {shape : List Field}
    (hk : d.kind = .object shape) {f : Field} (hf : f ∈ shape) :
    view.everywhere check n f.definition = true := by
  rw [everywhere, Bool.and_eq_true, hk] at h
  exact List.all_eq_true.mp h.2 f hf

theorem everywhere_element (h : view.everywhere check (n + 1) d = true) {element : Definition}
    (hk : d.kind = .array (.of element)) : view.everywhere check n element = true := by
  rw [everywhere, Bool.and_eq_true, hk] at h
  exact h.2

theorem everywhere_shapeField (h : view.everywhere check (n + 1) d = true) {fields : List Field}
    (hk : d.kind = .array (.shape fields)) {f : Field} (hf : f ∈ fields) :
    ∃ m, n = m + 1 ∧ view.everywhere check m f.definition = true := by
  cases n with
  | zero => simp [everywhere, hk] at h
  | succ m =>
    rw [everywhere, Bool.and_eq_true, hk] at h
    exact ⟨m, rfl, List.all_eq_true.mp h.2 f hf⟩

theorem everywhere_variant (h : view.everywhere check (n + 1) d = true)
    {discriminator : Option String} {variants : List Variant}
    (hk : d.kind = .union discriminator variants) {v : Variant} (hv : v ∈ variants) :
    view.everywhere check n v.definition = true := by
  rw [everywhere, Bool.and_eq_true, hk] at h
  exact List.all_eq_true.mp h.2 v hv

/-- What is checked everywhere holds of each definition that occurs. -/
theorem check_of_occurs (h : view.everywhere check n d = true) {e : Definition}
    (he : Definition.Occurs view e d) : check e = true := by
  induction he generalizing n with
  | here => exact check_of_everywhere h
  | reference hk hd _ ih =>
    cases n with
    | zero => cases h
    | succ n => exact ih (everywhere_reference h hk hd)
  | field hk hf _ ih =>
    cases n with
    | zero => cases h
    | succ n => exact ih (everywhere_field h hk hf)
  | element hk _ ih =>
    cases n with
    | zero => cases h
    | succ n => exact ih (everywhere_element h hk)
  | shapeField hk hf _ ih =>
    cases n with
    | zero => cases h
    | succ n =>
      obtain ⟨m, -, hm⟩ := everywhere_shapeField h hk hf
      exact ih hm
  | variant hk hv _ ih =>
    cases n with
    | zero => cases h
    | succ n => exact ih (everywhere_variant h hk hv)

end View

/-- No walk goes down further than the search of its definition. -/
theorem Descends.lt_of_everywhere {c : Context} {check : Definition → Bool} {n k : Nat}
    {d : Definition} {j : Json} (h : c.view.everywhere check n d = true)
    (hd : Descends c d j k) : k < n := by
  induction hd generalizing n with
  | here =>
    cases n with
    | zero => cases h
    | succ n => omega
  | reference hk _ hd _ ih =>
    cases n with
    | zero => cases h
    | succ n => exact Nat.succ_lt_succ (ih (View.everywhere_reference h hk hd))
  | member hk hf _ _ ih =>
    cases n with
    | zero => cases h
    | succ n => exact Nat.succ_lt_succ (ih (View.everywhere_field h hk hf))
  | element hk _ _ ih =>
    cases n with
    | zero => cases h
    | succ n => exact Nat.succ_lt_succ (ih (View.everywhere_element h hk))
  | shapeMember hk _ hf _ _ ih =>
    cases n with
    | zero => cases h
    | succ n =>
      obtain ⟨m, rfl, hm⟩ := View.everywhere_shapeField h hk hf
      exact Nat.add_lt_add_right (ih hm) 2
  | tagged hk _ hv _ ih =>
    cases n with
    | zero => cases h
    | succ n =>
      exact Nat.succ_lt_succ (ih (View.everywhere_variant h hk (List.mem_of_find?_eq_some hv)))
  | untagged hk _ _ _ ih =>
    cases n with
    | zero => cases h
    | succ n => exact Nat.succ_lt_succ (ih (View.everywhere_variant h hk (by simp)))

end ApiContract
