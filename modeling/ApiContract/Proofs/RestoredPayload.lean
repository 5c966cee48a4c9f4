import ApiContract.Proofs.Conformance
import ApiContract.Proofs.RestoredRecords

/-!
# Payloads restored on the way out

The params of an accepted payload go out as the payload itself: every param finds the way back to the
key that it was read from. This takes fields without defaults and with names of their own, tagged
unions of shapes that leave the keys of the tag alone, and, in unions without a discriminator, that
the way out follows the variant that accepted the value.
-/

namespace ApiContract

namespace Coercion

theorem Visits.of_leadsTo {c : Context} {shape : List Field} {i : Nat} {d : Definition}
    (h : Definition.LeadsTo c.view shape i d) {k : Nat} {members : Keyed Json} {f : Field}
    (hf : f ∈ shape) {x : Json} (hx : Keyed.get? members (f.wireName c.case) = some x) {m : Nat}
    {e : Definition} {y : Json} (hv : Visits c m e y k f.definition x) :
    Visits c m e y (k + (i + 1)) d (.object members) := by
  induction h with
  | object hk => exact .member hk hf hx hv
  | reference hk hd _ ih => exact .reference hk hd ih

/-- What a walk comes to occurs in the definition. -/
theorem Visits.occurs {c : Context} {m n : Nat} {e d : Definition} {k j : Json}
    (h : Visits c m e k n d j) : Definition.Occurs c.view e d := by
  induction h with
  | here => exact .here
  | reference hk hd _ ih => exact .reference hk hd ih
  | member hk hf _ _ ih => exact .field hk hf ih
  | element hk _ _ ih => exact .element hk ih
  | shapeMember hk _ hf _ _ ih => exact .shapeField hk hf ih
  | tagged hk _ hv _ ih => exact .variant hk (List.mem_of_find?_eq_some hv) ih
  | untagged hk _ _ _ ih => exact .variant hk (by simp) ih

end Coercion

namespace WireKeys

open Validation

/-! ### The walk out -/

theorem rekey_of_leadsTo {c : Context} {shape : List Field} {i : Nat} {d : Definition}
    (h : Definition.LeadsTo c.view shape i d) (k : Nat) (j : Json) :
    rekey c (k + (i + 1)) d j = object c.case (rekey c k) shape j := by
  induction h with
  | object hk => exact rekey_object hk j
  | reference hk hd _ ih =>
    rw [← Nat.add_assoc, rekey_reference hk hd, ih]

/-- The value `null` goes out as itself. -/
theorem rekey_null (c : Context) (n : Nat) (d : Definition) : rekey c n d .null = .null := by
  induction n generalizing d with
  | zero => rfl
  | succ n ih =>
    simp only [rekey, step]
    split
    · split
      · exact ih _
      · rfl
    · rfl
    · rfl
    · rfl
    · rfl
    · split
      · exact ih _
      · rfl
    · rfl
    · rfl

/-- In a union without a discriminator the way out spells the params as the variant does that
accepted the value, whatever levels it has left below. -/
def Follows (c : Context) (n : Nat) (d : Definition) (w : Json) : Prop :=
  ∀ front variant back, d.kind = .union none (front ++ variant :: back) →
    (∀ u ∈ front, c.acceptsWithin n u.definition w = false) →
    c.acceptsWithin n variant.definition w = true →
    ∀ m, n ≤ m → rekey c (m + 1) d (c.paramsWithin n variant.definition w) =
      rekey c m variant.definition (c.paramsWithin n variant.definition w)

/-- It does so if the variant is the first one for values of the params' kind. -/
theorem follows_of_find? {c : Context} {n : Nat} {d : Definition} {w : Json}
    (h : ∀ front variant back, d.kind = .union none (front ++ variant :: back) →
      (∀ u ∈ front, c.acceptsWithin n u.definition w = false) →
      c.acceptsWithin n variant.definition w = true →
      (front ++ variant :: back).find?
        (fun v => fits v.definition (c.paramsWithin n variant.definition w)) = some variant) :
    Follows c n d w := by
  intro front variant back hk hf hv m _
  exact rekey_untagged hk (h front variant back hk hf hv)

theorem follows_of_ne {c : Context} {d : Definition} (h : ∀ variants, d.kind ≠ .union none variants)
    (n : Nat) (w : Json) : Follows c n d w :=
  fun _ _ _ hk => absurd hk (h _)

/-- A tagged object goes out by the variant that its tag chose on the way in. -/
theorem rekey_withTag {c : Context} {k m i : Nat} {d : Definition} {key tag : String}
    {variants : List Variant} {variant : Variant} {shape : List Field} {members : Keyed Json}
    (hk : d.kind = .union (some key) variants)
    (ht : Keyed.get? members (c.case.apply key) = some (.string tag))
    (hv : Variant.tagged? variants tag = some variant)
    (leads : Definition.LeadsTo c.view shape i variant.definition)
    (leaves : ∀ f ∈ shape, f.LeavesTag c.case key)
    (hr : Restores c.case (rekey c m) (c.paramsWithin k) shape members)
    (meets : MeetsShape c.case [c.case.apply key] (CleanBy (judge c k) []) shape members) :
    rekey c (m + (i + 1) + 1) d
      (holdTag key (.string tag) (.object (named c.case (c.paramsWithin k) shape members))) =
        .object members := by
  have chosen := chosenBy?_withTag_named hv hr.distinct ht (fun f hf => (leaves f hf).wireName)
    (paramsWithin_tag meets ht)
  rw [holdTag, rekey_tagged hk chosen, rekey_of_leadsTo leads]
  exact hr.moveTag_holdTag meets.known ht leaves

/-- What a walk accepts, its params go out as again. -/
theorem rekey_paramsWithin {c : Context} {n m : Nat} (hle : n ≤ m) {d : Definition} {w : Json}
    (clean : CleanBy (judge c n) [] d w) (ordered : w.Ordered)
    (reversible : ∀ e, Definition.Occurs c.view e d → e.Reversible c)
    (follows : ∀ k e x, Coercion.Visits c (k + 1) e x n d w → Follows c k e x) :
    rekey c m d (c.paramsWithin n d w) = w := by
  induction n using Nat.strongRecOn generalizing m d w with
  | ind n ih =>
    cases n with
    | zero => exact absurd clean (not_cleanBy_judge_zero c [] d w)
    | succ n =>
      obtain ⟨m, rfl⟩ : ∃ k, m = k + 1 := ⟨m - 1, by omega⟩
      have hs := stepYields_of_clean clean
      generalize hp : c.paramsWithin (n + 1) d w = p at hs ⊢
      cases hs with
      | null hn => exact rekey_null c _ d
      | reference hk hd h =>
        rw [rekey_reference hk hd]
        exact ih n (by omega) (by omega) h ordered (fun e he => reversible e (.reference hk hd he))
          fun k e x hv => follows k e x (.reference hk hd hv)
      | @object shape members hk h =>
        rw [rekey_object hk]
        have hr : Restores c.case (rekey c m) (c.paramsWithin n) shape members := by
          refine ⟨(reversible d .here).distinct shape (.inl hk), ?_, ordered.sorted, ?_⟩
          · intro f hf
            exact (reversible _ (.field hk hf .here)).noDefault
          · intro f hf x hx
            exact ih n (by omega) (by omega) (h.present f hf x hx) (ordered.of_get? hx)
              (fun e he => reversible e (.field hk hf he))
              fun k e y hv => follows k e y (.member hk hf hx hv)
        exact hr.object_named fun key hkey => (h.known key hkey).resolve_right nofun
      | @array element elements hk hc h =>
        rw [rekey_array hk, array, List.map_map, Json.array.injEq]
        refine (List.map_congr_left fun x hx => ?_).trans (List.map_id' elements)
        exact ih n (by omega) (by omega) (h x hx) (ordered.of_mem hx)
          (fun e he => reversible e (.element hk he))
          fun k e y hv => follows k e y (.element hk hx hv)
      | @shapes fields elements hk hc h =>
        rw [rekey_shapes hk, array, List.map_map, Json.array.injEq]
        refine (List.map_congr_left fun x hx => ?_).trans (List.map_id' elements)
        obtain ⟨members, rfl, meets⟩ := h x hx
        have ho := ordered.of_mem hx
        have hr : Restores c.case (rekey c m) (c.paramsWithin (n - 1)) fields members := by
          refine ⟨(reversible d .here).distinct fields (.inr hk), ?_, ho.sorted, ?_⟩
          · intro f hf
            exact (reversible _ (.shapeField hk hf .here)).noDefault
          · intro f hf y hy
            exact ih (n - 1) (by omega) (by omega) (meets.present f hf y hy) (ho.of_get? hy)
              (fun e he => reversible e (.shapeField hk hf he))
              fun k e z hv => follows k e z (.shapeMember hk hx hf hy hv)
        exact hr.object_named fun key hkey => (meets.known key hkey).resolve_right nofun
      | @tagged key variants members tag variant hk ht hv h =>
        have hm : variant ∈ variants := List.mem_of_find?_eq_some hv
        obtain ⟨shape, i, leads, leaves⟩ := (reversible d .here).tagged key variants hk variant hm
        obtain ⟨k, rfl, meets, params⟩ := paramsWithin_of_leadsTo leads h
        obtain ⟨m, rfl⟩ : ∃ l, m = l + (i + 1) := ⟨m - (i + 1), by omega⟩
        have occurs : ∀ f ∈ shape, ∀ e, Definition.Occurs c.view e f.definition →
            Definition.Occurs c.view e d :=
          fun f hf e he => .variant hk hm (leads.occurs_field hf he)
        have hr : Restores c.case (rekey c m) (c.paramsWithin k) shape members := by
          obtain ⟨e, he, ho⟩ := leads.occurs_shape
          refine ⟨(reversible e (.variant hk hm ho)).distinct shape (.inl he), ?_,
            ordered.sorted, ?_⟩
          · intro f hf
            exact (reversible _ (occurs f hf _ .here)).noDefault
          · intro f hf x hx
            exact ih k (by omega) (by omega) (meets.present f hf x hx) (ordered.of_get? hx)
              (fun e he => reversible e (occurs f hf e he))
              fun l e y hy => follows l e y (.tagged hk ht hv (.of_leadsTo leads hf hx hy))
        rw [params]
        exact rekey_withTag hk ht hv leads leaves hr meets
      | @untagged _ front variant back hk hf hv =>
        rw [follows n d w .here front variant back hk hf hv m (by omega)]
        exact ih n (by omega) (by omega) ((acceptsWithin_iff c n _ _).mp hv) ordered
          (fun e he => reversible e (.variant hk (by simp) he))
          fun k e x hx => follows k e x (.untagged hk hf hv hx)
      | literal hk hs => exact rekey_eq_self w (by simp [hk])
      | scalar hk hn h => exact rekey_eq_self w (by simp [hk])

end WireKeys

theorem Context.toWire_params {c : Context} {d : Definition} {w : Json}
    (accepted : c.accepts d w = true) (ordered : w.Ordered)
    (reversible : ∀ e, Definition.Occurs c.view e d → e.Reversible c)
    (follows : ∀ n e x, Coercion.Visits c (n + 1) e x (nestingLimit + 1) d w →
      WireKeys.Follows c n e x) : c.toWire d (c.validate d w).params = w :=
  WireKeys.rekey_paramsWithin (Nat.le_refl _)
    ((Validation.acceptsWithin_iff c (nestingLimit + 1) d w).mp accepted) ordered reversible follows

/-- Without unions that have no discriminator, the params of an accepted payload go out as the
payload. -/
theorem toWire_params_eq_of_accepts (c : Context) (d : Definition) (w : Json)
    (accepted : c.accepts d w = true) (ordered : w.Ordered)
    (reversible : ∀ e, Definition.Occurs c.view e d → e.Reversible c)
    (discriminated : ∀ e, Definition.Occurs c.view e d → ∀ variants, e.kind ≠ .union none variants) :
    c.toWire d (c.validate d w).params = w := by
  refine Context.toWire_params accepted ordered reversible ?_
  intro n e x hv
  exact WireKeys.follows_of_ne (discriminated e hv.occurs) n x

/-! ### A payment by card -/

def paymentByKind : Definition :=
  .taggedUnion "payment_kind" [{ tag := some "card", definition := .reference "Card" }]

def paymentByCard : Json :=
  .object [("lastFour", .string "4242"), ("paymentKind", .string "card")]

theorem paymentByCard_ordered : paymentByCard.Ordered :=
  Json.ordered_of_leaves (by decide) (by decide)

theorem reversible_of_occurs_paymentByKind {e : Definition}
    (h : Definition.Occurs payments.view e paymentByKind) :
    e.Reversible payments ∧ ∀ variants, e.kind ≠ .union none variants := by
  cases h with
  | here =>
    refine ⟨⟨rfl, ?_, ?_⟩, fun variants hk => by cases hk⟩
    · rintro shape (hk | hk) <;> cases hk
    · intro key variants hk v hv
      cases hk
      obtain rfl := List.mem_singleton.mp hv
      refine ⟨_, 1, .reference rfl payments_card (.object rfl), ?_⟩
      intro f hf
      obtain rfl := List.mem_singleton.mp hf
      decide +kernel
  | variant hk hv h =>
    cases hk
    obtain rfl := List.mem_singleton.mp hv
    cases h with
    | here => exact ⟨.of_noDefault rfl trivial, fun variants hk => by cases hk⟩
    | reference hk hd h =>
      cases hk
      rw [payments_card] at hd
      cases hd
      exact Definition.reversible_of_occurs_single h rfl rfl
    | field hk => cases hk
    | element hk => cases hk
    | shapeField hk => cases hk
    | variant hk => cases hk
  | reference hk => cases hk
  | field hk => cases hk
  | element hk => cases hk
  | shapeField hk => cases hk

/-- The payment is read by its kind and goes out as it came in. -/
theorem paymentByCard_restored :
    payments.accepts paymentByKind paymentByCard = true ∧
      (payments.validate paymentByKind paymentByCard).params =
        .object [("last_four", .string "4242"), ("payment_kind", .string "card")] ∧
      payments.toWire paymentByKind (payments.validate paymentByKind paymentByCard).params =
        paymentByCard := by
  have accepted : payments.accepts paymentByKind paymentByCard = true := by decide +kernel
  refine ⟨accepted, by decide +kernel, ?_⟩
  exact toWire_params_eq_of_accepts payments paymentByKind paymentByCard accepted
    paymentByCard_ordered (fun e h => (reversible_of_occurs_paymentByKind h).1)
    fun e h => (reversible_of_occurs_paymentByKind h).2

/-! ### Unions without a discriminator -/

/-- The params of an accepted payload go out as a payload that is accepted again, if the way out
follows the validation wherever it goes through a union without a discriminator. -/
theorem accepts_toWire_params (c : Context) (d : Definition) (w : Json)
    (accepted : c.accepts d w = true) (ordered : w.Ordered)
    (reversible : ∀ e, Definition.Occurs c.view e d → e.Reversible c)
    (follows : ∀ n e x, Coercion.Visits c (n + 1) e x (nestingLimit + 1) d w →
      WireKeys.Follows c n e x) :
    c.accepts d (c.toWire d (c.validate d w).params) = true := by
  rw [Context.toWire_params accepted ordered reversible follows]
  exact accepted

def createdAt : Field := { name := "created_at", definition := .scalar .string }

def timed : Definition := .object [createdAt]

def event : Definition := .union [timed, .scalar .string]

def noonEvent : Json := .object [("createdAt", .string "noon")]

theorem noonEvent_ordered : noonEvent.Ordered :=
  Json.ordered_of_leaves (by decide) (by decide)

theorem reversible_of_occurs_event {e : Definition}
    (h : Definition.Occurs payments.view e event) : e.Reversible payments := by
  cases h with
  | here => exact .of_noDefault rfl trivial
  | variant hk hv h =>
    cases hk
    rcases List.mem_cons.mp hv with rfl | hv
    · exact (Definition.reversible_of_occurs_single h rfl rfl).1
    · obtain rfl := List.mem_singleton.mp hv
      obtain rfl := h.eq_of_scalar rfl
      exact .of_noDefault rfl trivial
  | reference hk => cases hk
  | field hk => cases hk
  | element hk => cases hk
  | shapeField hk => cases hk

theorem timed_accepts_noonEvent : payments.acceptsWithin nestingLimit timed noonEvent = true := by
  decide +kernel

/-- The first of the two variants is the one that accepts the event. -/
theorem event_first {front back : List Variant} {variant : Variant}
    (hk : event.kind = .union none (front ++ variant :: back))
    (hf : ∀ u ∈ front, payments.acceptsWithin nestingLimit u.definition noonEvent = false) :
    front = [] ∧ variant.definition = timed := by
  cases front with
  | nil =>
    cases hk
    exact ⟨rfl, rfl⟩
  | cons u rest =>
    simp only [event, Definition.union, List.map_cons, List.cons_append, Kind.union.injEq,
      true_and, List.cons.injEq] at hk
    have hu := hf u List.mem_cons_self
    rw [← hk.1, timed_accepts_noonEvent] at hu
    cases hu

/-- The walk over the event by its time is the one by which its keys go out. -/
theorem follows_noonEvent {n : Nat} {e : Definition} {x : Json}
    (h : Coercion.Visits payments (n + 1) e x (nestingLimit + 1) event noonEvent) :
    WireKeys.Follows payments n e x := by
  cases h with
  | here =>
    apply WireKeys.follows_of_find?
    intro front variant back hk hf hv
    obtain ⟨rfl, hd⟩ := event_first hk hf
    have hp : (payments.paramsWithin nestingLimit timed noonEvent) =
        .object [("created_at", .string "noon")] := by decide +kernel
    rw [List.nil_append, hd, hp, List.find?_cons_of_pos]
    rw [hd]
    rfl
  | untagged hk hf hv h =>
    obtain ⟨rfl, hd⟩ := event_first hk hf
    rw [hd] at h
    apply WireKeys.follows_of_ne
    exact (Definition.reversible_of_occurs_single h.occurs rfl rfl).2
  | reference hk => cases hk
  | member hk => cases hk
  | tagged hk => cases hk

/-- The event goes out by its time and is accepted as it came in. -/
theorem noonEvent_accepted_again :
    payments.accepts event noonEvent = true ∧
      payments.accepts event (payments.toWire event
        (payments.validate event noonEvent).params) = true := by
  have accepted : payments.accepts event noonEvent = true := by decide +kernel
  exact ⟨accepted, accepts_toWire_params payments event noonEvent accepted noonEvent_ordered
    (fun e => reversible_of_occurs_event) fun n e x => follows_noonEvent⟩

def numberedEvent : Definition :=
  .union [.object [{ name := "id", definition := .scalar .integer }], .object [createdAt]]

/-- The way out takes the first variant that is an object and misses the time. -/
theorem noonEvent_rejected_on_the_way_out :
    payments.accepts numberedEvent noonEvent = true ∧
      (payments.validate numberedEvent noonEvent).params =
        .object [("created_at", .string "noon")] ∧
      payments.toWire numberedEvent (payments.validate numberedEvent noonEvent).params =
        .object [("created_at", .string "noon")] ∧
      payments.accepts numberedEvent (payments.toWire numberedEvent
        (payments.validate numberedEvent noonEvent).params) = false := by
  refine ⟨?_, ?_, ?_, ?_⟩ <;> decide +kernel

end ApiContract
