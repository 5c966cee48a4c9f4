import ApiContract.Proofs.SchemaMeaning

/-!
# Schemas that are read back

A document is made of schemas that were printed and read again, with what that did to their numbers.
Whether `null` satisfies a schema is no matter of numbers. That of other values is one of bounds.
-/

namespace ApiContract.OpenApi

open Json

variable {reading : Reading} {document : Json} {next next' : Json → Json → Bool} {ms : Keyed Json}

/-! ### Null -/

theorem asks_outline (keyword : String) (so : Json → Bool) :
    asks (Keyed.mapValues outline ms) keyword so = asks ms keyword fun j => so j.outline := by
  rw [asks, asks, Keyed.get?_mapValues, Option.all_map]

theorem elements_outline (j : Json) : j.outline.elements = j.elements.map outline := by
  cases j with
  | array xs =>
    rw [outline, outlineElements_eq]
    rfl
  | _ => rfl

theorem meetsType_outline (value j : Json) : meetsType value j.outline = meetsType value j := by
  have string (j : Json) : j.outline.string? = j.string? := by cases j <;> rfl
  cases j with
  | array xs =>
    rw [outline, outlineElements_eq]
    simp [meetsType, Json.elements, string, Function.comp_def]
  | _ => rfl

/-- References are texts, so they lead to the same places. -/
theorem target?_outline (reference : Json) :
    target? document.outline reference.outline = (target? document reference).map outline := by
  cases reference with
  | string text =>
    change target? document.outline (string text) = _
    rw [target?, target?]
    split
    · exact follow?_outline document _
    · rfl
  | _ => rfl

/-- What `null` is asked for does not depend on numbers. -/
theorem holdsAt_outline_null (same : ∀ j, next' j.outline .null = next j .null) :
    holdsAt reading document.outline next' (Keyed.mapValues outline ms) .null =
      holdsAt reading document next ms .null := by
  have alike (j : Json) : null.equals j.outline = null.equals j := by
    rw [null_equals, null_equals, isNull_outline]
  have listed : (fun j : Json => j.outline.elements.any null.equals) =
      fun j => j.elements.any null.equals := by
    funext j
    simp [elements_outline, alike, Function.comp_def]
  have one : (fun j : Json => j.outline.elements.countP (next' · .null) == 1) =
      fun j => j.elements.countP (next · .null) == 1 := by
    funext j
    simp [elements_outline, List.countP_map, Function.comp_def, same]
  have pointed : (fun j : Json => (target? document.outline j.outline).any (next' · .null)) =
      fun j => (target? document j).any (next · .null) := by
    funext j
    simp [target?_outline, Option.any_map, same]
  simp only [holdsAt, asks_outline, meetsType_outline, listed, alike, one, pointed,
    keepsLimits_null, holdsInside]

/-- No number decides about `null`. -/
theorem holds_outline_null (n : Nat) (schema : Json) :
    holds reading document.outline n schema.outline .null =
      holds reading document n schema .null := by
  induction n generalizing schema with
  | zero => rfl
  | succ n ih =>
    cases schema with
    | object ms =>
      rw [outline, outlineMembers_eq, holds_object, holds_object]
      exact holdsAt_outline_null ih
    | _ => rfl

/-- Where schemas and documents only differ in numbers, `null` satisfies both or neither. -/
theorem Settles.null_of_outline {schema document' schema' : Json} {answer : Bool}
    (h : Settles reading document schema .null answer)
    (documents : document'.outline = document.outline) (schemas : schema'.outline = schema.outline) :
    Settles reading document' schema' .null answer := by
  refine h.mono fun n hn => ?_
  rw [← holds_outline_null, documents, schemas, holds_outline_null]
  exact hn

/-! ### Schemas without fractions -/

section

variable {s : OutputSettings} {nullable : Bool} {default? : Option Json} {docs : Documentation}
  {schema back : Keyed Json} {m n : Nat} {value : Json} {answer : Bool}

/-- Members of a firm schema are firm. -/
theorem isFirm_of_get? {key : String} {x : Json} (firm : haveFirm n schema = true)
    (h : Keyed.get? schema key = some x) : isFirm n x = true := by
  induction schema with
  | nil => cases h
  | cons p rest ih =>
    obtain ⟨first, others⟩ := Bool.and_eq_true_iff.mp firm
    rw [Keyed.get?_cons] at h
    split at h
    · cases h
      exact first
    · exact ih others h

/-- What a schema says of values is read back as it is, if it has no fractions there. -/
theorem get?_reread_of_firm
    (firm : haveFirm m (if nullable then allowNull schema else schema) = true)
    (h : rereadMembers? n (finish s nullable default? docs schema) = some back) {key : String}
    (plain : key ∉ annotationKeys) :
    Keyed.get? back key = Keyed.get? (if nullable then allowNull schema else schema) key := by
  have kept : Keyed.get? (finish s nullable default? docs schema) key =
      Keyed.get? (if nullable then allowNull schema else schema) key :=
    get?_finish s nullable default? docs plain
  cases found : Keyed.get? (if nullable then allowNull schema else schema) key with
  | none => rw [get?_rereadMembers? h, kept, found, Option.bind_none]
  | some x =>
    obtain ⟨y, again, placed⟩ := exists_reread_of_get? h (kept.trans found)
    rw [placed, eq_of_isFirm (isFirm_of_get? firm found) again]

/-- A firm schema says the same when it is read back; of the rest only what documents it may
change. -/
theorem settles_reread_of_firm
    (firm : haveFirm m (if nullable then allowNull schema else schema) = true)
    (h : rereadMembers? n (finish s nullable default? docs schema) = some back)
    (settled : Settles reading document
      (.object (if nullable then allowNull schema else schema)) value answer) :
    Settles reading document (.object back) value answer := by
  refine settles_iff.mpr ((settles_iff.mp settled).mono fun n hn => ?_)
  rw [holds_object] at hn ⊢
  rw [holdsAt_congr fun _ plain => get?_reread_of_firm firm h plain]
  exact hn

end

/-! ### Components -/

variable {c : OutputContext} {apiVersion : String} {types : List Registry.OrderedType}
  {value : Json} {answer : Bool}

/-- The pointer to a name leads to what is read back of the schema that the name is listed as. -/
theorem target?_document (made : Target.document? c apiVersion types = some document)
    (nodup : (types.map (·.name)).Nodup) {name : String} (plain : Plain name)
    {l : Registry.Listing} (h : Registry.listedAs types name = some l) :
    ∃ schema, reread? maxNesting (ofListing c.settings l) = some schema ∧
      target? document (pointerTo name) = some schema := by
  obtain ⟨t, found, rfl⟩ := Option.map_eq_some_iff.mp h
  have named : t.name = name := by simpa using List.find?_some found
  have component := (Target.get?_components (c := c) nodup).mpr
    ⟨t, List.mem_of_find?_eq_some found, named, rfl⟩
  obtain ⟨schemas, back, rfl⟩ := Option.map_eq_some_iff.mp made
  obtain ⟨schema, hs, placed⟩ := exists_reread_of_get? back component
  refine ⟨schema, hs, ?_⟩
  rw [target?_pointerTo plain, follow?_document, placed]

/-- What a document has under a name is satisfied by what satisfies the schema of the type that the
name stands for, as it is read back. -/
theorem settles_of_rereads (made : Target.document? c apiVersion types = some document)
    (nodup : (types.map (·.name)).Nodup) (plain : ∀ t ∈ types, Plain t.name) {name : String}
    {t : NamedType} (stands : Registry.StandsFor types name t)
    (h : ∀ n schema, reread? n (ofDefinition c.settings t.definition.withTags) = some schema →
      Settles reading document schema value answer) :
    Settles reading document (.object (mention name)) value answer := by
  have listed {name : String} {l : Registry.Listing} (h : Registry.listedAs types name = some l) :
      Plain name := by
    obtain ⟨u, found, -⟩ := Option.map_eq_some_iff.mp h
    have named : u.name = name := by simpa using List.find?_some found
    exact named ▸ plain u (List.mem_of_find?_eq_some found)
  induction stands with
  | defined h' =>
    obtain ⟨schema, back, leads⟩ := target?_document made nodup (listed h') h'
    exact settles_mention leads (h _ schema back)
  | aliasOf h' _ ih =>
    obtain ⟨schema, back, leads⟩ := target?_document made nodup (listed h') h'
    cases back
    exact settles_mention leads (ih h)

end ApiContract.OpenApi
