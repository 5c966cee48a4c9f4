import ApiContract.Output.SchemaExpr
import ApiContract.Proofs.EscapedPatterns
import ApiContract.Proofs.SoundDefinitions

/-!
# Patterns between slashes

Writing puts a backslash in front of each slash of a pattern, one that has a backslash already
included, and a slash at either end. The result is a literal with the pattern in it exactly if the
pattern fits on a line, escapes no slash itself, and leaves neither a class nor an escape open.
-/

namespace ApiContract

open LiteralPlace (plain)

/-- A text is one literal: after its first slash, which opens no comment, a second one ends it. -/
def isRegexLiteral : List Char → Bool
  | '/' :: c :: rest => c ≠ '/' ∧ c ≠ '*' ∧ plain.following? (c :: rest) = some []
  | _ => false

/-- A text is a literal with a pattern in it. Between the slashes it spells the pattern, where an
escaped slash counts as a slash, and is read as the same pattern. -/
structure SpellsPattern (source text : List Char) : Prop where
  literal : isRegexLiteral text = true
  spelled : ∃ body, text = '/' :: body ++ ['/'] ∧ plain.bare body = plain.bare source ∧
    Pattern.read? body = Pattern.read? source
  notComment : ¬ ['/', '/'] <+: text
  oneLine : ∀ c ∈ text, endsLine c = false
  escaped : ∀ front back, text = '/' :: front ++ '/' :: back → back ≠ [] →
    (plain.behind front).inClass = false → finalBackslashes front % 2 = 1

/-- A pattern that can stand in a literal with a backslash in front of each slash. -/
structure FitsLiteral (source : List Char) : Prop where
  nonempty : source ≠ []
  oneLine : ∀ c ∈ source, endsLine c = false
  unescaped : ∀ front back, source = front ++ '/' :: back → finalBackslashes front % 2 = 0
  complete : plain.behind source = plain

theorem toList_patternLiteral (source : String) :
    (SchemaCheck.patternLiteral source).toList =
      '/' :: escapeSlashes source.toList ++ ['/'] := by
  rw [SchemaCheck.patternLiteral, String.toList_ofList, escapeSlashes]

/-! ### Written patterns -/

section

variable {source : List Char}

theorem slashes_escaped_eq_zero_iff :
    plain.slashes LiteralPlace.escaped source = 0 ↔
      ∀ front back, source = front ++ '/' :: back → finalBackslashes front % 2 = 0 := by
  rw [LiteralPlace.slashes_eq_zero_iff]
  refine forall_congr' fun front => forall_congr' fun back => imp_congr_right fun _ => ?_
  rw [← Bool.not_eq_true, LiteralPlace.escaped_behind]
  omega

/-- A pattern does not start with a repetition of nothing. -/
theorem head?_ne_star_of_read? (accepted : (Pattern.read? source).isSome) :
    source.head? ≠ some '*' := by
  intro star
  obtain ⟨rest, rfl⟩ := List.head?_eq_some_iff.mp star
  simp [Pattern.read?, Pattern.readBranches, Pattern.skipVerbose, Pattern.Draft.repeatLast?]
    at accepted

/-- The first character of a body is no slash, and no star unless the pattern starts with one. -/
theorem isRegexLiteral_escaped_iff (star : source.head? ≠ some '*') :
    isRegexLiteral ('/' :: escapeSlashes source ++ ['/']) = true ↔
      source ≠ [] ∧ plain.following? (escapeSlashes source ++ ['/']) = some [] := by
  cases source with
  | nil => simp [isRegexLiteral]
  | cons c rest =>
    by_cases hc : c = '/'
    · simp [hc, isRegexLiteral]
    · have hs : c ≠ '*' := by simpa using star
      simp [escapeSlashes_cons hc, isRegexLiteral, hc, hs]

theorem following?_escaped_iff :
    plain.following? (escapeSlashes source ++ ['/']) = some [] ↔
      (∀ c ∈ source, endsLine c = false) ∧ plain.slashes (· = { escaped := true }) source = 0 ∧
        plain.behind source = plain := by
  rw [LiteralPlace.following?_append_slash, oneLine_escapeSlashes,
    LiteralPlace.slashes_escapeSlashes, LiteralPlace.behind_escapeSlashes]

/-- In a literal, each slash between the first and the last one is in a class or escaped. -/
theorem escaped_of_following? {body : List Char}
    (ends : plain.following? (body ++ ['/']) = some []) {front back : List Char}
    (inner : '/' :: body ++ ['/'] = '/' :: front ++ '/' :: back) (strictly : back ≠ [])
    (outside : (plain.behind front).inClass = false) : finalBackslashes front % 2 = 1 := by
  have within := eq_of_delimited inner strictly
  have open_there := (LiteralPlace.slashes_eq_zero_iff plain _ body).mp
    ((LiteralPlace.following?_append_slash plain body).mp ends).2.1 front _ within
  rw [← LiteralPlace.escaped_behind]
  by_contra unescaped
  apply of_decide_eq_false open_there
  cases hb : plain.behind front with
  | mk inClass escaped => simp_all [plain]

/-- What is written between the slashes spells the pattern exactly if the pattern fits. -/
theorem spellsPattern_escaped_iff (accepted : (Pattern.read? source).isSome) :
    SpellsPattern source ('/' :: escapeSlashes source ++ ['/']) ↔ FitsLiteral source := by
  have star := head?_ne_star_of_read? accepted
  obtain ⟨p, accepted⟩ := Option.isSome_iff_exists.mp accepted
  constructor
  · intro h
    obtain ⟨nonempty, ends⟩ := (isRegexLiteral_escaped_iff star).mp h.literal
    obtain ⟨oneLine, -, complete⟩ := following?_escaped_iff.mp ends
    obtain ⟨body, same, spelled, -⟩ := h.spelled
    obtain rfl : escapeSlashes source = body :=
      List.append_cancel_right (List.cons.inj same).2
    exact ⟨nonempty, oneLine,
      slashes_escaped_eq_zero_iff.mp ((LiteralPlace.bare_escapeSlashes_iff source).mp spelled),
      complete⟩
  · intro h
    have unescaped := slashes_escaped_eq_zero_iff.mpr h.unescaped
    have outside : plain.slashes (· = { escaped := true }) source = 0 := by
      rw [LiteralPlace.slashes_eq_zero_iff] at unescaped ⊢
      intro front back split
      have here := unescaped front back split
      refine decide_eq_false fun he => ?_
      rw [he] at here
      cases here
    have ends := following?_escaped_iff.mpr ⟨h.oneLine, outside, h.complete⟩
    have literal := (isRegexLiteral_escaped_iff star).mpr ⟨h.nonempty, ends⟩
    have read := Pattern.read?_escapeSlashes unescaped accepted
    refine ⟨literal, ⟨_, rfl, LiteralPlace.bare_escapeSlashes unescaped, read.trans accepted.symm⟩,
      ?_, ?_, fun front back => escaped_of_following? ends⟩
    · rintro ⟨rest, he⟩
      rw [← he] at literal
      simp [isRegexLiteral] at literal
    · have slash : endsLine '/' = false := by decide
      have body := (oneLine_escapeSlashes source).mpr h.oneLine
      simpa [slash, or_imp, forall_and] using body

end

/-! ### Accepted patterns -/

/-- A pattern that stands anywhere in a type that can be registered is written as one literal that
spells it, exactly if it is not empty, has its slashes without backslashes, fits on a line, and leaves
no class and no escape open. -/
theorem pattern_literal_iff (t : NamedType) (sound : t.check = .ok ()) (d : Definition)
    (within : Relation.ReflTransGen Definition.Part d t.definition) (source : String)
    (asked : d.format = some (.pattern source)) :
    SchemaCheck.formatText (.pattern source) =
        ".regex(" ++ SchemaCheck.patternLiteral source ++ ")" ∧
      (SpellsPattern source.toList (SchemaCheck.patternLiteral source).toList ↔
        FitsLiteral source.toList) := by
  have accepted := ((NamedType.check_ok_iff t).mp sound).2 d within |>.pattern source asked
  refine ⟨rfl, ?_⟩
  rw [toList_patternLiteral]
  exact spellsPattern_escaped_iff accepted

def textType (source : String) : NamedType :=
  { name := "Slug", definition := { kind := .scalar .string, format := some (.pattern source) } }

theorem check_textType {source : String} (accepted : isPattern source = true) :
    (textType source).check = .ok () := by
  rw [NamedType.check_ok_iff_flaws, Definition.flaws_eq]
  simp [textType, Definition.boundFlaws, Definition.formatFlaws, Kind.flaws, accepted]

def datedSlug : String := "^a/[b/]\\\\c$"

theorem datedSlug_spelled :
    (textType datedSlug).check = .ok () ∧
      SpellsPattern datedSlug.toList (SchemaCheck.patternLiteral datedSlug).toList := by
  have sound : (textType datedSlug).check = .ok () := check_textType (by decide +kernel)
  have fits : FitsLiteral datedSlug.toList :=
    { nonempty := by decide
      oneLine := fun c hc => Bool.eq_false_iff.mpr (List.any_eq_false.mp (by decide) c hc)
      unescaped := slashes_escaped_eq_zero_iff.mp (by decide)
      complete := by decide }
  exact ⟨sound, (pattern_literal_iff (textType datedSlug) sound _ .refl datedSlug rfl).2.mpr fits⟩

def escapedSlash : String := "a\\/b"

/-- The backslash is escaped in its turn, so the slash ends the literal. -/
theorem escapedSlash_broken :
    (textType escapedSlash).check = .ok () ∧
      SchemaCheck.patternLiteral escapedSlash = "/a\\\\/b/" ∧
      plain.following? "a\\\\/b/".toList = some ['b', '/'] ∧
      ¬ SpellsPattern escapedSlash.toList (SchemaCheck.patternLiteral escapedSlash).toList := by
  refine ⟨check_textType (by decide +kernel), by rfl, by rfl, fun h => ?_⟩
  have literal := h.literal
  revert literal
  decide

end ApiContract
