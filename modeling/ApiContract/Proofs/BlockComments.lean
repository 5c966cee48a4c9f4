import ApiContract.Output.Comment
import ApiContract.Proofs.NumberTexts
import ApiContract.Text.Blank

/-!
# Comments that end where they should

A comment is assembled from texts of a contract: the lines of a description and a written example.
Neither splitting a text at its line feeds nor writing a value as JSON separates a star from the
slash behind it. So a comment ends early at each end of a comment that stands in the description or
in a text of the example, and nowhere else.
-/

namespace ApiContract

/-- How often a text ends a comment: the stars with a slash right behind them. -/
def commentEnds : List Char → Nat
  | [] => 0
  | c :: rest => commentEnds rest + if c = '*' ∧ rest.head? = some '/' then 1 else 0

/-- A text is one block comment that stands at a margin and has its last line to itself. -/
structure IsBlockComment (margin text : List Char) : Prop where
  opened : margin ++ ['/', '*', '*'] <+: text
  closed : ['*', '/', '\n'] <:+ text
  once : commentEnds text = 1

/-! ### Ends of comments in assembled texts -/

section

variable {c : Char} {cs : List Char}

@[simp] theorem commentEnds_nil : commentEnds [] = 0 := rfl

theorem commentEnds_cons (h : c ≠ '*') (rest : List Char) :
    commentEnds (c :: rest) = commentEnds rest := by
  simp [commentEnds, h]

/-- No end of a comment reaches across a character that is not in it. -/
theorem commentEnds_append_cons (star : c ≠ '*') (slash : c ≠ '/') (front rest : List Char) :
    commentEnds (front ++ c :: rest) = commentEnds front + commentEnds rest := by
  induction front with
  | nil => simp [commentEnds_cons star]
  | cons d front ih =>
    have behind : (front ++ c :: rest).head? = some '/' ↔ front.head? = some '/' := by
      cases front <;> simp [slash]
    simp only [List.cons_append, commentEnds, ih, behind]
    omega

theorem commentEnds_append_singleton (star : c ≠ '*') (slash : c ≠ '/') (front : List Char) :
    commentEnds (front ++ [c]) = commentEnds front := by
  rw [commentEnds_append_cons star slash, commentEnds_nil, Nat.add_zero]

theorem commentEnds_append_of_no_star {front : List Char} (h : '*' ∉ front) (rest : List Char) :
    commentEnds (front ++ rest) = commentEnds rest := by
  induction front with
  | nil => rfl
  | cons c front ih =>
    have star : c ≠ '*' := fun hc => h (hc ▸ List.mem_cons_self)
    rw [List.cons_append, commentEnds_cons star, ih fun hm => h (List.mem_cons_of_mem _ hm)]

theorem commentEnds_of_no_star (h : '*' ∉ cs) : commentEnds cs = 0 := by
  simpa using commentEnds_append_of_no_star h []

def commentEndsIn : List String → Nat
  | [] => 0
  | s :: rest => commentEnds s.toList + commentEndsIn rest

@[simp] theorem commentEndsIn_nil : commentEndsIn [] = 0 := rfl

@[simp] theorem commentEndsIn_cons (s : String) (rest : List String) :
    commentEndsIn (s :: rest) = commentEnds s.toList + commentEndsIn rest := rfl

@[simp] theorem commentEndsIn_append (front rest : List String) :
    commentEndsIn (front ++ rest) = commentEndsIn front + commentEndsIn rest := by
  induction front with
  | nil => simp
  | cons s front ih =>
    rw [List.cons_append, commentEndsIn_cons, ih, commentEndsIn_cons, Nat.add_assoc]

/-- Texts with a separator between them. -/
theorem commentEnds_intercalate (star : c ≠ '*') (slash : c ≠ '/') (texts : List String) :
    commentEnds ([c].intercalate (texts.map String.toList)) = commentEndsIn texts := by
  induction texts with
  | nil => rfl
  | cons text rest ih =>
    cases rest with
    | nil => simp
    | cons next rest =>
      have split : [c].intercalate ((text :: next :: rest).map String.toList) =
          text.toList ++ c :: [c].intercalate ((next :: rest).map String.toList) := by simp
      rw [split, commentEnds_append_cons star slash, ih, commentEndsIn_cons text]

theorem commentEnds_eq_zero_iff : commentEnds cs = 0 ↔ ¬ ['*', '/'] <:+: cs := by
  induction cs with
  | nil => simp
  | cons c rest ih =>
    have first : ['*', '/'] <+: c :: rest ↔ c = '*' ∧ rest.head? = some '/' := by
      cases rest <;> simp [eq_comm]
    rw [commentEnds, List.infix_cons_iff, first, not_or, ← ih]
    split <;> simp [*]

theorem commentEndsIn_eq_zero_iff {texts : List String} :
    commentEndsIn texts = 0 ↔ ∀ s ∈ texts, ¬ ['*', '/'] <:+: s.toList := by
  induction texts with
  | nil => simp
  | cons s rest ih =>
    rw [commentEndsIn_cons, Nat.add_eq_zero_iff, commentEnds_eq_zero_iff, ih, List.forall_mem_cons]

end

/-! ### Lines -/

theorem commentEnds_dropCarriageReturn (line : List Char) :
    commentEnds (dropCarriageReturn line) = commentEnds line := by
  unfold dropCarriageReturn
  split
  · rename_i last
    obtain ⟨front, rfl⟩ := List.getLast?_eq_some_iff.mp last
    rw [List.dropLast_concat, commentEnds_append_singleton (by decide) (by decide)]
  · rfl

/-- `line` is the current line, and `cs` what follows. -/
theorem commentEndsIn_go (line cs : List Char) :
    commentEndsIn ((lines.go line cs).map String.ofList) = commentEnds (line.reverse ++ cs) := by
  induction cs generalizing line with
  | nil =>
    cases line with
    | nil => rfl
    | cons c line => simp [lines.go]
  | cons c rest ih =>
    rw [lines.go]
    split
    · rename_i feed
      rw [List.map_cons, commentEndsIn_cons, String.toList_ofList, ih,
        commentEnds_dropCarriageReturn, feed, commentEnds_append_cons (by decide) (by decide)]
      rfl
    · rw [ih, List.reverse_cons, List.append_assoc]
      rfl

/-- Splitting a text into lines neither makes nor takes away an end of a comment. -/
theorem commentEndsIn_lines (cs : List Char) :
    commentEndsIn ((lines cs).map String.ofList) = commentEnds cs := commentEndsIn_go [] cs

/-! ### Written values -/

namespace Json

mutual

/-- The texts that are written in a value: its strings, and the keys of its objects. -/
def writtenTexts : Json → List String
  | string s => [s]
  | array elements => elementsWritten elements
  | object members => membersWritten members
  | null | bool _ | int _ | float _ => []

def elementsWritten : List Json → List String
  | [] => []
  | j :: rest => writtenTexts j ++ elementsWritten rest

def membersWritten : List (String × Json) → List String
  | [] => []
  | (key, j) :: rest => key :: writtenTexts j ++ membersWritten rest

end

theorem hexDigit_ne_star : ∀ n < 16, hexDigit n ≠ '*' := by
  decide

/-- A character that is escaped has no part in an end of a comment, and neither has its escape. -/
theorem escapeChar_eq_self_or (c : Char) : escapeChar c = [c] ∨
    c ≠ '*' ∧ c ≠ '/' ∧ (escapeChar c).head? = some '\\' ∧ '*' ∉ escapeChar c := by
  by_cases h : c = '"' ∨ c = '\\' ∨ c = '\n' ∨ c = '\r' ∨ c = '\t'
  · right
    rcases h with rfl | rfl | rfl | rfl | rfl <;> decide
  · simp only [not_or] at h
    obtain ⟨h1, h2, h3, h4, h5⟩ := h
    by_cases hc : c.toNat < 32
    · right
      have star : c ≠ '*' := by rintro rfl; revert hc; decide
      have slash : c ≠ '/' := by rintro rfl; revert hc; decide
      refine ⟨star, slash, ?_⟩
      have high := hexDigit_ne_star (c.toNat / 16) (by omega)
      have low := hexDigit_ne_star (c.toNat % 16) (by omega)
      simp only [escapeChar, h1, h2, h3, h4, h5, if_false]
      split
      · decide
      split
      · decide
      · simp [high.symm, low.symm]
    · left
      have h8 : c.toNat ≠ 8 := by omega
      have h12 : c.toNat ≠ 12 := by omega
      simp [escapeChar, h1, h2, h3, h4, h5, h8, h12, hc]

theorem head?_escaped (cs : List Char) :
    (cs.flatMap escapeChar).head? = some '/' ↔ cs.head? = some '/' := by
  cases cs with
  | nil => rfl
  | cons c rest =>
    rw [List.flatMap_cons, List.head?_append]
    rcases escapeChar_eq_self_or c with h | ⟨-, slash, head, -⟩
    · simp [h]
    · simp [head, slash]

theorem commentEnds_escaped (cs : List Char) :
    commentEnds (cs.flatMap escapeChar) = commentEnds cs := by
  induction cs with
  | nil => rfl
  | cons c rest ih =>
    rw [List.flatMap_cons]
    rcases escapeChar_eq_self_or c with h | ⟨star, -, -, none⟩
    · simp only [h, List.singleton_append, commentEnds, head?_escaped, ih]
    · rw [commentEnds_append_of_no_star none, ih, commentEnds_cons star]

theorem commentEnds_quote (s : String) :
    commentEnds (quote s).toList = commentEnds s.toList := by
  rw [quote, String.toList_ofList, List.cons_append, commentEnds_cons (by decide),
    commentEnds_append_singleton (by decide) (by decide), commentEnds_escaped]

/-- A number has no star in its text. -/
theorem star_not_mem_of_inNumber {cs : List Char} (h : ∀ c ∈ cs, inNumber c = true) : '*' ∉ cs := by
  intro hm
  cases h _ hm

/-- The texts between the brackets of an array or an object. -/
theorem commentEnds_bracketed {opening closing : String} {o c : Char} (ho : opening.toList = [o])
    (hc : closing.toList = [c]) (so : o ≠ '*') (sc : c ≠ '*') (lc : c ≠ '/') (texts : List String) :
    commentEnds (opening ++ String.intercalate "," texts ++ closing).toList =
      commentEndsIn texts := by
  rw [String.toList_append, String.toList_append, ho, hc, List.singleton_append, List.cons_append,
    commentEnds_cons so, commentEnds_append_singleton sc lc, String.toList_intercalate]
  exact commentEnds_intercalate (c := ',') (by decide) (by decide) texts

mutual

/-- Written as JSON, a value ends a comment as often as its strings and keys do. -/
theorem commentEnds_text : (j : Json) → commentEnds j.text.toList = commentEndsIn j.writtenTexts
  | null | bool true | bool false => rfl
  | int n => commentEnds_of_no_star (star_not_mem_of_inNumber fun _ => inNumber_of_mem_intText)
  | float x =>
    commentEnds_of_no_star (star_not_mem_of_inNumber fun _ => Binary64.inNumber_of_mem_text)
  | string s => by rw [text, commentEnds_quote, writtenTexts, commentEndsIn_cons]; rfl
  | array elements => by
    rw [text, writtenTexts, ← commentEndsIn_elementTexts elements]
    exact commentEnds_bracketed (o := '[') (c := ']') rfl rfl (by decide) (by decide) (by decide) _
  | object members => by
    rw [text, writtenTexts, ← commentEndsIn_memberTexts members]
    exact commentEnds_bracketed (o := '\x7b') (c := '\x7d') rfl rfl (by decide) (by decide)
      (by decide) _

theorem commentEndsIn_elementTexts : (elements : List Json) →
    commentEndsIn (elementTexts elements) = commentEndsIn (elementsWritten elements)
  | [] => rfl
  | j :: rest => by
    rw [elementTexts, elementsWritten, commentEndsIn_cons, commentEndsIn_append, commentEnds_text j,
      commentEndsIn_elementTexts rest]

/-- Punctuation between members has neither stars nor slashes, so only the texts count. -/
theorem commentEndsIn_memberTexts : (members : List (String × Json)) →
    commentEndsIn (memberTexts members) = commentEndsIn (membersWritten members)
  | [] => rfl
  | (key, j) :: rest => by
    have member : commentEnds (quote key ++ ":" ++ j.text).toList =
        commentEnds key.toList + commentEnds j.text.toList := by
      have colon : (":" ++ j.text).toList = ':' :: j.text.toList := by simp
      rw [String.append_assoc, String.toList_append, colon,
        commentEnds_append_cons (by decide) (by decide), commentEnds_quote]
    rw [memberTexts, membersWritten, commentEndsIn_cons, member, List.cons_append,
      commentEndsIn_cons, commentEndsIn_append, commentEnds_text j, commentEndsIn_memberTexts rest,
      Nat.add_assoc]

end

end Json

/-! ### Comments -/

def starredLine (margin : List Char) (line : String) : List Char :=
  margin ++ ' ' :: '*' :: ' ' :: line.toList ++ ['\n']

def insideComment (margin : List Char) : List String → List Char
  | [line] => ' ' :: line.toList ++ [' ']
  | several => '\n' :: several.flatMap (starredLine margin) ++ margin ++ [' ']

section

variable {margin : List Char}

theorem commentEnds_starredLine (plain : '*' ∉ margin) (line : String) (rest : List Char) :
    commentEnds (starredLine margin line ++ rest) =
      commentEnds line.toList + commentEnds rest := by
  simp only [starredLine, List.append_assoc, List.cons_append, List.nil_append]
  rw [commentEnds_append_of_no_star plain, commentEnds_cons (by decide),
    ← commentEnds_append_cons (c := '\n') (by decide) (by decide)]
  simp [commentEnds]

theorem commentEnds_starredLines (plain : '*' ∉ margin) (several : List String)
    (rest : List Char) :
    commentEnds (several.flatMap (starredLine margin) ++ rest) =
      commentEndsIn several + commentEnds rest := by
  induction several with
  | nil => simp
  | cons line several ih =>
    rw [List.flatMap_cons, List.append_assoc, commentEnds_starredLine plain, ih, commentEndsIn_cons,
      Nat.add_assoc]

/-- In either layout, only the lines end the comment. -/
theorem commentEnds_insideComment (plain : '*' ∉ margin) (lines : List String)
    (rest : List Char) :
    commentEnds (insideComment margin lines ++ rest) = commentEndsIn lines + commentEnds rest := by
  unfold insideComment
  split
  · rename_i line
    simp only [List.append_assoc, List.cons_append, List.nil_append]
    rw [commentEnds_cons (by decide), commentEnds_append_cons (by decide) (by decide)]
    simp
  · simp only [List.append_assoc, List.cons_append, List.nil_append]
    rw [commentEnds_cons (by decide), commentEnds_starredLines plain,
      commentEnds_append_of_no_star plain, commentEnds_cons (by decide)]

end

namespace Documentation

theorem toList_starredLines (margin : String) (several : List String) :
    (several.map fun line => margin ++ " * " ++ line ++ "\n").flatMap String.toList =
      several.flatMap (starredLine margin.toList) := by
  have line : ∀ line : String,
      (margin ++ " * " ++ line ++ "\n").toList = starredLine margin.toList line := by
    intro line
    simp [starredLine]
  simp only [List.flatMap_map, line]

/-- A comment in its parts: where there is something to say, it stands between one opening and one
end. -/
theorem toList_comment {d : Documentation} (h : d.commentLines ≠ []) (margin : String) :
    (d.comment margin).toList = margin.toList ++ ['/', '*', '*'] ++
      (insideComment margin.toList d.commentLines ++ ['*', '/', '\n']) := by
  unfold comment
  split
  · contradiction
  · rename_i one
    simp [one, insideComment]
  · rename_i several
    have layout : insideComment margin.toList d.commentLines = '\n' ::
        d.commentLines.flatMap (starredLine margin.toList) ++ margin.toList ++ [' '] := by
      rw [insideComment]
      exact several
    simp [layout, toList_starredLines]

theorem comment_ne_empty {d : Documentation} (h : d.commentLines ≠ []) (margin : String) :
    d.comment margin ≠ "" := by
  intro he
  have parts := toList_comment h margin
  simp [he] at parts

theorem commentLines_ne_nil_of_example {d : Documentation} {j : Json} (h : d.example? = some j) :
    d.commentLines ≠ [] := by
  simp [commentLines, h]

/-- The lines of a comment end it as often as the description does, and the texts of the example. -/
theorem commentEndsIn_commentLines (d : Documentation) :
    commentEndsIn d.commentLines = commentEndsIn d.description.toList +
      commentEndsIn (d.example?.toList.flatMap Json.writtenTexts) := by
  have described : commentEnds (d.description.getD "").toList =
      commentEndsIn d.description.toList := by
    cases d.description <;> simp
  have marked : commentEndsIn (if d.deprecated then ["@deprecated"] else []) = 0 := by
    split <;> rfl
  rw [commentLines, commentEndsIn_append, commentEndsIn_append, commentEndsIn_lines, marked,
    Nat.add_zero, described]
  congr 1
  cases d.example? with
  | none => rfl
  | some j =>
    have prefixed : commentEnds ("@example " ++ j.text).toList = commentEnds j.text.toList := by
      rw [String.toList_append, commentEnds_append_of_no_star (by decide)]
    simp only [Option.map_some, Option.toList_some, List.flatMap_singleton, commentEndsIn_cons,
      commentEndsIn_nil, prefixed, Json.commentEnds_text, Nat.add_zero]

/-- A comment stays one block exactly if no text in it ends a comment. -/
theorem isBlockComment_iff {d : Documentation} {margin : String} (h : d.commentLines ≠ [])
    (plain : '*' ∉ margin.toList) :
    IsBlockComment margin.toList (d.comment margin).toList ↔ commentEndsIn d.commentLines = 0 := by
  have parts := toList_comment h margin
  have ends : commentEnds (d.comment margin).toList = commentEndsIn d.commentLines + 1 := by
    rw [parts, List.append_assoc, commentEnds_append_of_no_star plain]
    have opening : ∀ rest, rest.head? ≠ some '/' →
        commentEnds (['/', '*', '*'] ++ rest) = commentEnds rest := by
      intro rest hr
      simp [commentEnds, hr]
    rw [opening, commentEnds_insideComment plain]
    · rfl
    · unfold insideComment
      split <;> simp
  constructor
  · intro c
    have once := c.once
    omega
  · intro none
    refine ⟨?_, ?_, by omega⟩
    · rw [parts]
      exact List.prefix_append _ _
    · rw [parts, ← List.append_assoc]
      exact List.suffix_append _ _

/-- At a margin of white space, a comment is nothing or exactly one block comment as long as no
comment ends in the description, or in a string or key of the example. -/
theorem comment_confined_iff (d : Documentation) (margin : String)
    (blank : ∀ c ∈ margin.toList, isBlank c = true) :
    d.comment margin = "" ∨ IsBlockComment margin.toList (d.comment margin).toList ↔
      (∀ text, d.description = some text → ¬ ['*', '/'] <:+: text.toList) ∧
      ∀ j, d.example? = some j → ∀ s ∈ j.writtenTexts, ¬ ['*', '/'] <:+: s.toList := by
  have plain : '*' ∉ margin.toList := fun h => by cases blank _ h
  have none_ends : commentEndsIn d.commentLines = 0 ↔
      (∀ text, d.description = some text → ¬ ['*', '/'] <:+: text.toList) ∧
      ∀ j, d.example? = some j → ∀ s ∈ j.writtenTexts, ¬ ['*', '/'] <:+: s.toList := by
    rw [commentEndsIn_commentLines, Nat.add_eq_zero_iff, commentEndsIn_eq_zero_iff,
      commentEndsIn_eq_zero_iff]
    cases d.description <;> cases d.example? <;> simp
  rw [← none_ends]
  by_cases h : d.commentLines = []
  · simp [comment, h]
  · rw [isBlockComment_iff h plain]
    simp [comment_ne_empty h margin]

def totalDocs : Documentation :=
  { description := some "Sum / total\r\n* all of it *\n/ tax excluded"
    example? := some (.object [("*", .array [.string "/ **", .int (-3)])]) }

theorem totalDocs_confined : (∀ c ∈ "  ".toList, isBlank c = true) ∧
    IsBlockComment "  ".toList (totalDocs.comment "  ").toList := by
  have blank : ∀ c ∈ "  ".toList, isBlank c = true := List.all_eq_true.mp (by decide)
  have shown : totalDocs.commentLines ≠ [] := commentLines_ne_nil_of_example rfl
  refine ⟨blank, ((comment_confined_iff totalDocs "  " blank).mpr ⟨?_, ?_⟩).resolve_left
    (comment_ne_empty shown "  ")⟩
  · intro text ht
    obtain rfl := Option.some.inj ht
    exact commentEnds_eq_zero_iff.mp (by decide)
  · intro j hj
    obtain rfl := Option.some.inj hj
    exact commentEndsIn_eq_zero_iff.mp (by decide)

/-- A description with code behind an end of a comment. -/
def codeInDocs : Documentation := { description := some "Sum */ export const x = 1;" }

/-- What stands behind the end is outside of the comment. -/
theorem codeInDocs_escapes :
    codeInDocs.comment "" = "/** Sum */ export const x = 1; */\n" ∧
      ¬ (codeInDocs.comment "" = "" ∨ IsBlockComment [] (codeInDocs.comment "").toList) := by
  have shown : codeInDocs.comment "" = "/** Sum */ export const x = 1; */\n" := by rfl
  have twice : commentEnds (codeInDocs.comment "").toList = 2 := by
    rw [shown]
    decide
  refine ⟨shown, ?_⟩
  rintro (empty | confined)
  · exact comment_ne_empty (by decide) "" empty
  · have once := confined.once
    omega

end Documentation

end ApiContract
