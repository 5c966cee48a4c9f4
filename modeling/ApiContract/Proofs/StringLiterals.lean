import ApiContract.Output.Quoted
import ApiContract.Proofs.EscapedTokens
import ApiContract.Proofs.LiteralPlaces

/-!
# String literals and keys in generated scripts

Five characters are escaped in a literal, by as many replacements, none of which finds what another
one has put in. So a literal ends at its own last quote and is read back as its text, and a key, with
quotes or without, as its name.
-/

namespace ApiContract.Script

open LiteralPlace (plain)

/-! ### Reading -/

/-- The character that a backslash and another one stand for. Of the escapes that scripts know, only
these are ever written, and no other is read. -/
def unescaped? : Char → Option Char
  | '\\' => some '\\'
  | '"' => some '"'
  | 'n' => some '\n'
  | 'r' => some '\r'
  | 't' => some '\t'
  | _ => none

/-- Reads a literal behind its first quote, and says what follows its last one. No line ends in it,
and a quote in it is escaped. -/
def readBody? : List Char → Option (List Char × List Char)
  | [] => none
  | '"' :: rest => some ([], rest)
  | '\\' :: d :: rest =>
    (unescaped? d).bind fun c => (readBody? rest).map fun p => (c :: p.1, p.2)
  | c :: rest =>
    if c = '\\' ∨ c = '\n' ∨ c = '\r' then none
    else (readBody? rest).map fun p => (c :: p.1, p.2)

def readLiteral? : List Char → Option (List Char × List Char)
  | '"' :: rest => readBody? rest
  | _ => none

/-- Reads a key, which is a literal or an identifier, and says what follows it. -/
def readKey? : List Char → Option (List Char × List Char)
  | '"' :: rest => readBody? rest
  | cs =>
    if isIdentifier (cs.takeWhile isIdentifierRest) then
      some (cs.takeWhile isIdentifierRest, cs.dropWhile isIdentifierRest)
    else none

/-- A text is one literal of a value, whatever follows it. -/
structure IsLiteralOf (value text : List Char) : Prop where
  quoted : ∃ body, text = '"' :: body ++ ['"']
  read : ∀ rest, readLiteral? (text ++ rest) = some (value, rest)
  oneLine : ∀ c ∈ text, c ≠ '\n' ∧ c ≠ '\r'
  escaped : ∀ front back, text = '"' :: front ++ '"' :: back → back ≠ [] →
    finalBackslashes front % 2 = 1

/-! ### Escapes -/

def escapes : List (Char × Char) :=
  [('\\', '\\'), ('"', '"'), ('\n', 'n'), ('\r', 'r'), ('\t', 't')]

def written : List (Char × Char) → Char → List Char
  | [], c => [c]
  | (b, d) :: table, c => if c = b then ['\\', d] else written table c

/-- Replaces one character after the other, each in all that the ones before have left. -/
def replaceInTurn (table : List (Char × Char)) (cs : List Char) : List Char :=
  table.foldl (fun cs p => Pointer.replaceAll [p.1] ['\\', p.2] cs) cs

/-- A character is escaped as its entry says, or stands for itself. -/
theorem written_cases (table : List (Char × Char)) (c : Char) :
    (∃ d, (c, d) ∈ table ∧ written table c = ['\\', d]) ∨
      written table c = [c] ∧ ∀ p ∈ table, p.1 ≠ c := by
  induction table with
  | nil => exact .inr ⟨rfl, nofun⟩
  | cons p table ih =>
    obtain ⟨b, d⟩ := p
    by_cases h : c = b
    · exact .inl ⟨d, h ▸ List.mem_cons_self, if_pos h⟩
    · rw [written, if_neg h]
      refine ih.imp (fun ⟨d, listed, escaped⟩ => ⟨d, List.mem_cons_of_mem _ listed, escaped⟩)
        fun ⟨bare, unlisted⟩ => ⟨bare, ?_⟩
      exact List.forall_mem_cons.mpr ⟨Ne.symm h, unlisted⟩

theorem written_of_unlisted {table : List (Char × Char)} {c : Char} (h : ∀ p ∈ table, p.1 ≠ c) :
    written table c = [c] := by
  rcases written_cases table c with ⟨d, listed, -⟩ | ⟨bare, -⟩
  · exact absurd rfl (h (c, d) listed)
  · exact bare

/-- Replacements in turn are one pass over the text if none of them finds a character that one before
it has put in. -/
theorem replaceInTurn_eq_flatMap {table : List (Char × Char)}
    (apart : table.Pairwise fun p q => q.1 ≠ '\\' ∧ q.1 ≠ p.2) (cs : List Char) :
    replaceInTurn table cs = cs.flatMap (written table) := by
  induction table generalizing cs with
  | nil => exact (List.flatMap_singleton' cs).symm
  | cons p table ih =>
    obtain ⟨unfound, apart⟩ := List.pairwise_cons.mp apart
    have step : replaceInTurn (p :: table) cs =
        replaceInTurn table (Pointer.replaceAll [p.1] ['\\', p.2] cs) := rfl
    rw [step, ih apart, Pointer.replaceAll_char, List.flatMap_assoc]
    refine congrArg (cs.flatMap ·) (funext fun c => ?_)
    rw [written]
    split
    · simp [written_of_unlisted fun q hq => (unfound q hq).1,
        written_of_unlisted fun q hq => (unfound q hq).2]
    · simp

theorem escapeChar_eq_written (c : Char) : escapeChar c = written escapes c := rfl

theorem escape_eq_replaceInTurn (cs : List Char) : escape cs = replaceInTurn escapes cs := by
  rw [replaceInTurn_eq_flatMap (by decide), escape]
  exact congrArg (cs.flatMap ·) (funext escapeChar_eq_written)

/-- A character is escaped by a backslash and one that stands for it, or needs no escape. -/
theorem escapeChar_cases (c : Char) :
    (∃ d, escapeChar c = ['\\', d] ∧ unescaped? d = some c ∧ d ≠ '\n' ∧ d ≠ '\r') ∨
      escapeChar c = [c] ∧ c ≠ '\\' ∧ c ≠ '"' ∧ c ≠ '\n' ∧ c ≠ '\r' ∧ c ≠ '\t' := by
  have stands : ∀ p ∈ escapes, unescaped? p.2 = some p.1 ∧ p.2 ≠ '\n' ∧ p.2 ≠ '\r' := by decide
  rw [escapeChar_eq_written]
  refine (written_cases escapes c).imp
    (fun ⟨d, listed, escaped⟩ => ⟨d, escaped, stands (c, d) listed⟩)
    fun ⟨bare, unlisted⟩ => ⟨bare, ?_⟩
  simpa [escapes, eq_comm] using unlisted

theorem toList_quote (s : String) : (quote s).toList = '"' :: escape s.toList ++ ['"'] := by
  rw [quote, String.toList_ofList]

/-! ### Literals -/

theorem readBody?_escapeChar (c : Char) (rest : List Char) :
    readBody? (escapeChar c ++ rest) = (readBody? rest).map fun p => (c :: p.1, p.2) := by
  rcases escapeChar_cases c with
    ⟨d, escaped, stands, -, -⟩ | ⟨bare, backslash, mark, feed, carriage, -⟩
  · simp [escaped, readBody?, stands]
  · simp [bare, readBody?, backslash, feed, carriage]

theorem readBody?_escape (cs rest : List Char) :
    readBody? (escape cs ++ '"' :: rest) = some (cs, rest) := by
  induction cs with
  | nil => rfl
  | cons c cs ih => rw [escape_cons, List.append_assoc, readBody?_escapeChar, ih, Option.map_some]

theorem oneLine_escape {cs : List Char} {c : Char} (h : c ∈ escape cs) : c ≠ '\n' ∧ c ≠ '\r' := by
  obtain ⟨b, -, hc⟩ := List.mem_flatMap.mp h
  rcases escapeChar_cases b with ⟨d, escaped, -, feed, carriage⟩ | ⟨bare, -, -, feed, carriage, -⟩
  · rw [escaped] at hc
    rcases List.mem_pair.mp hc with rfl | rfl
    · decide
    · exact ⟨feed, carriage⟩
  · rw [bare, List.mem_singleton] at hc
    exact hc ▸ ⟨feed, carriage⟩

/-- A quote stands in an escaped text only behind a backslash that is no other's escape. By
induction on the text, from any place where nothing is escaped. -/
theorem escaped_behind_of_quote {p : LiteralPlace} (free : p.escaped = false)
    {cs front back : List Char} (split : escape cs = front ++ '"' :: back) :
    (p.behind front).escaped = true := by
  induction cs generalizing p front with
  | nil => simp at split
  | cons c cs ih =>
    rw [escape_cons] at split
    rcases escapeChar_cases c with ⟨d, escaped, -⟩ | ⟨bare, backslash, mark, -⟩
    · rw [escaped, List.cons_append, List.singleton_append] at split
      rcases front with _ | ⟨b, _ | ⟨b', front⟩⟩
      · cases (List.cons.inj split).1
      · obtain ⟨rfl, -⟩ := List.cons.inj split
        simp [free]
      · obtain ⟨rfl, later⟩ := List.cons.inj split
        rw [LiteralPlace.behind_cons, LiteralPlace.behind_cons]
        exact ih (by simp [free]) (List.cons.inj later).2
    · rw [bare, List.singleton_append] at split
      rcases front with _ | ⟨b, front⟩
      · exact absurd (List.cons.inj split).1 mark
      · obtain ⟨rfl, later⟩ := List.cons.inj split
        rw [LiteralPlace.behind_cons]
        exact ih (by simp [backslash]) later

/-- A quoted text is one literal of that text. -/
theorem isLiteralOf_quote (s : String) : IsLiteralOf s.toList (quote s).toList := by
  rw [toList_quote]
  constructor
  case quoted => exact ⟨_, rfl⟩
  case read =>
    intro rest
    rw [List.cons_append, List.cons_append, readLiteral?, List.append_assoc]
    exact readBody?_escape s.toList rest
  case oneLine =>
    intro c hc
    rw [List.cons_append, List.mem_cons, List.mem_append, List.mem_singleton] at hc
    rcases hc with rfl | hc | rfl
    · decide
    · exact oneLine_escape hc
    · decide
  case escaped =>
    intro front back split strictly
    have within := eq_of_delimited split strictly
    exact (LiteralPlace.escaped_behind front).mp (escaped_behind_of_quote (p := plain) rfl within)

/-! ### Keys -/

theorem isIdentifierRest_of_start {c : Char} (h : isIdentifierStart c = true) :
    isIdentifierRest c = true := by
  simp only [isIdentifierStart, isIdentifierRest, Char.isAlphanum, Bool.or_eq_true] at h ⊢
  tauto

theorem isIdentifierRest_of_mem {cs : List Char} (h : isIdentifier cs = true) {c : Char}
    (hc : c ∈ cs) : isIdentifierRest c = true := by
  cases cs with
  | nil => cases hc
  | cons first rest =>
    obtain ⟨start, later⟩ := Bool.and_eq_true_iff.mp h
    rcases List.mem_cons.mp hc with rfl | hc
    · exact isIdentifierRest_of_start start
    · exact List.all_eq_true.mp later c hc

/-- A key is read back in front of a character that no identifier has in it. -/
theorem readKey?_key (name : String) {c : Char} (ends : isIdentifierRest c = false)
    (rest : List Char) :
    readKey? ((key name).toList ++ c :: rest) = some (name.toList, c :: rest) := by
  unfold key
  split
  · rename_i identifier
    have all : ∀ b ∈ name.toList, isIdentifierRest b = true :=
      fun b => isIdentifierRest_of_mem identifier
    have taken : (name.toList ++ c :: rest).takeWhile isIdentifierRest = name.toList := by
      rw [List.takeWhile_append_of_pos all]
      simp [ends]
    have left : (name.toList ++ c :: rest).dropWhile isIdentifierRest = c :: rest := by
      rw [List.dropWhile_append_of_pos all]
      simp [ends]
    have bare : ∀ tail, name.toList ++ c :: rest ≠ '"' :: tail := by
      intro tail he
      rw [he] at taken
      rw [← taken] at identifier
      cases identifier
    rw [readKey?, taken, left, if_pos identifier]
    exact bare
  · rw [toList_quote, List.cons_append, List.cons_append, readKey?, List.append_assoc]
    exact readBody?_escape name.toList (c :: rest)

theorem key_inj {a b : String} : key a = key b ↔ a = b := by
  constructor
  · intro same
    have read := readKey?_key a (c := ':') (by decide) []
    rw [same, readKey?_key b (by decide)] at read
    simpa [String.toList_inj, eq_comm] using read
  · exact congrArg key

/-- Every text is written as one literal of it, by five replacements, and names are told apart by
their keys, which are read back as the names in front of a colon. -/
theorem literals_and_keys_read_back :
    (∀ s : String, IsLiteralOf s.toList (quote s).toList ∧
      (quote s).toList = '"' :: replaceInTurn escapes s.toList ++ ['"']) ∧
    (∀ a b : String, key a = key b ↔ a = b) ∧
    ∀ (name : String) (rest : List Char),
      readKey? ((key name).toList ++ ':' :: rest) = some (name.toList, ':' :: rest) := by
  refine ⟨fun s => ⟨isLiteralOf_quote s, ?_⟩, fun a b => key_inj, fun name rest => ?_⟩
  · rw [toList_quote, escape_eq_replaceInTurn]
  · exact readKey?_key name (by decide) rest

/-- A backslash in front of an `n` is told from a line feed. -/
example : quote "\\n\n" = "\"\\\\n\\n\"" ∧ key "_op" = "_op" ∧ key "1st" = "\"1st\"" := by
  decide +kernel

end ApiContract.Script
