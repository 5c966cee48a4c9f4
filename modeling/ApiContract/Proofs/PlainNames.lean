import ApiContract.Pattern.Reader
import Mathlib.Data.List.TakeWhile

/-!
# Names in patterns

The notation of patterns has names in it: of categories, scripts and classes of characters, of
captures, and codes of characters. No such name has a slash or a backslash in it.
-/

namespace ApiContract.Pattern

/-! ### Texts without slashes -/

def isPlain (cs : List Char) : Bool := cs.all fun c => c != '/' && c != '\\'

theorem isPlain_cons (c : Char) (cs : List Char) :
    isPlain (c :: cs) = true ↔ c ≠ '/' ∧ c ≠ '\\' ∧ isPlain cs = true := by
  simp [isPlain, and_assoc]

theorem isPlain_append (front rest : List Char) :
    isPlain (front ++ rest) = (isPlain front && isPlain rest) := by
  simp [isPlain]

theorem isPlain_eq_false_iff {cs : List Char} :
    isPlain cs = false ↔ ∃ c ∈ cs, c = '/' ∨ c = '\\' := by
  simp [isPlain, or_iff_not_imp_left]

theorem isPlain_takeWhile {p : Char → Bool} (slash : p '/' = false) (backslash : p '\\' = false)
    (cs : List Char) : isPlain (cs.takeWhile p) = true := by
  by_contra special
  obtain ⟨c, hc, he⟩ := isPlain_eq_false_iff.mp (Bool.not_eq_true _ ▸ special)
  have kept : p c = true := List.all_eq_true.mp List.all_takeWhile c hc
  rcases he with rfl | rfl
  · rw [slash] at kept
    cases kept
  · rw [backslash] at kept
    cases kept

theorem length_takeWhile_add (p : Char → Bool) (cs : List Char) :
    (cs.takeWhile p).length + (cs.dropWhile p).length = cs.length := by
  rw [← List.length_append, List.takeWhile_append_dropWhile]

theorem drop_takeWhile (p : Char → Bool) (cs : List Char) :
    cs.drop (cs.takeWhile p).length = cs.dropWhile p := by
  induction cs with
  | nil => rfl
  | cons c rest ih => by_cases h : p c = true <;> simp [h, ih]

theorem drop_takeWhile_succ (p : Char → Bool) (cs : List Char) :
    cs.drop ((cs.takeWhile p).length + 1) = (cs.dropWhile p).tail := by
  rw [← List.drop_drop, drop_takeWhile, List.drop_one]

/-! ### Names -/

section

variable {name : String}

theorem ne_of_not_plain (h : isPlain name.toList = false) {known : String}
    (plain : isPlain known.toList = true) : name ≠ known := by
  rintro rfl
  rw [h] at plain
  cases plain

theorem lookup_eq_none {α : Type} {names : List (String × α)} (h : isPlain name.toList = false)
    (table : (names.all fun entry => isPlain entry.1.toList) = true) :
    names.lookup name = none := by
  induction names with
  | nil => rfl
  | cons entry rest ih =>
    rw [List.all_cons, Bool.and_eq_true] at table
    rw [List.lookup_cons, beq_false_of_ne (ne_of_not_plain h table.1)]
    exact ih table.2

theorem plain_categoryNames :
    (Letter.categoryNames.all fun entry => isPlain entry.1.toList) = true := by
  decide +kernel

theorem plain_scriptNames :
    (Letter.scriptNames.all fun entry => isPlain entry.1.toList) = true := by
  decide +kernel

theorem plain_binaryNames :
    (Letter.binaryNames.all fun entry => isPlain entry.1.toList) = true := by
  decide +kernel

theorem categoryNamed?_eq_none (h : isPlain name.toList = false) :
    CharClass.categoryNamed? name = none := by
  unfold CharClass.categoryNamed?
  iterate 3 rw [if_neg (ne_of_not_plain h (by decide))]
  rw [lookup_eq_none h plain_categoryNames, Option.map_none]

theorem scriptNamed?_eq_none (h : isPlain name.toList = false) :
    CharClass.scriptNamed? name = none := by
  rw [CharClass.scriptNamed?, lookup_eq_none h plain_scriptNames, Option.map_none]

theorem binaryNamed?_eq_none (h : isPlain name.toList = false) :
    CharClass.binaryNamed? name = none := by
  rw [CharClass.binaryNamed?, lookup_eq_none h plain_binaryNames, Option.map_none]

/-- No property with values has a name with a slash or a backslash, and no value has. -/
theorem valueNamed?_eq_none {key value : String}
    (h : isPlain key.toList = false ∨ isPlain value.toList = false) :
    CharClass.valueNamed? key value = none := by
  unfold CharClass.valueNamed?
  rcases h with hk | hv
  · have ne (known : String) (plain : isPlain known.toList = true) : key ≠ known :=
      ne_of_not_plain hk plain
    rw [if_neg (not_or.mpr ⟨ne _ (by decide), ne _ (by decide)⟩),
      if_neg (not_or.mpr ⟨ne _ (by decide), ne _ (by decide)⟩),
      if_neg (not_or.mpr ⟨ne _ (by decide), ne _ (by decide)⟩), if_neg (ne _ (by decide)),
      if_neg (not_or.mpr ⟨ne _ (by decide), ne _ (by decide)⟩),
      if_neg (not_or.mpr ⟨ne _ (by decide), ne _ (by decide)⟩),
      if_neg (not_or.mpr ⟨ne _ (by decide), ne _ (by decide)⟩)]
  · rw [categoryNamed?_eq_none hv, scriptNamed?_eq_none hv, CharClass.extensionNamed?,
      lookup_eq_none hv plain_scriptNames, CharClass.ageNamed?,
      lookup_eq_none hv (by decide +kernel), lookup_eq_none hv (by decide +kernel),
      lookup_eq_none hv (by decide +kernel), lookup_eq_none hv (by decide +kernel)]
    simp

theorem named?_eq_none (h : isPlain name.toList = false) : CharClass.named? name = none := by
  unfold CharClass.named?
  dsimp only
  iterate 14 rw [if_neg (ne_of_not_plain h (by decide))]

/-- Blanks and marks are taken out of a name, but no slash. -/
theorem isPlain_normalizeName {cs : List Char} (h : isPlain cs = false) :
    isPlain (CharClass.normalizeName cs).toList = false := by
  obtain ⟨c, hc, special⟩ := isPlain_eq_false_iff.mp h
  refine isPlain_eq_false_iff.mpr ⟨c, ?_, special⟩
  have kept (bare : List Char) (hb : c ∈ bare) : c ∈ (bare.filter fun c =>
      c.toNat < 128 && c != ' ' && c != '-' && c != '_').map Char.toLower := by
    refine List.mem_map.mpr ⟨c, List.mem_filter.mpr ⟨hb, ?_⟩, ?_⟩ <;>
      rcases special with rfl | rfl <;> decide
  unfold CharClass.normalizeName
  simp only [String.toList_ofList]
  have behind : c ∈ (if (cs.take 2).map Char.toLower = ['i', 's'] then cs.drop 2 else cs) := by
    split
    · rename_i start
      rw [← List.take_append_drop 2 cs] at hc
      refine (List.mem_append.mp hc).resolve_left fun front => ?_
      have lowered : c.toLower ∈ (cs.take 2).map Char.toLower := List.mem_map_of_mem front
      rw [start] at lowered
      rcases special with rfl | rfl <;> revert lowered <;> decide
    · exact hc
  generalize (if (cs.take 2).map Char.toLower = ['i', 's'] then cs.drop 2 else cs) = bare at behind ⊢
  have stays := kept bare behind
  split
  · rename_i alone
    rw [alone.2] at stays
    rcases special with rfl | rfl <;> simp at stays
  · exact stays

theorem isPlain_of_cutUnequal? {cs key value : List Char}
    (h : CharClass.cutUnequal? cs = some (key, value)) (key_plain : isPlain key = true)
    (value_plain : isPlain value = true) : isPlain cs = true := by
  induction cs using CharClass.cutUnequal?.induct generalizing key with
  | case1 rest =>
    rw [CharClass.cutUnequal?] at h
    cases h
    exact (isPlain_cons _ _).mpr ⟨by decide, by decide,
      (isPlain_cons _ _).mpr ⟨by decide, by decide, value_plain⟩⟩
  | case2 c rest other ih =>
    rw [CharClass.cutUnequal?.eq_2 _ _ other] at h
    obtain ⟨⟨front, _⟩, inner, h⟩ := Option.map_eq_some_iff.mp h
    cases h
    obtain ⟨slash, backslash, front_plain⟩ := (isPlain_cons _ _).mp key_plain
    exact (isPlain_cons _ _).mpr ⟨slash, backslash, ih inner front_plain⟩
  | case3 => cases h

theorem isPlain_of_cutAt? {sign : Char} (plain : sign ≠ '/' ∧ sign ≠ '\\')
    {cs key value : List Char} (h : CharClass.cutAt? sign cs = some (key, value))
    (key_plain : isPlain key = true) (value_plain : isPlain value = true) : isPlain cs = true := by
  unfold CharClass.cutAt? at h
  split at h
  · rename_i c rest behind
    cases h
    have stop := List.head?_dropWhile_not (· != sign) cs
    rw [behind] at stop
    obtain rfl : c = sign := by simpa using stop
    rw [← List.takeWhile_append_dropWhile (p := (· != c)) (l := cs), behind, isPlain_append,
      key_plain, Bool.true_and, isPlain_cons]
    exact ⟨plain.1, plain.2, value_plain⟩
  · cases h

theorem valueNamed?_of_not_plain {cs key value : List Char} (special : isPlain cs = false)
    (parts : isPlain key = true → isPlain value = true → isPlain cs = true) :
    CharClass.valueNamed? (CharClass.normalizeName key) (CharClass.normalizeName value) = none := by
  apply valueNamed?_eq_none
  by_contra plain
  obtain ⟨hk, hv⟩ := not_or.mp plain
  rw [parts (by_contra fun k => hk (isPlain_normalizeName (Bool.not_eq_true _ ▸ k)))
    (by_contra fun v => hv (isPlain_normalizeName (Bool.not_eq_true _ ▸ v)))] at special
  cases special

/-- No property has a slash in its name. -/
theorem property?_eq_none {cs : List Char} (h : isPlain cs = false) :
    CharClass.property? cs = none := by
  unfold CharClass.property?
  split
  · rename_i key value cut
    rw [valueNamed?_of_not_plain h (isPlain_of_cutUnequal? cut), Option.map_none]
  · rw [Option.map_eq_none_iff]
    split
    · rename_i key value cut
      apply valueNamed?_of_not_plain h
      rcases Option.or_eq_some_iff.mp cut with cut | ⟨-, cut⟩
      · exact isPlain_of_cutAt? (by decide) cut
      · exact isPlain_of_cutAt? (by decide) cut
    · have unknown := isPlain_normalizeName h
      simp only [binaryNamed?_eq_none unknown, categoryNamed?_eq_none unknown,
        scriptNamed?_eq_none unknown]
      rfl

end

theorem isPlain_of_property? {name : List Char} {found : Bool × CharSet}
    (h : CharClass.property? name = some found) : isPlain name = true := by
  by_contra special
  rw [property?_eq_none (Bool.not_eq_true _ ▸ special)] at h
  cases h

/-! ### Codes -/

theorem hexValue?_eq_none {c : Char} (h : c = '/' ∨ c = '\\') : hexValue? c = none := by
  rcases h with rfl | rfl <;> decide

theorem mapM_eq_none {α β : Type} {f : α → Option β} {xs : List α} {x : α} (hx : x ∈ xs)
    (h : f x = none) : xs.mapM f = none := by
  induction xs with
  | nil => cases hx
  | cons y rest ih =>
    rw [List.mapM_cons]
    rcases List.mem_cons.mp hx with rfl | hx
    · rw [h]; rfl
    · rw [ih hx]; cases f y <;> rfl

theorem isPlain_of_charOfHex? {digits : List Char} {c : Char} (h : charOfHex? digits = some c) :
    isPlain digits = true := by
  by_contra special
  obtain ⟨d, hd, hs⟩ := isPlain_eq_false_iff.mp (Bool.not_eq_true _ ▸ special)
  rw [charOfHex?, mapM_eq_none hd (hexValue?_eq_none hs)] at h
  cases h

/-! ### Categories -/

theorem exists_toList_join (runs : List String) (n : Nat) :
    ∃ rest, (String.join runs).toList = (runs.headD "").toList.take n ++ rest := by
  rw [String.toList_join]
  cases runs with
  | nil => exact ⟨[], by simp⟩
  | cons run runs =>
    refine ⟨run.toList.drop n ++ runs.flatMap String.toList, ?_⟩
    rw [List.headD_cons, ← List.append_assoc, List.take_append_drop, List.flatMap_cons]

/-- The table of categories is read no further than to its entry. -/
theorem keyAt_categoryRuns {c : Char} (h : c = '/' ∨ c = '\\') :
    CharClass.keyAt CharClass.categoryRuns c.toNat = some 'R' := by
  have start : (Letter.categoryRuns.headD "").toList.take 41 =
      "32Z1W3R1T3R1N1O1R1S1R1M2R10I2R3S2R26A1N1R".toList := by
    decide +kernel
  obtain ⟨rest, table⟩ := exists_toList_join Letter.categoryRuns 41
  rw [CharClass.categoryRuns, table, start]
  rcases h with rfl | rfl <;> rfl

/-! ### Captures -/

/-- Letters and digits are no slashes. -/
theorem isPlain_of_isCaptureName {name : List Char} (h : isCaptureName name = true) :
    isPlain name = true := by
  by_contra special
  obtain ⟨c, hc, he⟩ := isPlain_eq_false_iff.mp (Bool.not_eq_true _ ▸ special)
  have unlisted : CharClass.category "IJK" c = false := by
    rw [CharClass.category, keyAt_categoryRuns he]
    decide
  have noLetter : CharClass.isAlphabetic c = false := by rcases he with rfl | rfl <;> decide
  have noSign : (c == '_' || c == '.' || c == '[' || c == ']') = false := by
    rcases he with rfl | rfl <;> decide
  cases name with
  | nil => cases hc
  | cons first rest =>
    rw [isCaptureName, Bool.and_eq_true] at h
    rcases List.mem_cons.mp hc with rfl | hc
    · simp [noLetter] at h
      simp [h] at noSign
    · have kept := List.all_eq_true.mp h.2 c hc
      simp [unlisted, noLetter, noSign] at kept

end ApiContract.Pattern
