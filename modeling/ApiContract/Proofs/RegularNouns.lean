import ApiContract.Resource.Basic

/-!
# Words that keep their number

The rules for the singular undo the rules for the plural except at five endings in `e`, which the
plural makes look like another word's, and at a word that ends in one `s`, which looks like a plural
itself. On all other words an association finds its resource by either root key.
-/

namespace ApiContract

/-! ### Endings -/

section Endings

variable {ending word stem : List Char}

theorem stem?_eq_some_iff : stem? ending word = some stem ↔ word = stem ++ ending := by
  unfold stem?
  rw [Option.ite_none_right_eq_some, List.isSuffixOf_iff_suffix, Option.some.injEq]
  constructor
  · rintro ⟨h, rfl⟩
    exact (List.suffix_iff_eq_append.mp h).symm
  · rintro rfl
    exact ⟨List.suffix_append stem ending, by simp⟩

theorem stem?_isSome : (stem? ending word).isSome = ending.isSuffixOf word := by
  unfold stem?
  split
  · rename_i h
    exact h.symm
  · rename_i h
    exact (Bool.eq_false_iff.mpr h).symm

theorem stem?_eq_none_iff : stem? ending word = none ↔ ending.isSuffixOf word = false := by
  rw [← stem?_isSome, Option.isSome_eq_false_iff, Option.isNone_iff_eq_none]

/-- A last letter that two texts share plays no part. -/
theorem stem?_concat (ending word : List Char) (c : Char) :
    stem? (ending ++ [c]) (word ++ [c]) = stem? ending word :=
  Option.ext fun stem => by
    rw [stem?_eq_some_iff, stem?_eq_some_iff, ← List.append_assoc, List.append_cancel_right_eq]

theorem stem?_concat_of_ne (ending : List Char) {c d : Char} (h : c ≠ d) :
    stem? (ending ++ [c]) (word ++ [d]) = none := by
  rw [Option.eq_none_iff_forall_ne_some]
  intro stem hs
  rw [stem?_eq_some_iff, ← List.append_assoc] at hs
  exact h (List.append_inj_right' hs rfl |> List.cons.inj).1.symm

theorem isSuffixOf_concat_of_ne (ending : List Char) {c d : Char} (h : c ≠ d) :
    (ending ++ [c]).isSuffixOf (word ++ [d]) = false :=
  stem?_eq_none_iff.mp (stem?_concat_of_ne ending h)

theorem isSuffixOf_concat (ending word : List Char) (c : Char) :
    (ending ++ [c]).isSuffixOf (word ++ [c]) = ending.isSuffixOf word := by
  rw [← stem?_isSome, ← stem?_isSome, stem?_concat]

/-- A text cut and completed again by its ending. -/
theorem map_stem?_append : (stem? ending word).map (· ++ ending) =
    if ending.isSuffixOf word then some word else none := by
  cases h : stem? ending word with
  | none => simp [stem?_eq_none_iff.mp h]
  | some stem =>
    obtain rfl := stem?_eq_some_iff.mp h
    simp [List.suffix_append]

theorem last_of_isSuffixOf (ending : List Char) {c : Char}
    (h : (ending ++ [c]).isSuffixOf word = true) :
    ∃ front, word = front ++ [c] := by
  obtain ⟨front, rfl⟩ := List.isSuffixOf_iff_suffix.mp h
  exact ⟨front ++ ending, by simp⟩

end Endings

namespace Noun

def endsInOneS (word : List Char) : Bool :=
  ['s'].isSuffixOf word && !(['s', 's'].isSuffixOf word)

def sibilants : List (List Char) := [['s', 's'], ['s', 'h'], ['c', 'h'], ['x']]

/-- The endings that the plural turns into one of another word: `ie`, and a sibilant with an `e`. -/
def softEndings : List (List Char) := ['i', 'e'] :: sibilants.map (· ++ ['e'])

/-- Whether a word does not come back from its plural. -/
def losesEnding (word : List Char) : Bool :=
  endsInOneS word || softEndings.any (·.isSuffixOf word)

/-- The singular of a word with `s` behind it, by how the word ends. -/
theorem singularChars_concat (word : List Char) :
    singularChars (word ++ ['s']) =
      match stem? ['i', 'e'] word with
      | some stem => stem ++ ['y']
      | none =>
        match sibilants.findSome? fun ending =>
          (stem? (ending ++ ['e']) word).map (· ++ ending) with
        | some singular => singular
        | none => if ['s'].isSuffixOf word then word ++ ['s'] else word := by
  have hies : stem? "ies".toList (word ++ ['s']) = stem? ['i', 'e'] word :=
    stem?_concat ['i', 'e'] _ 's'
  have hsses : stem? "sses".toList (word ++ ['s']) = stem? ['s', 's', 'e'] word :=
    stem?_concat ['s', 's', 'e'] _ 's'
  have hshes : stem? "shes".toList (word ++ ['s']) = stem? ['s', 'h', 'e'] word :=
    stem?_concat ['s', 'h', 'e'] _ 's'
  have hches : stem? "ches".toList (word ++ ['s']) = stem? ['c', 'h', 'e'] word :=
    stem?_concat ['c', 'h', 'e'] _ 's'
  have hxes : stem? "xes".toList (word ++ ['s']) = stem? ['x', 'e'] word :=
    stem?_concat ['x', 'e'] _ 's'
  have hs : stem? ['s'] (word ++ ['s']) = some word := stem?_eq_some_iff.mpr rfl
  have hss : (stem? ['s', 's'] (word ++ ['s'])).isSome = ['s'].isSuffixOf word := by
    rw [← stem?_isSome]
    exact congrArg Option.isSome (stem?_concat ['s'] _ 's')
  unfold singularChars
  simp only [hies, sibilants, List.findSome?_cons, hsses, hshes, hches, hxes, hs, hss]
  rfl

theorem softEndings_end : ∀ ending ∈ softEndings, ∃ front, ending = front ++ ['e'] := by
  intro ending hm
  rcases List.mem_cons.mp hm with rfl | hm
  · exact ⟨['i'], rfl⟩
  · obtain ⟨front, -, rfl⟩ := List.mem_map.mp hm
    exact ⟨front, rfl⟩

theorem not_soft_of_last {front : List Char} {d : Char} (h : 'e' ≠ d) :
    softEndings.any (·.isSuffixOf (front ++ [d])) = false := by
  rw [List.any_eq_false]
  intro ending hm
  obtain ⟨front', rfl⟩ := softEndings_end ending hm
  rw [isSuffixOf_concat_of_ne _ h]
  exact Bool.false_ne_true

section Words

variable {word : List Char}

/-- With `s` behind it a word in the singular comes back, or loses letters to a soft ending. -/
theorem singularChars_concat_cases (hs : ['s'].isSuffixOf word = false) :
    (softEndings.any (·.isSuffixOf word) = true ∧
        (singularChars (word ++ ['s'])).length < word.length) ∨
      (softEndings.any (·.isSuffixOf word) = false ∧ singularChars (word ++ ['s']) = word) := by
  have hany : ∀ {ending stem}, ending ∈ softEndings → stem? ending word = some stem →
      softEndings.any (·.isSuffixOf word) = true := by
    intro ending stem hm h
    exact List.any_eq_true.mpr ⟨ending, hm, by rw [← stem?_isSome, h]; rfl⟩
  rw [singularChars_concat]
  cases hie : stem? ['i', 'e'] word with
  | some stem =>
    refine .inl ⟨hany (by decide) hie, ?_⟩
    rw [stem?_eq_some_iff.mp hie]
    simp
  | none =>
    cases hf : sibilants.findSome? fun ending =>
        (stem? (ending ++ ['e']) word).map (· ++ ending) with
    | some singular =>
      obtain ⟨ending, hm, h⟩ := List.exists_of_findSome?_eq_some hf
      obtain ⟨stem, hstem, rfl⟩ := Option.map_eq_some_iff.mp h
      refine .inl ⟨hany (List.mem_cons_of_mem _ (List.mem_map_of_mem hm)) hstem, ?_⟩
      rw [stem?_eq_some_iff.mp hstem]
      simp
    | none =>
      refine .inr ⟨?_, by simp [hs]⟩
      rw [List.any_eq_false]
      intro ending hm h
      obtain ⟨stem, hstem⟩ := Option.isSome_iff_exists.mp (stem?_isSome.trans h)
      rcases List.mem_cons.mp hm with rfl | hm
      · rw [hie] at hstem
        cases hstem
      · obtain ⟨sibilant, hsib, rfl⟩ := List.mem_map.mp hm
        have hnone := List.findSome?_eq_none_iff.mp hf sibilant hsib
        rw [hstem] at hnone
        cases hnone

theorem singularChars_concat_eq_iff (hs : ['s'].isSuffixOf word = false) :
    singularChars (word ++ ['s']) = word ↔ softEndings.any (·.isSuffixOf word) = false := by
  rcases singularChars_concat_cases hs with ⟨hsoft, hlen⟩ | ⟨hsoft, he⟩
  · simp only [hsoft, Bool.true_eq_false, iff_false]
    intro he
    rw [he] at hlen
    exact Nat.lt_irrefl _ hlen
  · simp [hsoft, he]

theorem findSome?_ite {l : List (List Char)} {p : List Char → Bool} :
    (l.findSome? fun a => if p a then some word else none) =
      if l.any p then some word else none := by
  induction l with
  | nil => rfl
  | cons a l ih => cases h : p a <;> simp [h, ih]

/-- The singular of a word with `es` behind it. -/
theorem singularChars_concat_es (word : List Char) (hi : ['i'].isSuffixOf word = false) :
    singularChars (word ++ ['e', 's']) =
      if sibilants.any (·.isSuffixOf word) then word else word ++ ['e'] := by
  have hword : word ++ ['e', 's'] = (word ++ ['e']) ++ ['s'] := by simp
  have hie : stem? ['i', 'e'] (word ++ ['e']) = none :=
    (stem?_concat ['i'] _ 'e').trans (stem?_eq_none_iff.mpr hi)
  have hs : ['s'].isSuffixOf (word ++ ['e']) = false :=
    isSuffixOf_concat_of_ne [] (by decide)
  have found : (sibilants.findSome? fun ending =>
      (stem? (ending ++ ['e']) (word ++ ['e'])).map (· ++ ending)) =
        if sibilants.any (·.isSuffixOf word) then some word else none := by
    simp only [stem?_concat, map_stem?_append]
    exact findSome?_ite
  rw [hword, singularChars_concat, hie, found, hs]
  cases sibilants.any (·.isSuffixOf word) <;> rfl

/-- A word that does not end in `s` is singular already. -/
theorem singularChars_of_not_s (hs : ['s'].isSuffixOf word = false) :
    singularChars word = word := by
  have none_of_s : ∀ ending : List Char, stem? (ending ++ ['s']) word = none := by
    intro ending
    rw [stem?_eq_none_iff, Bool.eq_false_iff]
    intro h
    obtain ⟨front, rfl⟩ := last_of_isSuffixOf _ h
    have hend := isSuffixOf_concat [] front 's'
    rw [List.nil_append, hs] at hend
    cases hend
  have hies : stem? "ies".toList word = none := none_of_s ['i', 'e']
  have hsses : stem? "sses".toList word = none := none_of_s ['s', 's', 'e']
  have hshes : stem? "shes".toList word = none := none_of_s ['s', 'h', 'e']
  have hches : stem? "ches".toList word = none := none_of_s ['c', 'h', 'e']
  have hxes : stem? "xes".toList word = none := none_of_s ['x', 'e']
  have hone : stem? ['s'] word = none := none_of_s []
  simp only [singularChars, hies, List.findSome?_cons, List.findSome?_nil, hsses, hshes, hches,
    hxes, hone, Option.map_none]

/-- So is one that ends in `ss`. -/
theorem singularChars_of_ss (front : List Char) :
    singularChars (front ++ ['s'] ++ ['s']) = front ++ ['s'] ++ ['s'] := by
  have hie : stem? ['i', 'e'] (front ++ ['s']) = none :=
    stem?_concat_of_ne ['i'] (by decide)
  have found : (sibilants.findSome? fun ending =>
      (stem? (ending ++ ['e']) (front ++ ['s'])).map (· ++ ending)) = none := by
    rw [List.findSome?_eq_none_iff]
    intro ending _
    rw [stem?_concat_of_ne _ (by decide)]
    rfl
  have hs : ['s'].isSuffixOf (front ++ ['s']) = true := isSuffixOf_concat [] _ 's'
  rw [singularChars_concat, hie, found, hs]
  rfl

/-- A word is its own singular exactly if it does not end in one `s`. -/
theorem singularChars_eq_self_iff (word : List Char) :
    singularChars word = word ↔ endsInOneS word = false := by
  cases hs : ['s'].isSuffixOf word with
  | false => simp [endsInOneS, hs, singularChars_of_not_s hs]
  | true =>
    obtain ⟨front, rfl⟩ := last_of_isSuffixOf [] hs
    have hss : ['s', 's'].isSuffixOf (front ++ ['s']) = ['s'].isSuffixOf front :=
      isSuffixOf_concat ['s'] _ 's'
    rw [endsInOneS, hs, hss, Bool.true_and, Bool.not_eq_false']
    cases hf : ['s'].isSuffixOf front with
    | true =>
      obtain ⟨front', rfl⟩ := last_of_isSuffixOf [] hf
      exact iff_of_true (singularChars_of_ss front') rfl
    | false =>
      have hne : singularChars (front ++ ['s']) ≠ front ++ ['s'] := by
        intro he
        rcases singularChars_concat_cases hf with ⟨-, hlen⟩ | ⟨-, hw⟩
        · rw [he, List.length_append] at hlen
          omega
        · have := congrArg List.length (he.symm.trans hw)
          simp at this
      simp [hne]

/-- The last letter of a word to whose plural two letters are added. -/
theorem last_of_hard (h : (["s", "x", "ch", "sh"].any (·.toList.isSuffixOf word)) = true) :
    ∃ front d, word = front ++ [d] ∧ d ≠ 'i' ∧ d ≠ 'e' := by
  obtain ⟨ending, hm, hsuffix⟩ := List.any_eq_true.mp h
  have hend : ∃ front d, ending.toList = front ++ [d] ∧ d ≠ 'i' ∧ d ≠ 'e' := by
    simp only [List.mem_cons, List.not_mem_nil, or_false] at hm
    rcases hm with rfl | rfl | rfl | rfl
    · exact ⟨[], 's', by decide⟩
    · exact ⟨[], 'x', by decide⟩
    · exact ⟨['c'], 'h', by decide⟩
    · exact ⟨['s'], 'h', by decide⟩
  obtain ⟨front, d, he, hd⟩ := hend
  rw [he] at hsuffix
  obtain ⟨front', rfl⟩ := last_of_isSuffixOf _ hsuffix
  exact ⟨front', d, rfl, hd⟩

/-- The endings to which the plural adds two letters are the sibilants and the one `s`. -/
theorem sibilants_of_hard (h : (["s", "x", "ch", "sh"].any (·.toList.isSuffixOf word)) = true) :
    sibilants.any (·.isSuffixOf word) = !endsInOneS word := by
  cases hs : ['s'].isSuffixOf word with
  | true =>
    obtain ⟨front, rfl⟩ := last_of_isSuffixOf [] hs
    have hsh : ['s', 'h'].isSuffixOf (front ++ ['s']) = false :=
      isSuffixOf_concat_of_ne ['s'] (by decide)
    have hch : ['c', 'h'].isSuffixOf (front ++ ['s']) = false :=
      isSuffixOf_concat_of_ne ['c'] (by decide)
    have hx : ['x'].isSuffixOf (front ++ ['s']) = false :=
      isSuffixOf_concat_of_ne [] (by decide)
    simp only [sibilants, endsInOneS, List.any_cons, List.any_nil, hs, hsh, hch, hx, Bool.or_false,
      Bool.true_and, Bool.not_not]
  | false =>
    rw [endsInOneS, hs, Bool.false_and, Bool.not_false]
    obtain ⟨ending, hm, hsuffix⟩ := List.any_eq_true.mp h
    refine List.any_eq_true.mpr ⟨ending.toList, ?_, hsuffix⟩
    simp only [List.mem_cons, List.not_mem_nil, or_false] at hm
    rcases hm with rfl | rfl | rfl | rfl
    · exact absurd hsuffix (Bool.eq_false_iff.mp hs)
    · decide
    · decide
    · decide

/-- A word comes back from its plural exactly if it keeps its ending. -/
theorem singularChars_pluralChars_iff (word : List Char) :
    singularChars (pluralChars word) = word ↔ losesEnding word = false := by
  unfold pluralChars losesEnding
  cases hy : stem? ['y'] word with
  | some stem =>
    obtain rfl := stem?_eq_some_iff.mp hy
    have hs : ['s'].isSuffixOf (stem ++ ['y']) = false :=
      isSuffixOf_concat_of_ne [] (by decide)
    have hsoft : softEndings.any (·.isSuffixOf (stem ++ ['y'])) = false :=
      not_soft_of_last (by decide)
    have hback : singularChars (stem ++ "ies".toList) = stem ++ ['y'] := by
      have he : stem ++ "ies".toList = (stem ++ ['i', 'e']) ++ ['s'] := by simp
      rw [he, singularChars_concat, stem?_eq_some_iff.mpr rfl]
    simp only [endsInOneS, hs, hsoft, Bool.false_and, Bool.or_false, iff_true]
    split
    · exact (singularChars_concat_eq_iff hs).mpr hsoft
    · exact hback
  | none =>
    simp only
    split
    · -- Two letters are added: the word ends in a sibilant or in one `s`.
      rename_i hhard
      obtain ⟨front, d, rfl, hi, he⟩ := last_of_hard hhard
      have hsoft : softEndings.any (·.isSuffixOf (front ++ [d])) = false := not_soft_of_last he.symm
      have hback := singularChars_concat_es (front ++ [d])
        (isSuffixOf_concat_of_ne [] hi.symm)
      have hes : "es".toList = ['e', 's'] := by decide
      rw [hes, hback, hsoft, Bool.or_false, sibilants_of_hard hhard]
      cases endsInOneS (front ++ [d]) <;> simp
    · rename_i hhard
      have hs : ['s'].isSuffixOf word = false := by
        rw [Bool.eq_false_iff]
        exact fun h => hhard (List.any_eq_true.mpr ⟨"s", by decide, h⟩)
      rw [singularChars_concat_eq_iff hs]
      simp [endsInOneS, hs]

end Words

theorem singular_eq_self_iff (word : String) :
    singular word = word ↔ endsInOneS word.toList = false := by
  rw [singular, ← String.toList_inj, String.toList_ofList, singularChars_eq_self_iff]

theorem singular_plural_iff (word : String) :
    singular (plural word) = word ↔ losesEnding word.toList = false := by
  rw [singular, plural, String.toList_ofList, ← String.toList_inj, String.toList_ofList,
    singularChars_pluralChars_iff]

end Noun

open Noun

/-- An association that names no resource finds the one whose name its own name suggests. -/
theorem Catalog.target?_of_suggested {catalog : Catalog} {r : Resource} {a : Association}
    (held : Keyed.get? catalog r.name = some r) (direct : a.target = .direct none)
    (suggested : typeName (singular a.name) = r.name) : catalog.target? a = some r := by
  simp [Catalog.target?, direct, suggested, held]

/-- An association finds a resource by the root keys that its name suggests: by the plural one if
the plural keeps the ending, by the singular one if that does not look like a plural. Just then the
singular of the key is the singular key. -/
theorem found_by_root_keys (catalog : Catalog) (r : Resource)
    (held : Keyed.get? catalog r.name = some r)
    (spelled : typeName (Words.snake r.name) = r.name) :
    let key := RootKey.ofTypeName r.name
    (singular key.plural = key.singular ↔ losesEnding key.singular.toList = false) ∧
    (singular key.singular = key.singular ↔ endsInOneS key.singular.toList = false) ∧
    ∀ a : Association, a.target = .direct none →
      (a.cardinality = .many → a.name = key.plural → losesEnding key.singular.toList = false →
        catalog.target? a = some r) ∧
      (a.cardinality = .belongsTo → a.name = key.singular →
        endsInOneS key.singular.toList = false → catalog.target? a = some r) := by
  have hplural : singular (plural (Words.snake r.name)) = Words.snake r.name ↔
      losesEnding (Words.snake r.name).toList = false := singular_plural_iff _
  have hsingular : singular (Words.snake r.name) = Words.snake r.name ↔
      endsInOneS (Words.snake r.name).toList = false := singular_eq_self_iff _
  refine ⟨hplural, hsingular, fun a direct => ⟨fun _ name keeps => ?_, fun _ name keeps => ?_⟩⟩
  · refine Catalog.target?_of_suggested held direct ?_
    rw [name, RootKey.ofTypeName, hplural.mpr keeps, spelled]
  · refine Catalog.target?_of_suggested held direct ?_
    rw [name, RootKey.ofTypeName, hsingular.mpr keeps, spelled]

def nounCatalog : Catalog :=
  ["TaxClass", "LineItem", "Movie", "Status", "Ax", "Axe", "Category"].foldl
    (fun catalog name => catalog.add { name }) []

theorem taxClass_found :
    nounCatalog.target? { name := "tax_classes", cardinality := .many } =
        some { name := "TaxClass" } ∧
      nounCatalog.target? { name := "tax_class", cardinality := .belongsTo } =
        some { name := "TaxClass" } := by
  have held : Keyed.get? nounCatalog "TaxClass" = some { name := "TaxClass" } := by rfl
  have found := (found_by_root_keys nounCatalog { name := "TaxClass" } held (by decide +kernel)).2.2
  exact ⟨(found _ rfl).1 rfl (by decide +kernel) (by decide +kernel),
    (found _ rfl).2 rfl (by decide +kernel) (by decide +kernel)⟩

/-- A film and a status are not found by their root keys, and of two resources with one plural only
one can be found by it. -/
theorem root_keys_miss :
    (["Movie", "Status", "Ax", "Axe"].all fun name => typeName (Words.snake name) == name &&
        (Keyed.get? nounCatalog name).any (·.name == name)) = true ∧
      (RootKey.ofTypeName "Movie").plural = "movies" ∧
      (nounCatalog.target? { name := "movies", cardinality := .many }).isNone = true ∧
      (RootKey.ofTypeName "Status").singular = "status" ∧
      (nounCatalog.target? { name := "status", cardinality := .belongsTo }).isNone = true ∧
      (RootKey.ofTypeName "Axe").plural = "axes" ∧ (RootKey.ofTypeName "Ax").plural = "axes" ∧
      (nounCatalog.target? { name := "axes", cardinality := .many }).map (·.name) = some "Ax" := by
  decide +kernel

end ApiContract
