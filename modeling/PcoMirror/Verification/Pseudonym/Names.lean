import PcoMirror.Model.Pseudonym.Names

/-! When the pseudonym of a whole name is the pseudonyms of its parts. -/

namespace PcoMirror.Pseudonym

open Text

variable {c : Chooser} {v s family suffix : List Char}

/-! ## Picking -/

theorem Chooser.pick_mem (kind : NameKind) (value : List Char) (pool : Pool) :
    c.pick kind value pool ∈ pool.names :=
  List.get_mem _ _

theorem Chooser.isWord_first (v : List Char) : IsWord (c.first v) :=
  c.firstNames.isWord _ (Chooser.pick_mem .first v c.firstNames)

theorem Chooser.isWord_last (v : List Char) : IsWord (c.last v) :=
  c.lastNames.isWord _ (Chooser.pick_mem .last v c.lastNames)

theorem Chooser.not_household_last (v : List Char) : isHousehold (c.last v) = false :=
  c.lastNames.not_household _ (Chooser.pick_mem .last v c.lastNames)

/-- Only the words of a value count. -/
theorem Chooser.pick_congr {kind : NameKind} {value other : List Char} (h : words value = words other)
    (pool : Pool) : c.pick kind value pool = c.pick kind other pool := by
  have hdigest : c.digest kind value = c.digest kind other := by
    rw [Chooser.digest, Chooser.digest, Chooser.norm, Chooser.norm, h]
  simp only [Chooser.pick, hdigest]

/-! ## The suffix -/

theorem householdSuffix_eq_some (h : householdSuffix s = some (family, suffix)) :
    ∃ space word, space ≠ [] ∧ Blank space ∧ IsWord word ∧ isHousehold word = true ∧
      suffix = space ++ word := by
  simp only [householdSuffix] at h
  set word := s.rtakeWhile fun c => !isSpace c with hword
  set rest := s.rdropWhile fun c => !isSpace c with hrest
  have hs : rest ++ word = s := List.rdropWhile_append_rtakeWhile
  have hfamily : rstrip isSpace rest ++ rest.rtakeWhile isSpace = rest :=
    List.rdropWhile_append_rtakeWhile
  split_ifs at h with hcond
  simp only [Bool.and_eq_true, Bool.not_eq_true', List.isEmpty_eq_false_iff] at hcond
  obtain ⟨⟨hhousehold, hne⟩, -⟩ := hcond
  obtain ⟨rfl, rfl⟩ := Prod.mk.inj (Option.some.inj h)
  refine ⟨rest.rtakeWhile isSpace, word, ?_, fun c hc => List.mem_rtakeWhile_imp hc, ⟨?_, ?_⟩,
    hhousehold, ?_⟩
  · intro hnil
    rw [List.rtakeWhile_eq_nil_iff] at hnil
    have hlast := List.rdropWhile_last_not (fun c => !isSpace c) s hne
    simp only [Bool.not_eq_true', Bool.not_eq_false] at hlast
    exact hnil hne hlast
  · rintro hnil
    rw [hnil] at hhousehold
    cases hhousehold
  · intro c hc
    simpa using List.mem_rtakeWhile_imp hc
  · have hsplit : s = rstrip isSpace rest ++ (rest.rtakeWhile isSpace ++ word) := by
      rw [← List.append_assoc, hfamily, hs]
    exact (congrArg (List.drop _) hsplit).trans List.drop_left

/-- Two words are a household's name where the second is the suffix. -/
theorem householdSuffix_eq_none_iff {w space word : List Char} (hw : IsWord w)
    (hword : IsWord word) (hspace : Blank space) (hne : space ≠ []) :
    householdSuffix (w ++ (space ++ word)) = none ↔ isHousehold word = false := by
  have hlast : ¬ (!isSpace ((w ++ space).getLast (by simp [hne]))) = true := by
    rw [List.getLast_append_of_ne_nil _ hne]
    simp [hspace _ (List.getLast_mem hne)]
  have hnot : ∀ c ∈ word, (!isSpace c) = true := by simpa using hword.not_space
  have htake : (w ++ (space ++ word)).rtakeWhile (fun c => !isSpace c) = word := by
    rw [← List.append_assoc]
    exact rtakeWhile_append hnot fun _ => hlast
  have hdrop : (w ++ (space ++ word)).rdropWhile (fun c => !isSpace c) = w ++ space := by
    rw [← List.append_assoc]
    exact rdropWhile_append hnot fun _ => hlast
  have hfamily : rstrip isSpace (w ++ space) = w :=
    rdropWhile_append hspace fun h => by simp [hw.not_space _ (List.getLast_mem h)]
  have hbreak : w.contains '\n' = false := by
    rw [List.contains_eq_mem, decide_eq_false_iff_not]
    intro hmem
    have hspace := hw.not_space _ hmem
    cases hspace
  unfold householdSuffix
  simp only [htake, hdrop, hfamily, hbreak]
  cases isHousehold word <;> simp [hne]

/-! ## Whole names -/

theorem words_household_name (h : householdSuffix (strip v) = some (family, suffix)) :
    ∃ word, isHousehold word = true ∧ words (c.fullName v) = [c.last family, word] := by
  obtain ⟨space, word, hne, hspace, hword, hhousehold, rfl⟩ := householdSuffix_eq_some h
  obtain ⟨first, space, rfl⟩ := List.exists_cons_of_ne_nil hne
  obtain ⟨hfirst, hspace⟩ := List.forall_mem_cons.mp hspace
  refine ⟨word, hhousehold, ?_⟩
  rw [Chooser.fullName, h]
  simp only
  rw [List.cons_append, words_append_cons _ _ hfirst, words_blank_append hspace,
    words_of_forall (c.isWord_last family).ne_nil (c.isWord_last family).not_space,
    words_of_forall hword.ne_nil hword.not_space, List.singleton_append]

/-- Without a suffix, a name has as many words as before. -/
theorem length_words_fullName (h : householdSuffix (strip v) = none) :
    (words (c.fullName v)).length = (words v).length := by
  rw [Chooser.fullName, h]
  simp only
  split
  · rename_i hwords
    rw [hwords]
    rfl
  · rename_i word hwords
    rw [hwords, words_of_forall (c.isWord_first word).ne_nil (c.isWord_first word).not_space]
    rfl
  · rename_i word rest _ hwords
    rw [hwords, words_joined, List.length_cons, List.length_map, List.length_cons]
    simp only [List.forall_mem_cons, List.forall_mem_map]
    exact ⟨c.isWord_first word, fun w _ => c.isWord_last w⟩

/-- A replaced name begins and ends in a name or in the suffix. -/
theorem trimmed_fullName (h : words v ≠ []) : Trimmed (c.fullName v) := by
  cases hsuffix : householdSuffix (strip v) with
  | some parts =>
      obtain ⟨family, suffix⟩ := parts
      obtain ⟨space, word, -, -, hword, -, rfl⟩ := householdSuffix_eq_some hsuffix
      rw [Chooser.fullName, hsuffix]
      exact (c.isWord_last family).trimmed.append hword.trimmed space
  | none =>
      rw [Chooser.fullName, hsuffix]
      simp only
      split
      · exact absurd ‹_› h
      · exact (c.isWord_first _).trimmed
      · refine trimmed_joined (List.cons_ne_nil _ _) ?_
        simp only [List.forall_mem_cons, List.forall_mem_map]
        exact ⟨c.isWord_first _, fun w _ => c.isWord_last w⟩

/-! ## Agreement -/

/-- The first name and the last name of a person, as the pseudonym of the whole name has them. -/
def Chooser.Agrees (c : Chooser) (first last : String) : Prop :=
  pseudonymise c .fullName (first ++ " " ++ last) =
    pseudonymise c .first first ++ " " ++ pseudonymise c .last last

/-- One word each, and the second no suffix of a household. -/
structure OneWordEach (first last : List Char) : Prop where
  firstLength : (words first).length = 1
  lastLength : (words last).length = 1
  not_household : ∀ word ∈ words last, isHousehold word = false

theorem pseudonymise_of_blank {kind : NameKind} {value : String} (h : Blank value.toList) :
    pseudonymise c kind value = value := by
  rw [pseudonymise, strip_eq_nil.mpr h]
  rfl

theorem toList_pseudonymise {kind : NameKind} {value : String} (h : ¬ Blank value.toList) :
    (pseudonymise c kind value).toList = c.generator kind value.toList := by
  have hne : strip value.toList ≠ [] := fun hnil => h (strip_eq_nil.mp hnil)
  rw [pseudonymise, if_neg (by simpa using hne), String.toList_ofList]

theorem words_whole (first last : List Char) :
    words (first ++ ' ' :: last) = words first ++ words last :=
  words_append_cons first last rfl

theorem householdSuffix_whole {first last f l : List Char} (hfirst : words first = [f])
    (hlast : words last = [l]) :
    householdSuffix (strip (first ++ ' ' :: last)) = none ↔ isHousehold l = false := by
  obtain ⟨before, after, hbefore, hafter, hf, rfl⟩ := exists_of_words_eq_singleton hfirst
  obtain ⟨before', after', hbefore', hafter', hl, rfl⟩ := exists_of_words_eq_singleton hlast
  have hspace : Blank (after ++ ' ' :: before') := by
    intro d hd
    rcases List.mem_append.mp hd with hd | hd
    · exact hafter d hd
    · rcases List.mem_cons.mp hd with rfl | hd
      · rfl
      · exact hbefore' d hd
  have hstrip : strip (before ++ (f ++ after) ++ ' ' :: (before' ++ (l ++ after'))) =
      f ++ (after ++ ' ' :: before' ++ l) := by
    rw [← (hf.trimmed.append hl.trimmed (after ++ ' ' :: before')).strip_eq hbefore hafter']
    simp
  rw [hstrip]
  exact householdSuffix_eq_none_iff hf hl hspace (by simp)

/-- Where both parts are there, the whole name agrees with them where each is one word. -/
theorem fullName_eq_iff {first last : List Char} (hfirst : words first ≠ [])
    (hlast : words last ≠ []) :
    c.fullName (first ++ ' ' :: last) = c.first first ++ ' ' :: c.last last ↔
      OneWordEach first last := by
  constructor
  · intro h
    have hparts : words (c.fullName (first ++ ' ' :: last)) = [c.first first, c.last last] := by
      rw [h, words_append_cons _ _ rfl,
        words_of_forall (c.isWord_first first).ne_nil (c.isWord_first first).not_space,
        words_of_forall (c.isWord_last last).ne_nil (c.isWord_last last).not_space]
      rfl
    cases hsuffix : householdSuffix (strip (first ++ ' ' :: last)) with
    | some parts =>
        obtain ⟨family, suffix⟩ := parts
        obtain ⟨word, hhousehold, hwords⟩ := words_household_name (c := c) hsuffix
        rw [hwords] at hparts
        obtain ⟨-, hword⟩ := List.cons.inj hparts
        rw [(List.cons.inj hword).1, c.not_household_last last] at hhousehold
        cases hhousehold
    | none =>
        have hlength := length_words_fullName (c := c) hsuffix
        rw [hparts, words_whole, List.length_append] at hlength
        simp only [List.length_cons, List.length_nil] at hlength
        have hone := List.length_pos_iff.mpr hfirst
        have hone' := List.length_pos_iff.mpr hlast
        refine ⟨by omega, by omega, fun l hl => ?_⟩
        obtain ⟨f, hf⟩ := List.length_eq_one_iff.mp (show (words first).length = 1 by omega)
        obtain ⟨l', hl'⟩ := List.length_eq_one_iff.mp (show (words last).length = 1 by omega)
        rw [hl', List.mem_singleton] at hl
        rw [hl]
        exact (householdSuffix_whole hf hl').mp hsuffix
  · intro h
    obtain ⟨f, hf⟩ := List.length_eq_one_iff.mp h.firstLength
    obtain ⟨l, hl⟩ := List.length_eq_one_iff.mp h.lastLength
    have hwhole : words (first ++ ' ' :: last) = [f, l] := by
      rw [words_whole, hf, hl]
      rfl
    have hnone := (householdSuffix_whole hf hl).mpr
      (h.not_household l (hl ▸ List.mem_singleton_self l))
    have hword : IsWord f := isWord_of_mem_words (hf ▸ List.mem_singleton_self f)
    have hword' : IsWord l := isWord_of_mem_words (hl ▸ List.mem_singleton_self l)
    have hfirstName : c.first f = c.first first :=
      Chooser.pick_congr (by rw [words_of_forall hword.ne_nil hword.not_space, hf]) _
    have hlastName : c.last l = c.last last :=
      Chooser.pick_congr (by rw [words_of_forall hword'.ne_nil hword'.not_space, hl]) _
    rw [Chooser.fullName, hnone]
    simp only [hwhole, List.map_cons, List.map_nil]
    rw [joined_cons _ (List.cons_ne_nil _ _), joined_singleton, hfirstName, hlastName]

/-- What begins or ends in white space is no pseudonym of a whole name. -/
theorem blank_nil : Blank [] :=
  List.forall_mem_nil _

theorem fullName_ne_padded (before after : List Char) {word : List Char} (hv : words v ≠ [])
    (hbefore : Blank before) (hafter : Blank after) (hword : IsWord word)
    (hne : before ++ after ≠ []) : c.fullName v ≠ before ++ (word ++ after) := by
  intro h
  have hstrip : strip (c.fullName v) = word := by
    rw [h]
    exact hword.trimmed.strip_eq hbefore hafter
  have hself := (trimmed_fullName (c := c) hv).strip_eq blank_nil blank_nil
  rw [List.nil_append, List.append_nil, hstrip] at hself
  have hlength := congrArg List.length (hself.trans h)
  simp only [List.length_append] at hlength
  refine hne (List.length_eq_zero_iff.mp ?_)
  rw [List.length_append]
  omega

theorem blank_iff_words : Blank s ↔ words s = [] :=
  ⟨words_of_blank, isSpace_of_words_eq_nil⟩

theorem Chooser.agrees_iff_toList {first last : String}
    (h : ¬ Blank (first.toList ++ ' ' :: last.toList)) :
    c.Agrees first last ↔ c.fullName (first.toList ++ ' ' :: last.toList) =
      (pseudonymise c .first first).toList ++ ' ' :: (pseudonymise c .last last).toList := by
  have hwhole : (first ++ " " ++ last).toList = first.toList ++ ' ' :: last.toList := by
    simp
  rw [← hwhole] at h ⊢
  rw [Chooser.Agrees, ← String.toList_inj, toList_pseudonymise h]
  simp [Chooser.generator]

/-- The pseudonym of a whole name is the pseudonyms of its two parts exactly where both parts are
blank, or each is one word and the second no suffix of a household. -/
theorem names_agree_iff (c : Chooser) (first last : String) :
    c.Agrees first last ↔
      Blank first.toList ∧ Blank last.toList ∨ OneWordEach first.toList last.toList := by
  have hwords := words_whole first.toList last.toList
  have hspace : Blank [' '] := by simp [Blank, isSpace]
  by_cases hfirst : Blank first.toList
  · have hnoWord : ¬ OneWordEach first.toList last.toList := by
      intro h
      have hone := h.firstLength
      rw [words_of_blank hfirst] at hone
      cases hone
    by_cases hlast : Blank last.toList
    · have hall : Blank (first ++ " " ++ last).toList := by
        rw [blank_iff_words]
        simpa [words_of_blank hfirst, words_of_blank hlast] using hwords
      rw [Chooser.Agrees, pseudonymise_of_blank hall, pseudonymise_of_blank hfirst,
        pseudonymise_of_blank hlast]
      simp [hfirst, hlast]
    · have hne : words (first.toList ++ ' ' :: last.toList) ≠ [] := by
        rw [hwords, words_of_blank hfirst, List.nil_append]
        exact mt blank_iff_words.mpr hlast
      have hnot := fullName_ne_padded (c := c) (first.toList ++ [' ']) [] hne
        (fun d hd => (List.mem_append.mp hd).elim (hfirst d) (hspace d)) blank_nil
        (c.isWord_last last.toList) (by simp)
      rw [c.agrees_iff_toList (mt blank_iff_words.mp hne), pseudonymise_of_blank hfirst,
        toList_pseudonymise hlast]
      refine iff_of_false (fun h => hnot ?_) (by simp [hlast, hnoWord])
      rw [h, List.append_nil, List.append_assoc]
      rfl
  · by_cases hlast : Blank last.toList
    · have hnoWord : ¬ OneWordEach first.toList last.toList := by
        intro h
        have hone := h.lastLength
        rw [words_of_blank hlast] at hone
        cases hone
      have hne : words (first.toList ++ ' ' :: last.toList) ≠ [] := by
        rw [hwords, words_of_blank hlast, List.append_nil]
        exact mt blank_iff_words.mpr hfirst
      have hnot := fullName_ne_padded (c := c) [] (' ' :: last.toList) hne blank_nil
        (List.forall_mem_cons.mpr ⟨rfl, hlast⟩) (c.isWord_first first.toList) (by simp)
      rw [c.agrees_iff_toList (mt blank_iff_words.mp hne), pseudonymise_of_blank hlast,
        toList_pseudonymise hfirst]
      exact iff_of_false hnot (by simp [hfirst, hnoWord])
    · have hne := mt blank_iff_words.mpr hfirst
      rw [c.agrees_iff_toList, toList_pseudonymise hfirst, toList_pseudonymise hlast]
      · rw [Chooser.generator, Chooser.generator,
          fullName_eq_iff hne (mt blank_iff_words.mpr hlast)]
        simp [hfirst]
      · rw [blank_iff_words, hwords, List.append_eq_nil_iff]
        exact fun h => hne h.1

/-- A vocabulary of one name. -/
def onlyName (name : List Char) (h : IsWord name) (hplain : isHousehold name = false) : Pool where
  names := [name]
  nonempty := List.cons_ne_nil name []
  isWord := by simpa using h
  not_household := by simpa using hplain

def marcusEllery : Chooser where
  mac _ := 0
  casefold := List.map Char.toLower
  firstNames := onlyName "Marcus".toList ⟨by decide, forall_of_all (by decide)⟩ (by decide)
  lastNames := onlyName "Ellery".toList ⟨by decide, forall_of_all (by decide)⟩ (by decide)
  nicknames := onlyName "Marc".toList ⟨by decide, forall_of_all (by decide)⟩ (by decide)

/-- A first name of two words is split once it stands in the whole name. -/
theorem names_not_agree : ¬ ∀ (c : Chooser) (first last : String), c.Agrees first last := by
  intro h
  have hwhole : pseudonymise marcusEllery .fullName "Mary Ann Reed" = "Marcus Ellery Ellery" := by
    decide +kernel
  have hparts : pseudonymise marcusEllery .first "Mary Ann" ++ " " ++
      pseudonymise marcusEllery .last "Reed" = "Marcus Ellery" := by
    decide +kernel
  have hagrees := h marcusEllery "Mary Ann" "Reed"
  rw [Chooser.Agrees, hparts] at hagrees
  exact absurd (hwhole.symm.trans hagrees) (by decide)

end PcoMirror.Pseudonym
