import Mathlib.Data.List.Infix
import PcoMirror.Lib.Words
import PcoMirror.Verification.Serving.Edges

/-! Which people the searches by name find, as the filter widens and as the needle is typed. -/

namespace PcoMirror

open Text (joined words Leads Typed)

variable {u : Unicode} {site : Site} {db : Db} {held : Held} {search : Search}
variable {needle longer haystack : String}

/-! ## Lower case -/

/-- What is relied on of Python's `str.lower` and `str.isdigit`. -/
structure Unicode.Lawful (u : Unicode) : Prop where
  lower_lower : ∀ s, u.lower (u.lower s) = u.lower s
  lower_eq_nil : ∀ s, u.lower s = [] ↔ s = []
  /-- White space has no case, and is no letter's lower case. -/
  mem_lower : ∀ s c, Text.isSpace c = true → (c ∈ u.lower s ↔ c ∈ s)
  isDigit_space : ∀ c, Text.isSpace c = true → u.isDigit c = false

/-- Lower case that does not look at what stands around a character. -/
structure Unicode.CharByChar (u : Unicode) : Prop extends u.Lawful where
  lower_append : ∀ s t, u.lower (s ++ t) = u.lower s ++ u.lower t
  lower_space : ∀ c, Text.isSpace c = true → u.lower [c] = [c]

namespace Unicode

theorem toList_normText (u : Unicode) (s : String) :
    (u.normText s).toList = u.lower (joined (words s.toList)) :=
  String.toList_ofList

theorem Lawful.isWord (hu : u.Lawful) {w : List Char} (hw : Text.IsWord w) :
    Text.IsWord (u.lower w) where
  ne_nil h := hw.ne_nil ((hu.lower_eq_nil w).mp h)
  not_space c hc := by
    by_contra hspace
    rw [Bool.not_eq_false] at hspace
    have hin : c ∈ w := (hu.mem_lower w c hspace).mp hc
    rw [hw.not_space c hin] at hspace
    cases hspace

theorem Lawful.normText_eq_empty (hu : u.Lawful) :
    u.normText needle = "" ↔ words needle.toList = [] := by
  rw [← String.toList_inj, toList_normText, String.toList_empty, hu.lower_eq_nil]
  refine ⟨fun h => ?_, fun h => by rw [h]; rfl⟩
  by_contra hne
  have hfound := Text.words_joined fun w (hw : w ∈ words needle.toList) => Text.isWord_of_mem_words hw
  rw [h] at hfound
  exact hne hfound.symm

/-- A needle that is blank has no digits. -/
theorem Lawful.normDigits_eq_nil (hu : u.Lawful) (h : u.normText needle = "") :
    u.normDigits needle = [] := by
  rw [hu.normText_eq_empty] at h
  rw [normDigits, List.filter_eq_nil_iff]
  intro c hc
  rw [hu.isDigit_space c (Text.isSpace_of_words_eq_nil h c hc)]
  exact Bool.false_ne_true

/-- A needle that normalises to text without a space is one word, and normalised as it is. -/
theorem Lawful.words_normText (hu : u.Lawful) (hne : u.normText needle ≠ "")
    (hsingle : ' ' ∉ (u.normText needle).toList) :
    words (u.normText (u.normText needle)).toList = [(u.normText needle).toList] := by
  have hspace : Text.isSpace ' ' = true := by decide
  rw [toList_normText, hu.mem_lower _ _ hspace] at hsingle
  obtain ⟨w, hwords⟩ := Text.eq_singleton_of_not_mem_joined (mt hu.normText_eq_empty.mpr hne) hsingle
  have hword : Text.IsWord w := Text.isWord_of_mem_words (hwords ▸ List.mem_singleton_self w)
  have hlower := hu.isWord hword
  have htext : (u.normText needle).toList = u.lower w := by
    rw [toList_normText, hwords, Text.joined_singleton]
  rw [toList_normText, htext, Text.words_of_forall hlower.ne_nil hlower.not_space,
    Text.joined_singleton, hu.lower_lower, Text.words_of_forall hlower.ne_nil hlower.not_space]

theorem nameMatches_iff : u.nameMatches haystack needle = true ↔
    Leads (words (u.normText needle).toList) (words (u.normText haystack).toList) :=
  Text.leads_iff.symm

/-- A single word that begins a name is found inside it. -/
theorem Lawful.infix_of_nameMatches (hu : u.Lawful) (hne : u.normText needle ≠ "")
    (hsingle : ' ' ∉ (u.normText needle).toList)
    (h : u.nameMatches haystack (u.normText needle) = true) :
    (u.normText needle).toList <:+: (u.normText haystack).toList := by
  rw [nameMatches_iff, hu.words_normText hne hsingle] at h
  cases hwords : words (u.normText haystack).toList with
  | nil =>
      rw [hwords] at h
      cases h
  | cons first rest =>
      rw [hwords] at h
      cases h with
      | cons hstarts _ =>
          have hfirst := Text.infix_of_mem_words (hwords ▸ List.mem_cons_self)
          exact hstarts.isInfix.trans hfirst

end Unicode

theorem instr_pos {s sub : String} : 0 < Sql.instr s sub ↔ sub.toList <:+: s.toList := by
  rw [Sql.instr, Sql.instrChars]
  cases hfind : s.toList.tails.findIdx? (sub.toList.isPrefixOf ·) with
  | none =>
      rw [List.findIdx?_eq_none_iff] at hfind
      refine iff_of_false (lt_irrefl 0) fun hinfix => ?_
      obtain ⟨rest, hstarts, hsuffix⟩ := List.infix_iff_prefix_suffix.mp hinfix
      have hno := hfind rest ((List.mem_tails _ _).mpr hsuffix)
      rw [List.isPrefixOf_iff_prefix.mpr hstarts] at hno
      cases hno
  | some i =>
      obtain ⟨hi, hstarts, -⟩ := List.findIdx?_eq_some_iff_getElem.mp hfind
      refine iff_of_true (Nat.succ_pos i) ?_
      have hsuffix := (List.mem_tails _ _).mp (List.getElem_mem hi)
      exact (List.isPrefixOf_iff_prefix.mp hstarts).isInfix.trans hsuffix.isInfix

theorem contains_iff {value : Option String} {text : String} :
    u.matching .contains value text = true ↔
      ∃ hay, value = some hay ∧ text.toList <:+: (u.normText hay).toList := by
  simp [Unicode.matching, Option.any_eq_true, instr_pos]

theorem words_iff {value : Option String} {text : String} :
    u.matching .words value text = true ↔ ∃ hay, value = some hay ∧ u.nameMatches hay text = true := by
  simp [Unicode.matching, Option.any_eq_true]

/-! ## The filters -/

/-- The filter keeps the person: its clause holds of the row, where the needle makes one. -/
def Finds (site : Site) (u : Unicode) (db : Db) (held : Held) (filter needle : String) : Prop :=
  ∃ search, Res.person.surface.searchFilters.lookup filter = some search ∧
    ∀ clause, searchClause u search needle = some clause →
      clause.holds site u db .person held = .ok true

/-- `search_name` -/
def searchName : Search :=
  { names := personNames }

/-- `search_name_or_email` -/
def searchNameOrEmail : Search :=
  { names := personNames, singleTokenContains := true, children := [emailArm] }

/-- `search_name_or_email_or_phone_number` -/
def searchNameOrEmailOrPhone : Search :=
  { names := personNames, singleTokenContains := true, children := [emailArm, phoneArm] }

/-- A blank needle keeps everybody, and another one those that an arm finds. -/
theorem finds_iff (hu : u.Lawful) {filter : String}
    (hfilter : Res.person.surface.searchFilters.lookup filter = some search)
    (hnames : search.names ≠ []) : Finds site u db held filter needle ↔
      (u.normText needle ≠ "" → search.holds u db .person held needle = true) := by
  have hone : Finds site u db held filter needle ↔ ∀ clause,
      searchClause u search needle = some clause →
        clause.holds site u db .person held = .ok true := by
    simp [Finds, hfilter]
  rw [hone, searchClause]
  by_cases hblank : u.normText needle = ""
  · have hprobes : ¬ ((search.children.map fun arm =>
        if arm.mode.ofDigits then u.normDigits needle else (u.normText needle).toList).any
          (!·.isEmpty)) = true := by
      rw [List.any_map, List.any_eq_true]
      rintro ⟨arm, -, harm⟩
      cases hdigits : arm.mode.ofDigits <;>
        simp [hblank, hu.normDigits_eq_nil hblank] at harm
    simp only [hblank, ne_eq, not_true_eq_false, false_and, false_or] at hprobes ⊢
    rw [if_neg hprobes]
    simp
  · rw [if_pos (.inl ⟨hblank, hnames⟩)]
    simp [hblank, Clause.holds]

theorem lookup_searchName :
    Res.person.surface.searchFilters.lookup "search_name" = some searchName := rfl

theorem lookup_searchNameOrEmail :
    Res.person.surface.searchFilters.lookup "search_name_or_email" = some searchNameOrEmail := rfl

theorem lookup_searchNameOrEmailOrPhone :
    Res.person.surface.searchFilters.lookup "search_name_or_email_or_phone_number" =
      some searchNameOrEmailOrPhone := rfl

/-- How a search matches names: inside them, or by their leading words. -/
def Search.mode (search : Search) (text : String) : Matching :=
  if search.singleTokenContains && !text.contains ' ' then .contains else .words

theorem Search.holds_iff (hne : u.normText needle ≠ "") :
    search.holds u db .person held needle = true ↔
      (∃ name ∈ search.names, u.matching (search.mode (u.normText needle))
        (name.read .person held) (u.normText needle) = true) ∨
      ∃ arm ∈ search.children, arm.holds u db held.1 needle = true := by
  simp [Search.holds, Search.mode, hne]

theorem Search.mode_of_space {text : String} (h : ' ' ∈ text.toList) : search.mode text = .words := by
  simp [Search.mode, h]

theorem Search.mode_of_single {text : String} (hcontains : search.singleTokenContains = true)
    (h : ' ' ∉ text.toList) : search.mode text = .contains := by
  simp [Search.mode, hcontains, h]

/-- A name that a needle finds by its words is found too where one word is searched for inside
names. -/
theorem Unicode.Lawful.matching_mode (hu : u.Lawful) (hne : u.normText needle ≠ "")
    (hcontains : search.singleTokenContains = true) {value : Option String}
    (h : u.matching .words value (u.normText needle) = true) :
    u.matching (search.mode (u.normText needle)) value (u.normText needle) = true := by
  by_cases hspace : ' ' ∈ (u.normText needle).toList
  · rwa [Search.mode_of_space hspace]
  · rw [Search.mode_of_single hcontains hspace]
    obtain ⟨hay, hread, hmatch⟩ := words_iff.mp h
    exact contains_iff.mpr ⟨hay, hread, hu.infix_of_nameMatches hne hspace hmatch⟩

/-! ## From filter to filter -/

/-- Whom `search_name` finds, `search_name_or_email` does, and whom that one finds,
`search_name_or_email_or_phone_number` does. -/
theorem search_chain (u : Unicode) (hu : u.Lawful) (site : Site) (db : Db) (held : Held)
    (needle : String) :
    (Finds site u db held "search_name" needle → Finds site u db held "search_name_or_email" needle) ∧
      (Finds site u db held "search_name_or_email" needle →
        Finds site u db held "search_name_or_email_or_phone_number" needle) := by
  rw [finds_iff hu lookup_searchName nofun, finds_iff hu lookup_searchNameOrEmail nofun,
    finds_iff hu lookup_searchNameOrEmailOrPhone nofun]
  constructor
  · intro h hne
    rcases (Search.holds_iff hne).mp (h hne) with ⟨name, hname, hmatch⟩ | ⟨arm, harm, -⟩
    · exact (Search.holds_iff hne).mpr (.inl ⟨name, hname, hu.matching_mode hne rfl hmatch⟩)
    · cases harm
  · intro h hne
    rcases (Search.holds_iff hne).mp (h hne) with hname | ⟨arm, harm, hmatch⟩
    · exact (Search.holds_iff hne).mpr (.inl hname)
    · exact (Search.holds_iff hne).mpr (.inr ⟨arm, List.mem_append_left [phoneArm] harm, hmatch⟩)

theorem isDigit_of_isSpace {c : Char} (h : Text.isSpace c = true) : c.isDigit = false := by
  rw [Bool.eq_false_iff]
  intro hdigit
  simp only [Char.isDigit, Bool.and_eq_true, decide_eq_true_eq, ge_iff_le, UInt32.le_iff_toNat_le]
    at hdigit
  simp only [Text.isSpace, Bool.or_eq_true, Bool.and_eq_true, decide_eq_true_eq] at h
  obtain ⟨hlow, hhigh⟩ := hdigit
  change 48 ≤ c.toNat at hlow
  change c.toNat ≤ 57 at hhigh
  omega

/-- Text that is in lower case as it is. -/
theorem plainUnicode_charByChar : plainUnicode.CharByChar where
  lower_lower _ := rfl
  lower_eq_nil _ := Iff.rfl
  mem_lower _ _ _ := Iff.rfl
  isDigit_space _ := isDigit_of_isSpace
  lower_append _ _ := rfl
  lower_space _ _ := rfl

def adaByron : Held :=
  ("1", .fresh (.obj [("type", .str "Person"), ("id", .str "1"), ("attributes", .obj [
    ("first_name", .str "ada"), ("last_name", .str "byron")])])
    ⟨.reconcile, "2025-11-10", "2026-07-01T00:00:00Z"⟩)

theorem search_chain_ada :
    Finds plainSite plainUnicode .empty adaByron "search_name_or_email" "ada" ∧
      Finds plainSite plainUnicode .empty adaByron "search_name_or_email_or_phone_number" "ada" := by
  have hchain := search_chain plainUnicode plainUnicode_charByChar.toLawful plainSite .empty adaByron "ada"
  have hname : Finds plainSite plainUnicode .empty adaByron "search_name" "ada" :=
    (finds_iff plainUnicode_charByChar.toLawful lookup_searchName nofun).mpr fun _ => by
      decide +kernel
  exact ⟨hchain.1 hname, hchain.2 (hchain.1 hname)⟩

/-! ## From needle to needle -/

namespace Unicode.CharByChar

theorem lower_prefix (hu : u.CharByChar) {s t : List Char} (h : s <+: t) :
    u.lower s <+: u.lower t := by
  obtain ⟨rest, rfl⟩ := h
  rw [hu.lower_append]
  exact List.prefix_append _ _

theorem lower_joined (hu : u.CharByChar) (ws : List (List Char)) :
    u.lower (joined ws) = joined (ws.map u.lower) := by
  induction ws with
  | nil => exact (hu.lower_eq_nil []).mpr rfl
  | cons w ws ih =>
      cases ws with
      | nil => rw [List.map_singleton, Text.joined_singleton, Text.joined_singleton]
      | cons w' ws =>
          have hcons : joined (w' :: ws) = [] ++ joined (w' :: ws) := rfl
          rw [Text.joined_cons w (List.cons_ne_nil w' ws), List.map_cons,
            Text.joined_cons (u.lower w) (by simp), ← ih, hu.lower_append,
            ← List.singleton_append, hu.lower_append, hu.lower_space ' ' (by decide)]
          rfl

/-- The words a needle is normalised to. -/
theorem words_normText (hu : u.CharByChar) (needle : String) :
    words (u.normText needle).toList = (words needle.toList).map u.lower := by
  rw [toList_normText, hu.lower_joined, Text.words_joined]
  intro w hw
  obtain ⟨w', hw', rfl⟩ := List.mem_map.mp hw
  exact hu.isWord (Text.isWord_of_mem_words hw')

theorem words_normText_normText (hu : u.CharByChar) (needle : String) :
    words (u.normText (u.normText needle)).toList = (words needle.toList).map u.lower := by
  rw [hu.words_normText, hu.words_normText, List.map_map]
  exact List.map_congr_left fun w _ => hu.lower_lower w

/-- What a needle is normalised to goes on as the needle does. -/
theorem normText_prefix (hu : u.CharByChar) (h : needle.toList <+: longer.toList) :
    (u.normText needle).toList <+: (u.normText longer).toList := by
  rw [toList_normText, toList_normText]
  exact hu.lower_prefix (Text.typed_words h).joined_of_typed

theorem nameMatches_of_longer (hu : u.CharByChar) (h : needle.toList <+: longer.toList)
    (hmatch : u.nameMatches haystack (u.normText longer) = true) :
    u.nameMatches haystack (u.normText needle) = true := by
  rw [nameMatches_iff, hu.words_normText_normText] at hmatch ⊢
  exact ((Text.typed_words h).map fun _ _ => hu.lower_prefix).leads.trans hmatch

end Unicode.CharByChar

/-- An arm that looks inside a column finds the shorter text where it finds the longer one. -/
theorem SearchChild.holds_of_longer (hu : u.CharByChar) (h : needle.toList <+: longer.toList)
    (hne : u.normText needle ≠ "") {id : String} (hholds : emailArm.holds u db id longer = true) :
    emailArm.holds u db id needle = true := by
  have htext : emailArm.mode.ofDigits = false := rfl
  simp only [SearchChild.holds, htext, Bool.false_eq_true, if_false, Bool.and_eq_true,
    decide_eq_true_eq, List.any_eq_true] at hholds ⊢
  obtain ⟨-, child, hchild, hmatch⟩ := hholds
  obtain ⟨hay, hread, hinfix⟩ := contains_iff.mp hmatch
  exact ⟨hne, child, hchild,
    contains_iff.mpr ⟨hay, hread, (hu.normText_prefix h).isInfix.trans hinfix⟩⟩

/-- Whoever is found by a needle was found before its last characters were typed. -/
theorem typing_narrows (u : Unicode) (hu : u.CharByChar) (site : Site) (db : Db) (held : Held)
    (needle longer : String) (h : needle.toList <+: longer.toList)
    (hne : u.normText needle ≠ "") :
    (Finds site u db held "search_name" longer → Finds site u db held "search_name" needle) ∧
      (Finds site u db held "search_name_or_email" longer →
        Finds site u db held "search_name_or_email" needle) := by
  have hlonger : u.normText longer ≠ "" := by
    rw [Ne, hu.normText_eq_empty] at hne ⊢
    exact (Text.typed_words h).ne_nil hne
  have hwords : ∀ value, u.matching .words value (u.normText longer) = true →
      u.matching .words value (u.normText needle) = true := by
    intro value hmatch
    obtain ⟨hay, hread, hmatch⟩ := words_iff.mp hmatch
    exact words_iff.mpr ⟨hay, hread, hu.nameMatches_of_longer h hmatch⟩
  rw [finds_iff hu.toLawful lookup_searchName nofun, finds_iff hu.toLawful lookup_searchName nofun,
    finds_iff hu.toLawful lookup_searchNameOrEmail nofun,
    finds_iff hu.toLawful lookup_searchNameOrEmail nofun]
  constructor
  · intro hfinds _
    rcases (Search.holds_iff hlonger).mp (hfinds hlonger) with ⟨name, hname, hmatch⟩ | ⟨arm, harm, -⟩
    · exact (Search.holds_iff hne).mpr (.inl ⟨name, hname, hwords _ hmatch⟩)
    · cases harm
  · intro hfinds _
    rcases (Search.holds_iff hlonger).mp (hfinds hlonger) with ⟨name, hname, hmatch⟩ | ⟨arm, harm, hmatch⟩
    · refine (Search.holds_iff hne).mpr (.inl ⟨name, hname, ?_⟩)
      by_cases hspace : ' ' ∈ (u.normText longer).toList
      · -- The longer needle matches by words, and the shorter one by words or as one word.
        rw [Search.mode_of_space hspace] at hmatch
        exact hu.matching_mode hne rfl (hwords _ hmatch)
      · have hsingle : ' ' ∉ (u.normText needle).toList := fun hmem =>
          hspace ((hu.normText_prefix h).subset hmem)
        rw [Search.mode_of_single rfl hspace] at hmatch
        rw [Search.mode_of_single rfl hsingle]
        obtain ⟨hay, hread, hinfix⟩ := contains_iff.mp hmatch
        exact contains_iff.mpr ⟨hay, hread, (hu.normText_prefix h).isInfix.trans hinfix⟩
    · obtain rfl := List.mem_singleton.mp harm
      exact (Search.holds_iff hne).mpr
        (.inr ⟨emailArm, harm, SearchChild.holds_of_longer hu h hne hmatch⟩)

theorem typing_narrows_ada :
    Finds plainSite plainUnicode .empty adaByron "search_name" "ada b" ∧
      Finds plainSite plainUnicode .empty adaByron "search_name_or_email" "ada" := by
  have hlaw := plainUnicode_charByChar.toLawful
  have hname : Finds plainSite plainUnicode .empty adaByron "search_name" "ada by" :=
    (finds_iff hlaw lookup_searchName nofun).mpr fun _ => by decide +kernel
  have hemail : Finds plainSite plainUnicode .empty adaByron "search_name_or_email" "ada by" :=
    (finds_iff hlaw lookup_searchNameOrEmail nofun).mpr fun hne => (Search.holds_iff hne).mpr
      (.inl ⟨.fullName, by decide, by
        rw [Search.mode_of_space (by decide +kernel)]
        decide +kernel⟩)
  exact ⟨(typing_narrows plainUnicode plainUnicode_charByChar plainSite .empty adaByron "ada b" "ada by"
      (by decide) (by decide +kernel)).1 hname,
    (typing_narrows plainUnicode plainUnicode_charByChar plainSite .empty adaByron "ada" "ada by"
      (by decide) (by decide +kernel)).2 hemail⟩

end PcoMirror
