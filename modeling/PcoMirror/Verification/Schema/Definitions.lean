import Mathlib.Data.List.DropRight
import PcoMirror.Model.Schema.Columns

/-! What is read of a table's columns in the text SQLite keeps of it. -/

namespace PcoMirror.Schema

/-! ## Lines -/

theorem splitOnP_lines {p : Char → Bool} {c : Char} (hc : p c = true) {lines : List (List Char)}
    (hlines : ∀ line ∈ lines, ∀ d ∈ line, p d = false) (rest : List Char) :
    (lines.flatMap (· ++ [c]) ++ rest).splitOnP p = lines ++ rest.splitOnP p := by
  induction lines with
  | nil => rfl
  | cons line lines ih =>
      have hline := hlines line (by simp)
      have hrest := ih fun other hother => hlines other (by simp [hother])
      rw [List.flatMap_cons, List.append_assoc, List.append_assoc, List.singleton_append,
        List.splitOnP_append_cons_of_forall_mem hline _ hc, hrest, List.cons_append]

/-- What a name or a type is written with. -/
theorem not_space_of_word {c : Char} (h : c.isAlpha = true ∨ c.isDigit = true ∨ c = '_') :
    Text.isSpace c = false ∧ isLineBreak c = false ∧ c ≠ ',' := by
  have hrange : 65 ≤ c.toNat ∧ c.toNat ≤ 122 ∨ 48 ≤ c.toNat ∧ c.toNat ≤ 57 := by
    rcases h with h | h | rfl
    · simp only [Char.isAlpha, Char.isUpper, Char.isLower, ge_iff_le, Bool.or_eq_true,
        Bool.and_eq_true, decide_eq_true_eq, UInt32.le_iff_toNat_le] at h
      change 65 ≤ c.toNat ∧ c.toNat ≤ 90 ∨ 97 ≤ c.toNat ∧ c.toNat ≤ 122 at h
      omega
    · simp only [Char.isDigit, ge_iff_le, Bool.and_eq_true, decide_eq_true_eq,
        UInt32.le_iff_toNat_le] at h
      exact .inr h
    · decide
  refine ⟨?_, ?_, ?_⟩
  · simp [Text.isSpace]
    omega
  · simp [isLineBreak]
    omega
  · rintro rfl
    revert hrange
    decide

theorem not_space_of_isName {s : String} (h : isName s = true) {c : Char} (hc : c ∈ s.toList) :
    Text.isSpace c = false ∧ isLineBreak c = false ∧ c ≠ ',' := by
  rw [isName, Bool.and_eq_true, List.all_eq_true] at h
  have hchar := h.2 c hc
  simp only [Bool.or_eq_true, decide_eq_true_eq] at hchar
  exact not_space_of_word (by simp only [Char.isAlpha, Bool.or_eq_true]; tauto)

theorem not_space_of_isType {s : String} (h : isType s = true) {c : Char} (hc : c ∈ s.toList) :
    Text.isSpace c = false ∧ isLineBreak c = false ∧ c ≠ ',' := by
  rw [isType, Bool.and_eq_true, List.all_eq_true] at h
  exact not_space_of_word (.inl (h.2 c hc))

theorem rstrip_append_singleton {p : Char → Bool} (s : List Char) {c : Char} :
    Text.rstrip p (s ++ [c]) = if p c then Text.rstrip p s else s ++ [c] :=
  List.rdropWhile_concat p s c

/-- A text that begins with a word. -/
theorem splitOnce_word {word rest : List Char} {c : Char} (hword : word ≠ [])
    (hspace : ∀ d ∈ word, Text.isSpace d = false) (hc : Text.isSpace c = false) :
    splitOnce (word ++ ' ' :: c :: rest) = some (word, c :: rest) := by
  obtain ⟨d, word, rfl⟩ := List.exists_cons_of_ne_nil hword
  have hd := hspace d (by simp)
  have htake : ((d :: word) ++ ' ' :: c :: rest).takeWhile (!Text.isSpace ·) = d :: word := by
    rw [List.takeWhile_append_of_pos fun e he => by simp [hspace e he]]
    simp [show Text.isSpace ' ' = true by decide]
  have hstart : ((d :: word) ++ ' ' :: c :: rest).dropWhile Text.isSpace =
      (d :: word) ++ ' ' :: c :: rest := by
    rw [List.cons_append, List.dropWhile_cons_of_neg (by simp [hd])]
  have hdrop : (((d :: word) ++ ' ' :: c :: rest).drop (d :: word).length).dropWhile Text.isSpace =
      c :: rest := by
    rw [List.drop_left, List.dropWhile_cons_of_pos (by decide),
      List.dropWhile_cons_of_neg (by simp [hc])]
  simp only [splitOnce, hstart, htake, hdrop]
  simp

namespace Projected

variable (col : Projected)

theorem definition_ne_nil : ∃ c rest, col.definition = c :: rest ∧ Text.isSpace c = false := by
  have htype := col.sqltype_ok
  rw [isType, Bool.and_eq_true, Bool.not_eq_true', List.isEmpty_eq_false_iff] at htype
  obtain ⟨c, rest, hlist⟩ := List.exists_cons_of_ne_nil htype.1
  refine ⟨c, _, by rw [definition, hlist, List.cons_append], ?_⟩
  exact (not_space_of_isType col.sqltype_ok (by simp [hlist])).1

theorem definition_end : ∃ init c, col.definition = init ++ [c] ∧ c ≠ ',' := by
  cases hbody : col.body with
  | none =>
      have htype := col.sqltype_ok
      rw [isType, Bool.and_eq_true, Bool.not_eq_true', List.isEmpty_eq_false_iff] at htype
      refine ⟨col.sqltype.toList.dropLast, col.sqltype.toList.getLast htype.1, ?_, ?_⟩
      · rw [definition, hbody, List.append_nil, List.dropLast_append_getLast]
      · exact (not_space_of_isType col.sqltype_ok (List.getLast_mem htype.1)).2.2
  | some body =>
      cases hvirtual : col.virtual with
      | false =>
          refine ⟨col.sqltype.toList ++ (" GENERATED ALWAYS AS ".toList ++ body.toList ++
            " STORE".toList), 'D', ?_, by decide⟩
          simp [definition, hbody, hvirtual]
      | true =>
          refine ⟨col.sqltype.toList ++ (" GENERATED ALWAYS AS ".toList ++ body.toList ++
            " VIRTUA".toList), 'L', ?_, by decide⟩
          simp [definition, hbody, hvirtual]

theorem definition_oneLine : ∀ c ∈ col.definition, isLineBreak c = false := by
  intro c hc
  rw [definition, List.mem_append] at hc
  rcases hc with hc | hc
  · exact (not_space_of_isType col.sqltype_ok hc).2.1
  · cases hbody : col.body with
    | none => simp [hbody] at hc
    | some body =>
        simp only [hbody, List.mem_append] at hc
        rcases hc with (hc | hc) | hc
        · exact Text.forall_of_all (s := " GENERATED ALWAYS AS ".toList) (by decide +kernel) c hc
        · exact (col.body_ok body hbody).2 c hc
        · split at hc
          · exact Text.forall_of_all (s := " VIRTUAL".toList) (by decide +kernel) c hc
          · exact Text.forall_of_all (s := " STORED".toList) (by decide +kernel) c hc

theorem text_oneLine : ∀ c ∈ col.text, isLineBreak c = false := by
  intro c hc
  rw [text, List.mem_append, List.mem_cons] at hc
  rcases hc with hc | rfl | hc
  · exact (not_space_of_isName col.name_ok hc).2.1
  · decide
  · exact col.definition_oneLine c hc

theorem line_oneLine : ∀ c ∈ col.line, isLineBreak c = false := by
  intro c hc
  simp only [line, List.mem_append] at hc
  rcases hc with (hc | hc) | hc
  · exact Text.forall_of_all (s := "  ".toList) (by decide +kernel) c hc
  · exact col.text_oneLine c hc
  · exact Text.forall_of_all (s := ",".toList) (by decide +kernel) c hc

/-- The line of a column as `CREATE TABLE` has it is read back. -/
theorem lineDefinition_line :
    lineDefinition col.line = some (col.name.toList, col.definition) := by
  have hname := col.name_ok
  rw [isName, Bool.and_eq_true, Bool.not_eq_true', List.isEmpty_eq_false_iff] at hname
  obtain ⟨d, word, hword⟩ := List.exists_cons_of_ne_nil hname.1
  have hd := (not_space_of_isName col.name_ok (c := d) (by simp [hword])).1
  obtain ⟨init, last, hend, hlast⟩ := col.definition_end
  have hstrip : Text.strip col.line = col.text ++ [','] := by
    have hdrop : col.line.dropWhile Text.isSpace = col.text ++ [','] := by
      rw [line, text, hword]
      simp [hd, show Text.isSpace ' ' = true by decide]
    rw [Text.strip, hdrop, rstrip_append_singleton, if_neg (by decide)]
  have htext : Text.rstrip (· = ',') (col.text ++ [',']) = col.text := by
    have heq : col.text = (col.name.toList ++ ' ' :: init) ++ [last] := by
      rw [text, hend]
      simp
    rw [rstrip_append_singleton, if_pos (by simp), heq, rstrip_append_singleton,
      if_neg (by simpa using hlast)]
  obtain ⟨c, rest, hdefinition, hc⟩ := col.definition_ne_nil
  rw [lineDefinition, hstrip, htext, text, hdefinition]
  exact splitOnce_word hname.1 (fun e he => (not_space_of_isName col.name_ok he).1) hc

end Projected

/-! ## What the text of a table says -/

/-- A line is read under the word it begins with. -/
theorem lineDefinition_word {word rest : List Char} {last : Char} (hword : word ≠ [])
    (hspace : ∀ c ∈ word, Text.isSpace c = false) (hlast : Text.isSpace last = false)
    (hcomma : last ≠ ',') {entry : List Char × List Char}
    (h : lineDefinition (word ++ ' ' :: rest ++ [last]) = some entry) : entry.1 = word := by
  obtain ⟨c, word, rfl⟩ := List.exists_cons_of_ne_nil hword
  have hstart : ∀ tail, ((c :: word) ++ tail).dropWhile Text.isSpace = (c :: word) ++ tail := by
    intro tail
    rw [List.cons_append, List.dropWhile_cons_of_neg (by simp [hspace c])]
  have htake : ((c :: word) ++ (' ' :: rest ++ [last])).takeWhile (!Text.isSpace ·) = c :: word := by
    rw [List.takeWhile_append_of_pos fun d hd => by simp [hspace d hd]]
    simp [show Text.isSpace ' ' = true by decide]
  have hstrip : Text.strip ((c :: word) ++ ' ' :: rest ++ [last]) =
      (c :: word) ++ ' ' :: rest ++ [last] := by
    rw [Text.strip, List.append_assoc, hstart, ← List.append_assoc, rstrip_append_singleton,
      if_neg (by simp [hlast])]
  rw [lineDefinition, hstrip, rstrip_append_singleton, if_neg (by simp [hcomma]),
    List.append_assoc, splitOnce, hstart, htake] at h
  split at h
  · cases h
  · cases h
    rfl

theorem openingLines_oneLine {table : String} (htable : isName table = true) :
    ∀ line ∈ openingLines table, ∀ c ∈ line, isLineBreak c = false := by
  intro line hline c hc
  simp only [openingLines, List.mem_cons, List.not_mem_nil, or_false] at hline
  rcases hline with rfl | rfl | rfl
  · simp only [List.mem_append] at hc
    rcases hc with (hc | hc) | hc
    · exact Text.forall_of_all (s := "CREATE TABLE ".toList) (by decide +kernel) c hc
    · exact (not_space_of_isName htable hc).2.1
    · exact Text.forall_of_all (s := " (".toList) (by decide +kernel) c hc
  · exact Text.forall_of_all (s := "  pco_id TEXT PRIMARY KEY,".toList) (by decide +kernel) c hc
  · exact Text.forall_of_all (s := "  raw TEXT NOT NULL,".toList) (by decide +kernel) c hc

/-- What a line defines, if it defines a column, is one that every table has. -/
def Shared (line : List Char) : Prop :=
  ∀ entry, lineDefinition line = some entry → isName (String.ofList entry.1) = true →
    String.ofList entry.1 ∈ sharedColumns

theorem shared_openingLines (table : String) : ∀ line ∈ openingLines table, Shared line := by
  intro line hline entry hentry hname
  simp only [openingLines, List.mem_cons, List.not_mem_nil, or_false] at hline
  rcases hline with rfl | rfl | rfl
  · let rest := "TABLE ".toList ++ table.toList ++ " ".toList
    have hline : "CREATE TABLE ".toList ++ table.toList ++ " (".toList =
        "CREATE".toList ++ ' ' :: rest ++ ['('] := by
      simp [rest]
    rw [hline] at hentry
    rw [lineDefinition_word (by decide) (Text.forall_of_all (by decide)) (by decide)
      (by decide) hentry] at hname
    exact absurd hname (by decide)
  · have hread : lineDefinition "  pco_id TEXT PRIMARY KEY,".toList =
        some ("pco_id".toList, "TEXT PRIMARY KEY".toList) := by
      decide +kernel
    rw [hread] at hentry
    cases hentry
    decide
  · have hread : lineDefinition "  raw TEXT NOT NULL,".toList =
        some ("raw".toList, "TEXT NOT NULL".toList) := by
      decide +kernel
    rw [hread] at hentry
    cases hentry
    decide

theorem bookkeeping_read : ∀ line ∈ bookkeeping.map String.toList,
    (∀ c ∈ line, isLineBreak c = false) ∧
      ∀ entry ∈ lineDefinition line, String.ofList entry.1 ∈ sharedColumns := by
  have hall : ∀ line ∈ bookkeeping.map String.toList, line.all (!isLineBreak ·) = true ∧
      ∀ entry ∈ lineDefinition line, String.ofList entry.1 ∈ sharedColumns := by
    decide +kernel
  exact fun line hline => ⟨Text.forall_of_all (hall line hline).1, (hall line hline).2⟩

namespace StoredTable

variable (t : StoredTable) {table : String}

theorem lastLine_oneLine : ∀ c ∈ t.lastLine, isLineBreak c = false := by
  intro c hc
  rw [lastLine, List.mem_append, List.mem_flatMap] at hc
  rcases hc with ⟨col, -, hc⟩ | hc
  · rw [List.mem_append] at hc
    rcases hc with hc | hc
    · exact Text.forall_of_all (s := ", ".toList) (by decide +kernel) c hc
    · exact col.text_oneLine c hc
  · exact Text.forall_of_all (s := ")".toList) (by decide +kernel) c hc

/-- The columns that `ALTER TABLE` adds come after a comma, and that is the name they are read
back under. -/
theorem shared_lastLine : Shared t.lastLine := by
  intro entry hentry hname
  cases hadded : t.added with
  | nil =>
      have hnone : lineDefinition ")".toList = none := by decide
      rw [lastLine, hadded, List.flatMap_nil, List.nil_append, hnone] at hentry
      cases hentry
  | cons col added =>
      let rest := col.text ++ added.flatMap fun col => ", ".toList ++ col.text
      have hline : t.lastLine = [','] ++ ' ' :: rest ++ [')'] := by
        simp [lastLine, hadded, rest]
      rw [hline] at hentry
      rw [lineDefinition_word (by simp) (Text.forall_of_all (by decide)) (by decide)
        (by decide) hentry] at hname
      exact absurd hname (by decide)

theorem splitOnP_sql (htable : isName table = true) : (t.sql table).splitOnP isLineBreak =
    openingLines table ++ t.created.map Projected.line ++ bookkeeping.map String.toList ++
      [t.lastLine] := by
  rw [sql, splitOnP_lines (c := '\n') rfl, List.splitOnP_eq_singleton t.lastLine_oneLine]
  intro line hline
  rw [List.mem_append, List.mem_append, List.mem_map] at hline
  rcases hline with (hline | ⟨col, -, rfl⟩) | hline
  · exact openingLines_oneLine htable line hline
  · exact col.line_oneLine
  · exact (bookkeeping_read line hline).1

/-- The text is read as defining the columns that `CREATE TABLE` had a line for, and beside them
none but the shared ones. -/
theorem mem_columnDefinitions (htable : isName table = true) (entry : List Char × List Char)
    (hname : isName (String.ofList entry.1) = true)
    (hshared : String.ofList entry.1 ∉ sharedColumns) :
    entry ∈ columnDefinitions (t.sql table) ↔
      ∃ col ∈ t.created, (col.name.toList, col.definition) = entry := by
  rw [columnDefinitions, t.splitOnP_sql htable, List.mem_reverse, List.mem_filterMap]
  constructor
  · rintro ⟨line, hmem, hline⟩
    have hnot : ¬Shared line := fun h => hshared (h entry hline hname)
    rw [List.mem_append, List.mem_append, List.mem_append, List.mem_map, List.mem_singleton] at hmem
    rcases hmem with ((hmem | ⟨col, hcol, rfl⟩) | hmem) | rfl
    · exact absurd (shared_openingLines table line hmem) hnot
    · rw [col.lineDefinition_line, Option.some_inj] at hline
      exact ⟨col, hcol, hline⟩
    · exact absurd ((bookkeeping_read line hmem).2 entry hline) hshared
    · exact absurd t.shared_lastLine hnot
  · rintro ⟨col, hcol, rfl⟩
    exact ⟨col.line, by simp [List.mem_map_of_mem hcol], col.lineDefinition_line⟩

theorem eq_of_created {col other : Projected} (hcol : col ∈ t.created) (hother : other ∈ t.created)
    (hname : col.name = other.name) : col = other := by
  have hnodup := (List.nodup_append.mp t.distinct).2.1
  rw [List.map_append] at hnodup
  exact List.inj_on_of_nodup_map (List.nodup_append.mp hnodup).1 hcol hother hname

theorem notMem_shared {col : Projected} (hcol : col ∈ t.created ++ t.added) :
    col.name ∉ sharedColumns := by
  intro hshared
  exact (List.nodup_append.mp t.distinct).2.2 _ hshared _ (List.mem_map_of_mem hcol) rfl

/-- What the text says of a column that `CREATE TABLE` had. -/
theorem definitionOf_created (htable : isName table = true) {col : Projected}
    (hcol : col ∈ t.created) :
    definitionOf (columnDefinitions (t.sql table)) col.name = col.definition := by
  have hshared := t.notMem_shared (List.mem_append_left _ hcol)
  have hread (definition : List Char) := t.mem_columnDefinitions htable
    (col.name.toList, definition) (by simp [col.name_ok]) (by simpa using hshared)
  cases hlookup : (columnDefinitions (t.sql table)).lookup col.name.toList with
  | none =>
      rw [List.lookup_eq_none_iff] at hlookup
      have hmem := (hread col.definition).mpr ⟨col, hcol, rfl⟩
      simpa using hlookup _ hmem
  | some definition =>
      obtain ⟨before, after, hlist, -⟩ := List.lookup_eq_some_iff.mp hlookup
      obtain ⟨other, hother, heq⟩ := (hread definition).mp (by rw [hlist]; simp)
      obtain ⟨hname, hdefinition⟩ := Prod.mk.inj heq
      have hsame := t.eq_of_created hother hcol (String.toList_inj.mp hname)
      rw [definitionOf, hlookup, Option.getD_some, ← hdefinition, hsame]

/-- It says nothing of any other. -/
theorem definitionOf_notCreated (htable : isName table = true) {name : String}
    (hname : isName name = true) (hshared : name ∉ sharedColumns)
    (hcreated : ∀ col ∈ t.created, col.name ≠ name) :
    definitionOf (columnDefinitions (t.sql table)) name = [] := by
  cases hlookup : (columnDefinitions (t.sql table)).lookup name.toList with
  | none => rw [definitionOf, hlookup, Option.getD_none]
  | some definition =>
      obtain ⟨before, after, hlist, -⟩ := List.lookup_eq_some_iff.mp hlookup
      obtain ⟨col, hcol, heq⟩ := (t.mem_columnDefinitions htable
        (name.toList, definition) (by simp [hname]) (by simpa using hshared)).mp
          (by rw [hlist]; simp)
      exact absurd (String.toList_inj.mp (Prod.mk.inj heq).1) (hcreated col hcol)

end StoredTable

/-! ## Expressions -/

theorem intercalate_starts (sep : List Char) (xs ys : List (List Char)) :
    sep.intercalate xs <+: sep.intercalate (xs ++ ys) := by
  induction xs with
  | nil => exact List.nil_prefix
  | cons x xs ih =>
      by_cases hxs : xs = []
      · subst hxs
        by_cases hys : ys = []
        · simp [hys]
        · rw [List.singleton_append, List.intercalate_cons_of_ne_nil hys, List.intercalate_singleton,
            List.append_assoc]
          exact List.prefix_append _ _
      · rw [List.cons_append, List.intercalate_cons_of_ne_nil hxs,
          List.intercalate_cons_of_ne_nil (by simp [hxs])]
        exact (List.prefix_append_right_inj _).mpr ih

theorem intercalate_suffix (sep : List Char) (xs ys : List (List Char)) :
    sep.intercalate ys <:+ sep.intercalate (xs ++ ys) := by
  induction xs with
  | nil => exact List.suffix_rfl
  | cons x xs ih =>
      by_cases hrest : xs ++ ys = []
      · have hys := (List.append_eq_nil_iff.mp hrest).2
        simp [hys]
      · rw [List.cons_append, List.intercalate_cons_of_ne_nil hrest]
        exact ih.trans (List.suffix_append _ _)

theorem squash_contains (before body after : List Char) :
    squash body <:+: squash (before ++ ' ' :: (body ++ ' ' :: after)) := by
  have hwords (xs ys : List Char) : Text.words (xs ++ ' ' :: ys) = Text.words xs ++ Text.words ys := by
    rw [Text.words, List.splitOnP_append_cons _ _ (by decide), List.filter_append]
    rfl
  rw [squash, squash, hwords, hwords]
  exact (intercalate_starts _ _ _).isInfix.trans (intercalate_suffix _ _ _).isInfix

theorem squash_ne_nil {c : Char} (hc : Text.isSpace c = false) (rest : List Char) :
    squash (c :: rest) ≠ [] := by
  obtain ⟨word, words, hsplit⟩ := List.exists_cons_of_ne_nil (List.splitOnP_ne_nil Text.isSpace rest)
  have hwords : Text.words (c :: rest) = (c :: word) :: words.filter (!·.isEmpty) := by
    rw [Text.words, List.splitOnP_cons_eq_if_modifyHead, hc, hsplit]
    rfl
  have hpre := intercalate_starts [' '] [c :: word] (words.filter (!·.isEmpty))
  rw [List.intercalate_singleton, List.singleton_append, ← hwords, ← squash] at hpre
  intro hnil
  rw [hnil] at hpre
  exact absurd (List.prefix_nil.mp hpre) (List.cons_ne_nil _ _)

/-- A column is found to have the expression it was created with. -/
theorem sameExpression_definition {col : Projected} {body : String} (h : col.body = some body) :
    sameExpression col.definition body.toList = true := by
  have hdefinition : ∃ after, col.definition =
      (col.sqltype.toList ++ " GENERATED ALWAYS AS".toList) ++ ' ' :: (body.toList ++ ' ' :: after) := by
    cases hvirtual : col.virtual with
    | false => exact ⟨"STORED".toList, by simp [Projected.definition, h, hvirtual]⟩
    | true => exact ⟨"VIRTUAL".toList, by simp [Projected.definition, h, hvirtual]⟩
  obtain ⟨after, hdefinition⟩ := hdefinition
  rw [sameExpression, hdefinition]
  exact decide_eq_true (squash_contains _ _ _)

/-- A column whose definition is not found is not taken to have any expression. -/
theorem sameExpression_nil {body : String} (h : body.toList.head? = some '(') :
    sameExpression [] body.toList = false := by
  obtain ⟨rest, hbody⟩ := List.head?_eq_some_iff.mp h
  rw [sameExpression, hbody, decide_eq_false_iff_not]
  exact fun hinfix => squash_ne_nil (by decide) rest (List.infix_nil.mp hinfix)

end PcoMirror.Schema
