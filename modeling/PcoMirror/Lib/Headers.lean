import Mathlib.Data.List.DropRight
import PcoMirror.Lib.Text

/-! Header fields, in a mapping that keeps its order, and the lists that stand in their values. -/

namespace Http

/-- Header fields by their names, in the order they were set. -/
abbrev Headers := List (String × String)

/-- `headers[name] = value` -/
def set (name value : String) : Headers → Headers
  | [] => [(name, value)]
  | (n, v) :: rest => if n = name then (n, value) :: rest else (n, v) :: set name value rest

/-- The lower case of a character, where that is in ASCII. -/
def lowerChar (c : Char) : Char :=
  if c = '\u212a' then 'k' else c.toLower

/-- The upper case of a character, where that is in ASCII. -/
def upperChar (c : Char) : List Char :=
  match c with
  | 'ß' => ['S', 'S']
  | 'ı' => ['I']
  | 'ſ' => ['S']
  | 'ﬀ' => ['F', 'F']
  | 'ﬁ' => ['F', 'I']
  | 'ﬂ' => ['F', 'L']
  | 'ﬃ' => ['F', 'F', 'I']
  | 'ﬄ' => ['F', 'F', 'L']
  | 'ﬅ' => ['S', 'T']
  | 'ﬆ' => ['S', 'T']
  | c => [c.toUpper]

/-- `lower`, as far as ASCII comes of it. -/
def lower (s : String) : String :=
  String.ofList (s.toList.map lowerChar)

/-- `upper`, as far as ASCII comes of it. -/
def upper (s : String) : String :=
  String.ofList (s.toList.flatMap upperChar)

/-- `strip` -/
def trim (s : String) : String :=
  String.ofList (Text.strip s.toList)

/-- What stands between the commas of a value. -/
def elements (value : String) : List String :=
  (Text.commas value).map trim

/-- The elements that are not empty. -/
def items (value : String) : List String :=
  (elements value).filter (· ≠ "")

/-- `", ".join` -/
def join (names : List String) : String :=
  String.intercalate ", " names

/-! ## Fields -/

variable {h : Headers} {name other value : String} {p : String → Bool}

@[simp] theorem lookup_set_self : (set name value h).lookup name = some value := by
  induction h with
  | nil => simp [set]
  | cons field rest ih =>
      obtain ⟨n, v⟩ := field
      by_cases hn : n = name
      · simp [set, hn]
      · rw [set, if_neg hn, List.lookup_cons, beq_false_of_ne (Ne.symm hn)]
        exact ih

theorem lookup_set_ne (hne : other ≠ name) : (set name value h).lookup other = h.lookup other := by
  induction h with
  | nil => simp [set, List.lookup_cons, beq_false_of_ne hne]
  | cons field rest ih =>
      obtain ⟨n, v⟩ := field
      by_cases hn : n = name
      · rw [set, if_pos hn, List.lookup_cons, List.lookup_cons, hn, beq_false_of_ne hne]
      · rw [set, if_neg hn, List.lookup_cons, List.lookup_cons, ih]

theorem mem_of_lookup (hlookup : h.lookup name = some value) : (name, value) ∈ h := by
  obtain ⟨before, after, rfl, -⟩ := List.lookup_eq_some_iff.mp hlookup
  simp

/-- The fields that a condition on the name picks stay as they are when another one is set. -/
theorem filter_set_of_not (hp : p name = false) :
    (set name value h).filter (p ·.1) = h.filter (p ·.1) := by
  induction h with
  | nil => simp [set, hp]
  | cons field rest ih =>
      obtain ⟨n, v⟩ := field
      by_cases hn : n = name
      · rw [set, if_pos hn, hn, List.filter_cons_of_neg (by simp [hp]),
          List.filter_cons_of_neg (by simp [hp])]
      · rw [set, if_neg hn, List.filter_cons, List.filter_cons, ih]

/-! ## Lists of names -/

theorem toUpper_of_not_lower {c : Char} (h : c.isLower = false) : c.toUpper = c := by
  rw [Char.toUpper, dif_neg]
  simpa [Char.isLower] using h

theorem upperChar_ne_nil (c : Char) : upperChar c ≠ [] := by
  rw [upperChar.eq_def]
  split <;> nofun

theorem upperChar_of_ascii {c : Char} (hascii : c.toNat < 128) : upperChar c = [c.toUpper] := by
  rw [upperChar.eq_def]
  split
  all_goals first
    | exact absurd hascii (by decide)
    | rfl

theorem upperChar_upperChar (c : Char) : (upperChar c).flatMap upperChar = upperChar c := by
  by_cases hplain : upperChar c = [c.toUpper]
  · rw [hplain, List.flatMap_singleton]
    cases hlower : c.isLower with
    | false => rw [toUpper_of_not_lower hlower, hplain, toUpper_of_not_lower hlower]
    | true =>
        have hval : c.toUpper.val = c.val + ('A'.val - 'a'.val) := by
          rw [Char.toUpper, dif_pos (by simpa [Char.isLower] using hlower)]
        have hrange : 65 ≤ c.toUpper.toNat ∧ c.toUpper.toNat ≤ 90 := by
          simp only [Char.isLower, Bool.and_eq_true, decide_eq_true_eq, ge_iff_le,
            UInt32.le_iff_toNat_le] at hlower
          rw [Char.toNat, hval, UInt32.toNat_add]
          have hfirst : 'a'.val.toNat = 97 := rfl
          have hlast : 'z'.val.toNat = 122 := rfl
          have hshift : ('A'.val - 'a'.val).toNat = 4294967264 := by decide
          omega
        have hupper : c.toUpper.isLower = false := by
          rw [Char.isLower, Bool.and_eq_false_iff, decide_eq_false_iff_not]
          left
          rw [ge_iff_le, UInt32.le_iff_toNat_le]
          have hfirst : 'a'.val.toNat = 97 := rfl
          rw [Char.toNat] at hrange
          omega
        rw [upperChar_of_ascii (by omega), toUpper_of_not_lower hupper]
  · -- What is left are the letters that are not in ASCII.
    rw [upperChar.eq_def] at hplain ⊢
    split at hplain
    all_goals first
      | rfl
      | exact absurd rfl hplain

@[simp] theorem upper_upper (s : String) : upper (upper s) = upper s := by
  have hchars : (s.toList.flatMap upperChar).flatMap upperChar = s.toList.flatMap upperChar := by
    rw [List.flatMap_assoc]
    exact List.flatMap_congr fun c _ => upperChar_upperChar c
  rw [upper, upper, String.toList_ofList, hchars]

/-- The lower case of a letter is a letter in lower case, and what is no letter has none. -/
theorem lowerChar_range (c : Char) : lowerChar c = c ∨
    (97 ≤ (lowerChar c).toNat ∧ (lowerChar c).toNat ≤ 122 ∧
      (65 ≤ c.toNat ∧ c.toNat ≤ 90 ∨ c.toNat = 0x212a)) := by
  rw [lowerChar]
  split
  · case isTrue hkelvin =>
      subst hkelvin
      right
      decide
  · rw [Char.toLower]
    split
    · case isTrue hupper =>
        right
        have hfirst : 'A'.val.toNat = 65 := rfl
        have hlast : 'Z'.val.toNat = 90 := rfl
        have hshift : ('a'.val - 'A'.val).toNat = 32 := by decide
        simp only [UInt32.le_iff_toNat_le, Char.toNat, UInt32.toNat_add] at hupper ⊢
        omega
    · exact .inl rfl

theorem isSpace_lowerChar (c : Char) : Text.isSpace (lowerChar c) = Text.isSpace c := by
  have hletter {d : Char} (hd : 65 ≤ d.toNat ∧ d.toNat ≤ 122 ∨ d.toNat = 0x212a) :
      Text.isSpace d = false := by
    simp only [Text.isSpace, Bool.or_eq_false_iff, Bool.and_eq_false_iff,
      decide_eq_false_iff_not]
    omega
  obtain hsame | ⟨hlow, hhigh, hc⟩ := lowerChar_range c
  · rw [hsame]
  · rw [hletter (by omega), hletter (by omega)]

theorem lowerChar_lowerChar (c : Char) : lowerChar (lowerChar c) = lowerChar c := by
  obtain hsame | ⟨hlow, hhigh, -⟩ := lowerChar_range c
  · rw [hsame, hsame]
  · obtain hsame | ⟨-, -, hc⟩ := lowerChar_range (lowerChar c)
    · exact hsame
    · omega

@[simp] theorem lower_lower (s : String) : lower (lower s) = lower s := by
  have hchars : s.toList.map (lowerChar ∘ lowerChar) = s.toList.map lowerChar :=
    List.map_congr_left fun c _ => lowerChar_lowerChar c
  rw [lower, lower, String.toList_ofList, List.map_map, hchars]

theorem strip_strip (s : List Char) : Text.strip (Text.strip s) = Text.strip s := by
  have hend (s : List Char) : Text.rstrip Text.isSpace (Text.rstrip Text.isSpace s) =
      Text.rstrip Text.isSpace s := List.rdropWhile_idempotent _ _
  have hstart : (Text.strip s).dropWhile Text.isSpace = Text.strip s := by
    cases hstrip : Text.strip s with
    | nil => rfl
    | cons c rest =>
        have hprefix : c :: rest <+: s.dropWhile Text.isSpace := by
          rw [← hstrip]
          exact List.rdropWhile_prefix _ _
        obtain ⟨tail, htail⟩ := hprefix
        have hhead := List.head_dropWhile_not Text.isSpace (l := s) (by simp [← htail])
        simp only [← htail, List.cons_append, List.head_cons] at hhead
        exact List.dropWhile_cons_of_neg (by simp [hhead])
  rw [Text.strip, hstart, Text.strip, hend]

@[simp] theorem trim_trim (s : String) : trim (trim s) = trim s := by
  rw [trim, trim, String.toList_ofList, strip_strip]

/-- Blanks come off the ends of a text in lower case as they come off the text. -/
theorem trim_lower (s : String) : trim (lower s) = lower (trim s) := by
  have hspace : Text.isSpace ∘ lowerChar = Text.isSpace := funext isSpace_lowerChar
  have hstrip (cs : List Char) :
      Text.strip (cs.map lowerChar) = (Text.strip cs).map lowerChar := by
    rw [Text.strip, Text.strip, Text.rstrip, Text.rstrip, List.dropWhile_map, hspace,
      ← List.map_reverse, List.dropWhile_map, hspace, List.map_reverse]
  rw [trim, lower, lower, trim, String.toList_ofList, String.toList_ofList, hstrip]

theorem elements_append (value rest : String) :
    elements (value ++ ", " ++ rest) = elements value ++ elements rest := by
  have hspace (cs : List Char) : ((' ' :: cs).splitOn ',').map (trim ∘ String.ofList) =
      (cs.splitOn ',').map (trim ∘ String.ofList) := by
    obtain ⟨first, others, hsplit⟩ := List.exists_cons_of_ne_nil (List.splitOn_ne_nil ',' cs)
    rw [List.splitOn_cons_eq_if_modifyHead, if_neg (by decide), hsplit]
    simp [trim, Text.strip, show Text.isSpace ' ' = true by decide]
  have hlist : (value ++ ", " ++ rest).toList = value.toList ++ ',' :: ' ' :: rest.toList := by
    simp
  rw [elements, elements, elements, Text.commas, Text.commas, Text.commas, List.map_map,
    List.map_map, List.map_map, hlist, List.splitOn_append_cons_self, List.map_append, hspace]

/-- A name as a list of names can hold it. -/
structure IsItem (name : String) : Prop where
  trimmed : trim name = name
  nonempty : name ≠ ""
  whole : ',' ∉ name.toList

theorem IsItem.items {name : String} (h : IsItem name) : items name = [name] := by
  have helements : elements name = [name] := by
    rw [elements, Text.commas, List.splitOn_eq_singleton h.whole, List.map_singleton,
      List.map_singleton, String.ofList_toList, h.trimmed]
  simp [Http.items, helements, h.nonempty]

/-- What is joined is read back. -/
theorem items_join {names : List String} (hnames : ∀ name ∈ names, IsItem name) :
    items (join names) = names := by
  induction names with
  | nil => decide
  | cons name names ih =>
      have hname := (hnames name (by simp)).items
      have hrest := ih fun other hother => hnames other (by simp [hother])
      by_cases hnil : names = []
      · subst hnil
        rw [join, String.intercalate_singleton, hname]
      · rw [join, String.intercalate_cons_of_ne_nil hnil, ← join, items, elements_append,
          List.filter_append, ← items, ← items, hname, hrest, List.singleton_append]

/-! ## White space around a list -/

theorem isSpace_comma {c : Char} (h : Text.isSpace c = true) : (c == ',') = false := by
  rw [beq_eq_false_iff_ne]
  intro heq
  rw [heq] at h
  exact absurd h (by decide)

theorem map_strip_cons {c : Char} (h : Text.isSpace c = true) (s : List Char) :
    ((c :: s).splitOn ',').map Text.strip = (s.splitOn ',').map Text.strip := by
  obtain ⟨first, others, hsplit⟩ := List.exists_cons_of_ne_nil (List.splitOn_ne_nil ',' s)
  rw [List.splitOn_cons_eq_if_modifyHead, isSpace_comma h, hsplit]
  simp [Text.strip, h]

/-- What follows a text without a comma goes to its last part. -/
theorem splitOn_append {t : List Char} (ht : ',' ∉ t) (s : List Char) :
    ∃ parts last, s.splitOn ',' = parts ++ [last] ∧
      (s ++ t).splitOn ',' = parts ++ [last ++ t] := by
  induction s with
  | nil => exact ⟨[], [], by simp, by simpa using List.splitOn_eq_singleton ht⟩
  | cons c s ih =>
      obtain ⟨parts, last, hs, hst⟩ := ih
      rw [List.cons_append, List.splitOn_cons_eq_if_modifyHead, List.splitOn_cons_eq_if_modifyHead,
        hs, hst]
      by_cases hc : (c == ',') = true
      · exact ⟨[] :: parts, last, by simp [hc], by simp [hc]⟩
      · cases parts with
        | nil => exact ⟨[], c :: last, by simp [hc], by simp [hc]⟩
        | cons first parts => exact ⟨(c :: first) :: parts, last, by simp [hc], by simp [hc]⟩

theorem strip_concat {c : Char} (h : Text.isSpace c = true) (s : List Char) :
    Text.strip (s ++ [c]) = Text.strip s := by
  by_cases hs : ∀ d ∈ s, Text.isSpace d = true
  · rw [Text.strip_eq_nil.mpr hs, Text.strip_eq_nil]
    simpa [or_imp, forall_and, h] using hs
  · have hne : s.dropWhile Text.isSpace ≠ [] := by rwa [Ne, List.dropWhile_eq_nil_iff]
    rw [Text.strip, Text.strip, List.dropWhile_append, if_neg (by simpa using hne), Text.rstrip,
      Text.rstrip, List.reverse_append, List.reverse_singleton, List.singleton_append,
      List.dropWhile_cons_of_pos h]

theorem map_strip_concat {c : Char} (h : Text.isSpace c = true) (s : List Char) :
    ((s ++ [c]).splitOn ',').map Text.strip = (s.splitOn ',').map Text.strip := by
  have hcomma : ',' ∉ [c] := by
    simpa using Ne.symm (beq_eq_false_iff_ne.mp (isSpace_comma h))
  obtain ⟨parts, last, hs, hsc⟩ := splitOn_append hcomma s
  rw [hs, hsc, List.map_append, List.map_append, List.map_singleton, List.map_singleton,
    strip_concat h]

theorem map_strip_strip (s : List Char) :
    ((Text.strip s).splitOn ',').map Text.strip = (s.splitOn ',').map Text.strip := by
  have hfront (s : List Char) : ((s.dropWhile Text.isSpace).splitOn ',').map Text.strip =
      (s.splitOn ',').map Text.strip := by
    induction s with
    | nil => rfl
    | cons c s ih =>
        by_cases hc : Text.isSpace c = true
        · rw [List.dropWhile_cons_of_pos hc, ih, map_strip_cons hc]
        · rw [List.dropWhile_cons_of_neg hc]
  have hback (s : List Char) : ((Text.rstrip Text.isSpace s).splitOn ',').map Text.strip =
      (s.splitOn ',').map Text.strip := by
    induction s using List.reverseRecOn with
    | nil => rfl
    | append_singleton s c ih =>
        rw [Text.rstrip, List.reverse_append, List.reverse_singleton, List.singleton_append]
        by_cases hc : Text.isSpace c = true
        · rw [List.dropWhile_cons_of_pos hc, ← Text.rstrip, ih, map_strip_concat hc]
        · rw [List.dropWhile_cons_of_neg hc]
          simp
  rw [Text.strip, hback, hfront]

/-- White space around a list is white space around its first and its last element. -/
theorem items_trim (value : String) : items (trim value) = items value := by
  have h := congrArg (List.map String.ofList) (map_strip_strip value.toList)
  rw [List.map_map, List.map_map] at h
  have helements (s : List Char) : elements (String.ofList s) =
      (s.splitOn ',').map (String.ofList ∘ Text.strip) := by
    rw [elements, Text.commas, List.map_map, String.toList_ofList]
    refine List.map_congr_left fun part _ => ?_
    simp [trim]
  rw [items, items, trim, helements, h, ← helements, String.ofList_toList]

end Http
