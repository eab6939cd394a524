import Mathlib.Data.List.SplitBy
import PcoMirror.Lib.Text

/-! Query strings, read back the way Python's `urllib.parse` reads them; what it wrote is
what it reads. -/

namespace Text

def isAscii (c : Char) : Bool :=
  c.toNat < 0x80

/-- The value of a hexadecimal digit. -/
def hexValue (c : Char) : Option ℕ :=
  if '0' ≤ c ∧ c ≤ '9' then some (c.toNat - '0'.toNat)
  else if 'a' ≤ c ∧ c ≤ 'f' then some (c.toNat - 'a'.toNat + 10)
  else if 'A' ≤ c ∧ c ≤ 'F' then some (c.toNat - 'A'.toNat + 10)
  else none

/-- `unquote_to_bytes`, of text in ASCII; a percent sign without two digits stands for itself. -/
def unquoteBytes : List Char → List UInt8
  | [] => []
  | '%' :: a :: b :: rest => match hexValue a, hexValue b with
    | some x, some y => UInt8.ofNat (16 * x + y) :: unquoteBytes rest
    | _, _ => 0x25 :: unquoteBytes (a :: b :: rest)
  | c :: rest => UInt8.ofNat c.toNat :: unquoteBytes rest

/-! ## UTF-8, with what is malformed replaced -/

/-- How many bytes the first byte of a character asks for after it. -/
def trailing (lead : UInt8) : ℕ :=
  if 0xc2 ≤ lead && lead ≤ 0xdf then 1
  else if 0xe0 ≤ lead && lead ≤ 0xef then 2
  else if 0xf0 ≤ lead && lead ≤ 0xf4 then 3
  else 0

def isContinuation (b : UInt8) : Bool :=
  0x80 ≤ b && b ≤ 0xbf

/-- Whether a byte may stand second in a character. -/
def mayFollow (lead b : UInt8) : Bool :=
  isContinuation b &&
    if lead = 0xe0 then 0xa0 ≤ b
    else if lead = 0xed then b ≤ 0x9f
    else if lead = 0xf0 then 0x90 ≤ b
    else if lead = 0xf4 then b ≤ 0x8f
    else true

/-- The length of what one replacement character stands for: as much as could have begun a
character. -/
def malformedLength : List UInt8 → ℕ
  | lead :: b :: rest =>
    if trailing lead = 0 || !mayFollow lead b then 1
    else 2 + ((rest.take (trailing lead - 2)).takeWhile isContinuation).length
  | _ => 1

def decodeChars : ℕ → List UInt8 → List Char
  | _, [] => []
  | 0, _ => []
  | fuel + 1, bytes => match bytes.toByteArray.utf8DecodeChar? 0 with
    | some c => c :: decodeChars fuel (bytes.drop c.utf8Size)
    | none => Char.ofNat 0xfffd :: decodeChars fuel (bytes.drop (malformedLength bytes))

/-- `decode('utf-8', 'replace')` -/
def decodeUtf8 (bytes : List UInt8) : List Char :=
  decodeChars bytes.length bytes

/-! ## Reading -/

/-- `unquote`: every run of ASCII is decoded on its own. -/
def unquote (s : List Char) : List Char :=
  (s.splitBy fun a b => isAscii a = isAscii b).flatMap fun run =>
    if run.all isAscii then decodeUtf8 (unquoteBytes run) else run

/-- A blank is written as a plus sign, and read as one. -/
def unplus (c : Char) : Char :=
  if c = '+' then ' ' else c

/-- A name or a value of a query. -/
def queryPart (s : List Char) : List Char :=
  unquote (s.map unplus)

/-- `parse_qsl`, with blank values kept -/
def parseQsl (query : List Char) : List (String × String) :=
  ((query.splitOn '&').filter (!·.isEmpty)).map fun field =>
    (String.ofList (queryPart (field.takeWhile (· ≠ '='))),
      String.ofList (queryPart ((field.dropWhile (· ≠ '=')).drop 1)))

def addValue (fields : List (String × List String)) (field : String × String) :
    List (String × List String) :=
  match fields.lookup field.1 with
  | some _ => fields.map fun e => if e.1 = field.1 then (e.1, e.2 ++ [field.2]) else e
  | none => fields ++ [(field.1, [field.2])]

/-- `parse_qs`, with blank values kept: each name with its values. -/
def parseQs (query : List Char) : List (String × List String) :=
  (parseQsl query).foldl addValue []

example : parseQs "a=1&b&a=%C3%A9+%zz%FF".toList =
    [("a", ["1", "é %zz" ++ String.singleton (Char.ofNat 0xfffd)]), ("b", [""])] := by
  decide +kernel

/-! ## Reading what was written -/

/-- A character as `quote_plus` writes it. -/
def quoteChar (safe : Char → Bool) (c : Char) : List Char :=
  if c = ' ' then ['+']
  else if c.isAlphanum || c = '_' || c = '.' || c = '-' || c = '~' || safe c then [c]
  else (String.utf8EncodeChar c).flatMap fun b => (percent b).toList

theorem toList_quotePlus (safe : Char → Bool) (s : String) :
    (quotePlus safe s).toList = s.toList.flatMap (quoteChar safe) := by
  rw [quotePlus, String.toList_join, List.flatMap_map]
  congr 1
  funext c
  unfold quoteChar
  split
  · rfl
  · split
    · simp
    · rw [String.toList_join, List.flatMap_map]

/-- Characters that a query may hold as they are. -/
def QuerySafe (safe : Char → Bool) : Prop :=
  ∀ c, safe c = true → isAscii c = true ∧ c ∉ ['%', '+', '&', '=', '#']

variable {safe : Char → Bool}

theorem kept_plain (hsafe : QuerySafe safe) {c : Char}
    (hc : (c.isAlphanum || c = '_' || c = '.' || c = '-' || c = '~' || safe c) = true) :
    isAscii c = true ∧ c ∉ ['%', '+', '&', '=', '#'] := by
  simp only [Bool.or_eq_true, decide_eq_true_eq] at hc
  rcases hc with ((((halpha | rfl) | rfl) | rfl) | rfl) | hkept
  · constructor
    · simp only [Char.isAlphanum, Char.isAlpha, Char.isUpper, Char.isLower, Char.isDigit,
        Bool.or_eq_true, Bool.and_eq_true, decide_eq_true_eq, ge_iff_le, UInt32.le_iff_toNat_le]
        at halpha
      rw [isAscii, decide_eq_true_eq, Char.toNat]
      rcases halpha with (⟨_, h⟩ | ⟨_, h⟩) | ⟨_, h⟩ <;>
        exact lt_of_le_of_lt h (by decide)
    · intro hmem
      simp only [List.mem_cons, List.not_mem_nil, or_false] at hmem
      rcases hmem with rfl | rfl | rfl | rfl | rfl <;> exact absurd halpha (by decide)
  all_goals first | exact hsafe c hkept | decide

theorem hexValue_digit : ∀ n < 16, hexValue (Nat.digitChar n).toUpper = some n := by decide

theorem digit_plain : ∀ n < 16, isAscii (Nat.digitChar n).toUpper = true ∧
    (Nat.digitChar n).toUpper ∉ ['?', '+', '&', '=', '#'] := by decide

theorem toList_percent (b : UInt8) : (percent b).toList =
    ['%', (Nat.digitChar (b.toNat / 16)).toUpper, (Nat.digitChar (b.toNat % 16)).toUpper] :=
  String.toList_ofList

theorem unquoteBytes_percent (b : UInt8) (rest : List Char) :
    unquoteBytes ((percent b).toList ++ rest) = b :: unquoteBytes rest := by
  have hlt : b.toNat < 256 := b.toNat_lt
  have hhigh := hexValue_digit (b.toNat / 16) (by omega)
  have hlow := hexValue_digit (b.toNat % 16) (by omega)
  rw [toList_percent, List.cons_append, List.cons_append, List.cons_append, List.nil_append,
    unquoteBytes, hhigh, hlow]
  simp only
  rw [Nat.div_add_mod, UInt8.ofNat_toNat]

theorem unquoteBytes_percents (bytes : List UInt8) (rest : List Char) :
    unquoteBytes ((bytes.flatMap fun b => (percent b).toList) ++ rest) =
      bytes ++ unquoteBytes rest := by
  induction bytes with
  | nil => rfl
  | cons b bytes ih =>
      rw [List.flatMap_cons, List.append_assoc, unquoteBytes_percent, ih, List.cons_append]

theorem unquoteBytes_cons {c : Char} (hc : c ≠ '%') (rest : List Char) :
    unquoteBytes (c :: rest) = UInt8.ofNat c.toNat :: unquoteBytes rest := by
  rw [unquoteBytes]
  rintro _ _ _ rfl
  exact absurd rfl hc

theorem utf8EncodeChar_ascii {c : Char} (hc : isAscii c = true) :
    String.utf8EncodeChar c = [UInt8.ofNat c.toNat] := by
  rw [isAscii, decide_eq_true_eq] at hc
  have hle : ¬ 127 < c.toNat := by omega
  simp [String.utf8EncodeChar, hle]

theorem unplus_of_plain {s : List Char} (h : '+' ∉ s) : s.map unplus = s := by
  conv_rhs => rw [← List.map_id s]
  refine List.map_congr_left fun c hc => ?_
  rw [unplus, if_neg]
  · rfl
  · rintro rfl
    exact h hc

theorem percents_plain (bytes : List UInt8) {c : Char} (hc : c ∈ ['?', '+', '&', '=', '#']) :
    c ∉ bytes.flatMap fun b => (percent b).toList := by
  intro hmem
  obtain ⟨b, _, hmem⟩ := List.mem_flatMap.mp hmem
  have hlt : b.toNat < 256 := b.toNat_lt
  have hhigh := (digit_plain (b.toNat / 16) (by omega)).2
  have hlow := (digit_plain (b.toNat % 16) (by omega)).2
  rw [toList_percent] at hmem
  simp only [List.mem_cons, List.not_mem_nil, or_false] at hmem
  rcases hmem with rfl | rfl | rfl
  · exact absurd hc (by decide)
  · exact hhigh hc
  · exact hlow hc

/-- What ends a field, or a query, is never written as it is. -/
theorem quoteChar_plain (hsafe : QuerySafe safe) {c d : Char} (hd : d ∈ ['&', '=', '#']) :
    d ∉ quoteChar safe c := by
  unfold quoteChar
  split_ifs with hblank hkept
  · intro hmem
    rw [List.mem_singleton.mp hmem] at hd
    exact absurd hd (by decide)
  · intro hmem
    rw [List.mem_singleton] at hmem
    subst hmem
    exact (kept_plain hsafe hkept).2 (List.mem_cons_of_mem _ (List.mem_cons_of_mem _ hd))
  · exact percents_plain _ (List.mem_cons_of_mem _ (List.mem_cons_of_mem _ hd))

/-- One character, read back as its bytes. -/
theorem unquoteBytes_quoteChar (hsafe : QuerySafe safe) (c : Char) (rest : List Char) :
    unquoteBytes ((quoteChar safe c).map unplus ++ rest) =
      String.utf8EncodeChar c ++ unquoteBytes rest := by
  unfold quoteChar
  split_ifs with hblank hkept
  · subst hblank
    exact unquoteBytes_cons (by decide) rest
  · obtain ⟨hascii, hplain⟩ := kept_plain hsafe hkept
    rw [unplus_of_plain fun h => hplain (by simp [← List.mem_singleton.mp h]),
      utf8EncodeChar_ascii hascii]
    exact unquoteBytes_cons (fun h => hplain (by simp [h])) rest
  · rw [unplus_of_plain (percents_plain _ (by decide)), unquoteBytes_percents]

theorem unquoteBytes_quoted (hsafe : QuerySafe safe) (s : List Char) :
    unquoteBytes ((s.flatMap (quoteChar safe)).map unplus) =
      s.flatMap String.utf8EncodeChar := by
  induction s with
  | nil => rfl
  | cons c s ih =>
      rw [List.flatMap_cons, List.map_append, unquoteBytes_quoteChar hsafe, ih, List.flatMap_cons]

theorem quoteChar_ascii (hsafe : QuerySafe safe) {c d : Char} (hd : d ∈ quoteChar safe c) :
    isAscii d = true := by
  unfold quoteChar at hd
  split_ifs at hd with hblank hkept
  · rw [List.mem_singleton.mp hd]
    decide
  · rw [List.mem_singleton.mp hd]
    exact (kept_plain hsafe hkept).1
  · obtain ⟨b, _, hmem⟩ := List.mem_flatMap.mp hd
    have hlt : b.toNat < 256 := b.toNat_lt
    rw [toList_percent] at hmem
    simp only [List.mem_cons, List.not_mem_nil, or_false] at hmem
    rcases hmem with rfl | rfl | rfl
    · decide
    · exact (digit_plain (b.toNat / 16) (by omega)).1
    · exact (digit_plain (b.toNat % 16) (by omega)).1

theorem unplus_ascii {c : Char} (hc : isAscii c = true) : isAscii (unplus c) = true := by
  unfold unplus
  split_ifs
  · decide
  · exact hc

theorem decodeChars_encoded (s : List Char) : ∀ {fuel : ℕ}, s.length ≤ fuel →
    decodeChars fuel (s.flatMap String.utf8EncodeChar) = s := by
  induction s with
  | nil =>
      intro fuel _
      cases fuel <;> rfl
  | cons c s ih =>
      intro fuel hle
      obtain ⟨fuel, rfl⟩ : ∃ n, fuel = n + 1 := ⟨fuel - 1, by rw [List.length_cons] at hle; omega⟩
      obtain ⟨b, bytes, hbytes⟩ : ∃ b bytes, String.utf8EncodeChar c = b :: bytes :=
        List.exists_cons_of_ne_nil String.utf8EncodeChar_ne_nil
      have hread : ((b :: bytes) ++ s.flatMap String.utf8EncodeChar).toByteArray.utf8DecodeChar? 0 =
          some c := by
        rw [← hbytes, List.toByteArray_append]
        exact ByteArray.utf8DecodeChar?_utf8EncodeChar_append
      rw [List.flatMap_cons, hbytes, List.cons_append, decodeChars, ← List.cons_append, hread]
      · simp only
        rw [← hbytes, ← String.length_utf8EncodeChar, List.drop_left]
        exact congrArg (c :: ·) (ih (by rw [List.length_cons] at hle; omega))
      · nofun

theorem length_le_encoded (s : List Char) :
    s.length ≤ (s.flatMap String.utf8EncodeChar).length := by
  induction s with
  | nil => exact Nat.le_refl _
  | cons c s ih =>
      have := c.utf8Size_pos
      rw [List.flatMap_cons, List.length_append, String.length_utf8EncodeChar, List.length_cons]
      omega

theorem unquote_ascii {s : List Char} (hs : ∀ c ∈ s, isAscii c = true) :
    unquote s = decodeUtf8 (unquoteBytes s) := by
  cases s with
  | nil => rfl
  | cons c cs =>
      have hchain : List.IsChain (fun a b => decide (isAscii a = isAscii b) = true) (c :: cs) := by
        refine List.Pairwise.isChain (List.Pairwise.imp_of_mem ?_ (List.pairwise_of_forall fun _ _ => True.intro))
        intro a b ha hb _
        rw [hs a ha, hs b hb]
        rfl
      have hall : (c :: cs).all isAscii = true := List.all_eq_true.mpr hs
      rw [unquote, List.splitBy_of_isChain (List.cons_ne_nil _ _) hchain, List.flatMap_singleton,
        if_pos hall]

/-- What was quoted reads back. -/
theorem queryPart_quoted (hsafe : QuerySafe safe) (s : List Char) :
    queryPart (s.flatMap (quoteChar safe)) = s := by
  have hascii : ∀ c ∈ (s.flatMap (quoteChar safe)).map unplus, isAscii c = true := by
    intro c hc
    rw [List.map_flatMap] at hc
    obtain ⟨d, _, hmem⟩ := List.mem_flatMap.mp hc
    obtain ⟨e, he, rfl⟩ := List.mem_map.mp hmem
    exact unplus_ascii (quoteChar_ascii hsafe he)
  rw [queryPart, unquote_ascii hascii, unquoteBytes_quoted hsafe, decodeUtf8,
    decodeChars_encoded s (length_le_encoded s)]

/-- One field of a query, as `urlencode` writes it. -/
def quoteField (safe : Char → Bool) (field : String × String) : List Char :=
  field.1.toList.flatMap (quoteChar safe) ++ '=' :: field.2.toList.flatMap (quoteChar safe)

theorem toList_urlencode (safe : Char → Bool) (pairs : List (String × String)) :
    (urlencode safe pairs).toList = ['&'].intercalate (pairs.map (quoteField safe)) := by
  rw [urlencode, String.toList_intercalate, List.map_map]
  congr 1
  refine List.map_congr_left fun field _ => ?_
  simp [quoteField, toList_quotePlus]

theorem quoted_plain (hsafe : QuerySafe safe) {s : List Char} {d : Char}
    (hd : d ∈ ['&', '=', '#']) : d ∉ s.flatMap (quoteChar safe) := by
  intro h
  obtain ⟨c, _, hmem⟩ := List.mem_flatMap.mp h
  exact quoteChar_plain hsafe hd hmem

/-- What is written of a field ends neither the field nor the query. -/
theorem quoteField_plain (hsafe : QuerySafe safe) (field : String × String) {d : Char}
    (hd : d ∈ ['&', '#']) : d ∉ quoteField safe field := by
  have hend : d ∈ ['&', '=', '#'] := by
    simp only [List.mem_cons, List.not_mem_nil, or_false] at hd ⊢
    tauto
  intro hmem
  rcases List.mem_append.mp hmem with h | h
  · exact quoted_plain hsafe hend h
  · rcases List.mem_cons.mp h with h | h
    · rw [h] at hd
      exact absurd hd (by decide)
    · exact quoted_plain hsafe hend h

/-- `parse_qsl` reads what `urlencode` wrote. -/
theorem parseQsl_urlencode (hsafe : QuerySafe safe) (pairs : List (String × String)) :
    parseQsl (urlencode safe pairs).toList = pairs := by
  have hsplit : ((['&'].intercalate (pairs.map (quoteField safe))).splitOn '&').filter
      (!·.isEmpty) = pairs.map (quoteField safe) := by
    cases pairs with
    | nil => rfl
    | cons field pairs =>
        rw [List.splitOn_intercalate '&' ?_ (by simp), List.filter_eq_self]
        · intro l hl
          obtain ⟨field, _, rfl⟩ := List.mem_map.mp hl
          simp [quoteField]
        · intro l hl hmem
          obtain ⟨field, _, rfl⟩ := List.mem_map.mp hl
          exact quoteField_plain hsafe field (by decide) hmem
  rw [parseQsl, toList_urlencode, hsplit, List.map_map]
  conv_rhs => rw [← List.map_id pairs]
  refine List.map_congr_left fun field _ => ?_
  have hkey : ∀ c ∈ field.1.toList.flatMap (quoteChar safe), decide (c ≠ '=') = true := by
    intro c hc
    rw [decide_eq_true_eq]
    rintro rfl
    exact quoted_plain hsafe (by decide) hc
  rw [Function.comp_apply, quoteField, List.takeWhile_append_of_pos hkey,
    List.dropWhile_append_of_pos hkey, List.takeWhile_cons_of_neg (by decide),
    List.dropWhile_cons_of_neg (by decide), List.append_nil, List.drop_one, List.tail_cons,
    queryPart_quoted hsafe, queryPart_quoted hsafe, String.ofList_toList, String.ofList_toList]
  rfl

theorem urlencode_injective (hsafe : QuerySafe safe) : Function.Injective (urlencode safe) := by
  intro pairs pairs' h
  rw [← parseQsl_urlencode hsafe pairs, h, parseQsl_urlencode hsafe]

/-! ## Names and their values -/

/-- Each name once, with at least one value. -/
def Grouped (fields : List (String × List String)) : Prop :=
  (fields.map (·.1)).Nodup ∧ ∀ e ∈ fields, e.2 ≠ []

/-- Each name, once for each of its values. -/
def spread (fields : List (String × List String)) : List (String × String) :=
  fields.flatMap fun e => e.2.map fun v => (e.1, v)

theorem lookup_eq_none {fields : List (String × List String)} {name : String} :
    fields.lookup name = none ↔ name ∉ fields.map (·.1) := by
  rw [List.lookup_eq_none_iff, List.mem_map]
  constructor
  · rintro h ⟨e, he, rfl⟩
    simpa using h e he
  · intro h e he
    rw [bne_iff_ne]
    rintro rfl
    exact h ⟨e, he, rfl⟩

theorem map_fst_addValue_held {fields : List (String × List String)} {name v : String} :
    (fields.map fun e => if e.1 = name then (e.1, e.2 ++ [v]) else e).map (·.1) =
      fields.map (·.1) := by
  rw [List.map_map]
  refine List.map_congr_left fun e _ => ?_
  simp only [Function.comp_apply]
  split_ifs <;> rfl

theorem Grouped.addValue {fields : List (String × List String)} (h : Grouped fields)
    (field : String × String) : Grouped (addValue fields field) := by
  unfold Text.addValue
  cases hlookup : fields.lookup field.1 with
  | some held =>
      constructor
      · simp only [map_fst_addValue_held]
        exact h.1
      · intro e he
        obtain ⟨before, hbefore, rfl⟩ := List.mem_map.mp he
        split_ifs
        · simp
        · exact h.2 before hbefore
  | none =>
      constructor
      · rw [List.map_append, List.map_singleton]
        refine List.nodup_append.mpr ⟨h.1, List.pairwise_singleton _ _, ?_⟩
        intro name hname other hother heq
        rw [List.mem_singleton.mp hother] at heq
        exact lookup_eq_none.mp hlookup (heq ▸ hname)
      · intro e he
        rcases List.mem_append.mp he with he | he
        · exact h.2 e he
        · rw [List.mem_singleton.mp he]
          simp

theorem grouped_foldl (pairs : List (String × String)) {fields : List (String × List String)}
    (h : Grouped fields) : Grouped (pairs.foldl addValue fields) := by
  induction pairs generalizing fields with
  | nil => exact h
  | cons pair pairs ih => exact ih (h.addValue pair)

theorem grouped_parseQs (query : List Char) : Grouped (parseQs query) :=
  grouped_foldl _ ⟨List.nodup_nil, nofun⟩

/-- A name that is held takes its further values in turn. -/
theorem foldl_held {fields : List (String × List String)} {name : String} (values held : List String)
    (hnew : name ∉ fields.map (·.1)) :
    (values.map fun v => (name, v)).foldl addValue (fields ++ [(name, held)]) =
      fields ++ [(name, held ++ values)] := by
  induction values generalizing held with
  | nil => rw [List.map_nil, List.foldl_nil, List.append_nil]
  | cons v values ih =>
      have hlookup : (fields ++ [(name, held)]).lookup name = some held := by
        rw [List.lookup_append, lookup_eq_none.mpr hnew]
        simp
      have hold : fields.map (fun e => if e.1 = name then (e.1, e.2 ++ [v]) else e) = fields := by
        conv_rhs => rw [← List.map_id fields]
        refine List.map_congr_left fun e he => if_neg ?_
        rintro rfl
        exact hnew (List.mem_map_of_mem he)
      have hstep : addValue (fields ++ [(name, held)]) (name, v) =
          fields ++ [(name, held ++ [v])] := by
        rw [Text.addValue]
        simp only [hlookup, List.map_append, hold, List.map_singleton, if_true]
      rw [List.map_cons, List.foldl_cons, hstep, ih, List.append_assoc, List.singleton_append]

theorem foldl_spread (fields before : List (String × List String))
    (h : Grouped (before ++ fields)) :
    (spread fields).foldl addValue before = before ++ fields := by
  induction fields generalizing before with
  | nil => rw [List.append_nil]; rfl
  | cons e fields ih =>
      obtain ⟨name, values⟩ := e
      obtain ⟨v, values, rfl⟩ : ∃ v vs, values = v :: vs :=
        List.exists_cons_of_ne_nil (h.2 _ (List.mem_append_right _ (.head _)))
      have hnew : name ∉ before.map (·.1) := by
        intro hmem
        have := h.1
        rw [List.map_append, List.map_cons] at this
        exact (List.nodup_append.mp this).2.2 _ hmem _ (.head _) rfl
      have hfirst : addValue before (name, v) = before ++ [(name, [v])] := by
        rw [Text.addValue, lookup_eq_none.mpr hnew]
      rw [spread, List.flatMap_cons, List.foldl_append, List.map_cons, List.foldl_cons, hfirst,
        foldl_held values [v] hnew, List.singleton_append]
      rw [List.append_cons] at h
      exact (ih _ h).trans (List.append_cons before _ fields).symm

/-- `parse_qs` reads what `urlencode` wrote of names and their values. -/
theorem parseQs_urlencode (hsafe : QuerySafe safe) {fields : List (String × List String)}
    (h : Grouped fields) : parseQs (urlencode safe (spread fields)).toList = fields := by
  rw [parseQs, parseQsl_urlencode hsafe]
  exact foldl_spread fields [] h

theorem quoteField_ascii (hsafe : QuerySafe safe) (field : String × String) {d : Char}
    (hd : d ∈ quoteField safe field) : isAscii d = true := by
  have hquoted {s : List Char} (h : d ∈ s.flatMap (quoteChar safe)) : isAscii d = true := by
    obtain ⟨c, _, hmem⟩ := List.mem_flatMap.mp h
    exact quoteChar_ascii hsafe hmem
  rcases List.mem_append.mp hd with h | h
  · exact hquoted h
  · rcases List.mem_cons.mp h with h | h
    · rw [h]
      decide
    · exact hquoted h

/-- A query as it is written is in ASCII, and nothing in it starts a fragment. -/
theorem urlencode_plain (hsafe : QuerySafe safe) (pairs : List (String × String)) :
    ∀ c ∈ (urlencode safe pairs).toList, isAscii c = true ∧ c ≠ '#' := by
  rw [toList_urlencode]
  induction pairs with
  | nil => nofun
  | cons field pairs ih =>
      intro c hc
      have hfield (h : c ∈ quoteField safe field) : isAscii c = true ∧ c ≠ '#' := by
        refine ⟨quoteField_ascii hsafe field h, ?_⟩
        rintro rfl
        exact quoteField_plain hsafe field (by decide) h
      by_cases hlast : pairs = []
      · subst hlast
        exact hfield (by simpa using hc)
      · rw [List.map_cons, List.intercalate_cons_of_ne_nil (by simpa using hlast)] at hc
        simp only [List.mem_append, List.mem_singleton] at hc
        rcases hc with (h | rfl) | h
        · exact hfield h
        · decide
        · exact ih c h

end Text
