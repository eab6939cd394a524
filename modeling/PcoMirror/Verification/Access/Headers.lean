import PcoMirror.Lib.QueryString
import PcoMirror.Lib.Words
import PcoMirror.Model.ApiKeys

/-! A key comes out of a header as it went in, whichever way it is sent. -/

namespace PcoMirror.ApiKeys

open Text

/-! ## Base64 -/

theorem base64Value_digit : ∀ n < 64, base64Value (base64Digit n) = some n := by decide +kernel

theorem base64Digit_ne_pad : ∀ n < 64, base64Digit n ≠ '=' := by decide +kernel

theorem isSpace_base64Digit : ∀ n < 64, isSpace (base64Digit n) = false := by decide +kernel

/-- Four digits are three bytes, whatever follows. -/
theorem b64decode_digits {a b c d : ℕ} (ha : a < 64) (hb : b < 64) (hc : c < 64) (hd : d < 64)
    (rest : List Char) :
    b64decode (base64Digit a :: base64Digit b :: base64Digit c :: base64Digit d :: rest) =
      (b64decode rest).map fun bytes => .ofNat (a * 4 + b / 16) :: .ofNat (b % 16 * 16 + c / 4) ::
        .ofNat (c % 4 * 64 + d) :: bytes := by
  have hpad := base64Digit_ne_pad d hd
  rw [b64decode]
  · simp only [base64Value_digit a ha, base64Value_digit b hb, base64Value_digit c hc,
      base64Value_digit d hd]
    cases b64decode rest <;> rfl
  · intro _ h
    exact absurd h hpad
  · intro h
    exact absurd h hpad

theorem b64decode_one {a b : ℕ} (ha : a < 64) (hb : b < 64) :
    b64decode [base64Digit a, base64Digit b, '=', '='] = some [.ofNat (a * 4 + b / 16)] := by
  simp [b64decode, base64Value_digit a ha, base64Value_digit b hb]

theorem b64decode_two {a b c : ℕ} (ha : a < 64) (hb : b < 64) (hc : c < 64) :
    b64decode [base64Digit a, base64Digit b, base64Digit c, '='] =
      some [.ofNat (a * 4 + b / 16), .ofNat (b % 16 * 16 + c / 4)] := by
  have hpad := base64Digit_ne_pad c hc
  rw [b64decode]
  · simp [base64Value_digit a ha, base64Value_digit b hb, base64Value_digit c hc]
  · exact hpad

theorem byte_eq (a : UInt8) {n : ℕ} (h : n = a.toNat) : UInt8.ofNat n = a := by
  rw [h, UInt8.ofNat_toNat]

/-- What is written in base64 reads back. -/
theorem b64decode_base64 (bytes : List UInt8) : b64decode (base64 bytes) = some bytes := by
  fun_induction base64 bytes with
  | case1 => rfl
  | case2 a =>
      have ha := a.toNat_lt
      rw [b64decode_one (by omega) (by omega), byte_eq a (by omega)]
  | case3 a b =>
      have ha := a.toNat_lt
      have hb := b.toNat_lt
      rw [b64decode_two (by omega) (by omega) (by omega), byte_eq a (by omega),
        byte_eq b (by omega)]
  | case4 a b c rest ih =>
      have ha := a.toNat_lt
      have hb := b.toNat_lt
      have hc := c.toNat_lt
      rw [b64decode_digits (by omega) (by omega) (by omega) (by omega), ih, byte_eq a (by omega),
        byte_eq b (by omega), byte_eq c (by omega)]
      rfl

/-- Nothing in base64 is white space. -/
theorem isSpace_base64 (bytes : List UInt8) : ∀ c ∈ base64 bytes, isSpace c = false := by
  have hpad : isSpace '=' = false := by decide +kernel
  fun_induction base64 bytes with
  | case1 => simp
  | case2 a =>
      have ha := a.toNat_lt
      simp [isSpace_base64Digit, hpad, show a.toNat / 4 < 64 by omega,
        show a.toNat % 4 * 16 < 64 by omega]
  | case3 a b =>
      have ha := a.toNat_lt
      have hb := b.toNat_lt
      simp [isSpace_base64Digit, hpad, show a.toNat / 4 < 64 by omega,
        show a.toNat % 4 * 16 + b.toNat / 16 < 64 by omega, show b.toNat % 16 * 4 < 64 by omega]
  | case4 a b c rest ih =>
      have ha := a.toNat_lt
      have hb := b.toNat_lt
      have hc := c.toNat_lt
      simp only [List.forall_mem_cons]
      exact ⟨isSpace_base64Digit _ (by omega), isSpace_base64Digit _ (by omega),
        isSpace_base64Digit _ (by omega), isSpace_base64Digit _ (by omega), ih⟩

/-! ## Text -/

/-- The bytes of a text. -/
def utf8Bytes (s : String) : List UInt8 :=
  s.toList.flatMap String.utf8EncodeChar

theorem utf8?_utf8Bytes (s : String) : utf8? (utf8Bytes s) = some s := by
  have hbytes : (⟨(utf8Bytes s).toArray⟩ : ByteArray) = s.toByteArray := by
    rw [← String.utf8Encode_toList, List.utf8Encode]
    simp [utf8Bytes, ByteArray.ext_iff]
  rw [utf8?, hbytes, String.fromUTF8?]
  simp [s.isValidUTF8]
  rfl

theorem partition_eq {c : Char} {s : List Char} (h : c ∉ s) (rest : List Char) :
    partition c (String.ofList (s ++ c :: rest)) = (String.ofList s, String.ofList rest) := by
  have hall : ∀ d ∈ s, decide (d ≠ c) = true := by
    intro d hd
    exact decide_eq_true fun heq => h (heq ▸ hd)
  rw [partition, String.toList_ofList, List.takeWhile_append_of_pos hall,
    List.dropWhile_append_of_pos hall]
  simp

/-- Stripping takes the white space around a text that begins and ends in a word. -/
theorem trim_eq {before value after : List Char} (hbefore : Blank before) (hvalue : Trimmed value)
    (hafter : Blank after) :
    Http.trim (String.ofList (before ++ (value ++ after))) = String.ofList value := by
  rw [Http.trim, String.toList_ofList, hvalue.strip_eq hbefore hafter]

/-! ## The ways a key is sent -/

/-- A text that may be a key: it is marked as one, and neither white space nor a colon is in it. -/
structure IsKey (key : String) : Prop where
  marked : marked key = true
  plain : ∀ c ∈ key.toList, isSpace c = false ∧ c ≠ ':'

theorem IsKey.isWord {key : String} (h : IsKey key) : IsWord key.toList where
  ne_nil hnil := by
    have hmarked := h.marked
    rw [ApiKeys.marked, hnil] at hmarked
    cases hmarked
  not_space c hc := (h.plain c hc).1

/-- A header's value that holds a key: under either scheme, in any case, or with none. -/
inductive Holds (key : String) : List Char → Prop where
  | bearer {scheme between : List Char} : Http.lower (String.ofList scheme) = "bearer" →
      Blank between → Holds key (scheme ++ ' ' :: (between ++ key.toList))
  | user {scheme between : List Char} (password : String) :
      Http.lower (String.ofList scheme) = "basic" → Blank between →
      Holds key (scheme ++ ' ' :: (between ++ base64 (utf8Bytes (key ++ ":" ++ password))))
  | password {scheme between : List Char} (user : String) :
      Http.lower (String.ofList scheme) = "basic" → Blank between → ':' ∉ user.toList →
      ApiKeys.marked user = false →
      Holds key (scheme ++ ' ' :: (between ++ base64 (utf8Bytes (user ++ ":" ++ key))))
  | bare : Holds key key.toList

variable {key : String} {scheme between value before after : List Char}

/-- The name of a scheme is a word. -/
theorem isWord_scheme {name : String} (hname : name = "bearer" ∨ name = "basic")
    (h : Http.lower (String.ofList scheme) = name) : IsWord scheme := by
  have hchars : scheme.map Http.lowerChar = name.toList := by
    rw [← h, Http.lower, String.toList_ofList, String.toList_ofList]
  have hplain : name.toList ≠ [] ∧ ∀ c ∈ name.toList, isSpace c = false := by
    rcases hname with rfl | rfl
    · exact ⟨by decide, forall_of_all (by decide)⟩
    · exact ⟨by decide, forall_of_all (by decide)⟩
  constructor
  · intro hnil
    rw [hnil] at hchars
    exact hplain.1 hchars.symm
  · intro c hc
    rw [← Http.isSpace_lowerChar]
    exact hplain.2 _ (hchars ▸ List.mem_map_of_mem hc)

theorem space_notMem {s : List Char} (h : IsWord s) : ' ' ∉ s := by
  intro hmem
  exact absurd (h.not_space ' ' hmem) (by decide)

/-- What stands after a scheme. -/
theorem partition_scheme (hscheme : IsWord scheme) (rest : List Char) :
    partition ' ' (String.ofList (scheme ++ ' ' :: rest)) =
      (String.ofList scheme, String.ofList rest) :=
  partition_eq (space_notMem hscheme) rest

theorem trim_rest (hbetween : Blank between) (hword : IsWord value) :
    Http.trim (String.ofList (between ++ value)) = String.ofList value := by
  have hnil : Blank [] := fun c hc => by cases hc
  have h := trim_eq hbetween hword.trimmed hnil
  rwa [List.append_nil] at h

theorem trimmed_scheme (hscheme : IsWord scheme) (hword : IsWord value) :
    Trimmed (scheme ++ ' ' :: (between ++ value)) :=
  hscheme.trimmed.append hword.trimmed (' ' :: between)

theorem isWord_base64 {s : String} (h : s.toList ≠ []) : IsWord (base64 (utf8Bytes s)) where
  ne_nil hnil := by
    have hread := b64decode_base64 (utf8Bytes s)
    rw [hnil] at hread
    have hempty : utf8Bytes s = [] := (Option.some.inj hread).symm
    obtain ⟨c, rest, hcons⟩ := List.exists_cons_of_ne_nil h
    rw [utf8Bytes, hcons, List.flatMap_cons, List.append_eq_nil_iff] at hempty
    exact String.utf8EncodeChar_ne_nil hempty.1
  not_space := isSpace_base64 _

theorem Holds.trimmed (hkey : IsKey key) (h : Holds key value) : Trimmed value := by
  cases h with
  | bearer hscheme _ => exact trimmed_scheme (isWord_scheme (.inl rfl) hscheme) hkey.isWord
  | user password hscheme _ =>
      exact trimmed_scheme (isWord_scheme (.inr rfl) hscheme) (isWord_base64 (by simp))
  | password user hscheme _ _ _ =>
      exact trimmed_scheme (isWord_scheme (.inr rfl) hscheme) (isWord_base64 (by simp))
  | bare => exact hkey.isWord.trimmed

/-- What stands in a `Basic` credential: the first of its two parts that is marked as a key. -/
theorem tokenIn_basic (hscheme : Http.lower (String.ofList scheme) = "basic")
    (hbetween : Blank between) {user password : String} (huser : ':' ∉ user.toList) :
    tokenIn (String.ofList
      (scheme ++ ' ' :: (between ++ base64 (utf8Bytes (user ++ ":" ++ password))))) =
        [user, password].find? ApiKeys.marked := by
  have hword : IsWord (base64 (utf8Bytes (user ++ ":" ++ password))) := isWord_base64 (by simp)
  have hparts : partition ':' (user ++ ":" ++ password) = (user, password) := by
    have h := partition_eq huser password.toList
    rw [String.ofList_toList, String.ofList_toList] at h
    rw [← h]
    exact congrArg _ (String.toList_inj.mp (by simp))
  have hother : "basic" ≠ "bearer" := by decide
  simp only [tokenIn, partition_scheme (isWord_scheme (.inr rfl) hscheme), hscheme, if_neg hother,
    if_true, trim_rest hbetween hword, String.toList_ofList, b64decode_base64,
    Option.bind_eq_bind, Option.bind_some, utf8?_utf8Bytes, hparts]

/-- The name of a scheme is not marked as a key. -/
theorem lower_marked (hmarked : ApiKeys.marked key = true) :
    Http.lower key ≠ "bearer" ∧ Http.lower key ≠ "basic" := by
  obtain ⟨rest, hrest⟩ := List.isPrefixOf_iff_prefix.mp hmarked
  have hfirst (name : String) (hname : name.toList.head? ≠ some 'p') : Http.lower key ≠ name := by
    intro h
    rw [← h, Http.lower, String.toList_ofList, ← hrest] at hname
    exact hname rfl
  exact ⟨hfirst _ (by decide), hfirst _ (by decide)⟩

/-- A key is found in every header that holds it. -/
theorem bearerToken_holds (hkey : IsKey key) (h : Holds key value) (hbefore : Blank before)
    (hafter : Blank after) :
    bearerToken (some (String.ofList (before ++ (value ++ after)))) = some key := by
  have hvalue := h.trimmed hkey
  have hne : String.ofList (before ++ (value ++ after)) ≠ "" := by
    intro hempty
    have hnil := congrArg String.toList hempty
    rw [String.toList_ofList] at hnil
    obtain ⟨w, rest, hw, hfront⟩ := hvalue.front
    simp only [hfront, String.toList_empty, List.append_eq_nil_iff] at hnil
    exact hw.ne_nil hnil.2.1.1
  rw [bearerToken, if_neg hne, trim_eq hbefore hvalue hafter]
  cases h with
  | bearer hscheme hbetween =>
      have hkeyNe : key ≠ "" := fun hempty => hkey.isWord.ne_nil (by rw [hempty]; rfl)
      simp only [tokenIn, partition_scheme (isWord_scheme (.inl rfl) hscheme), hscheme,
        trim_rest hbetween hkey.isWord, String.ofList_toList, nonempty, if_neg hkeyNe, if_true]
  | user password hscheme hbetween =>
      have hcolon : ':' ∉ key.toList := fun hmem => (hkey.plain ':' hmem).2 rfl
      rw [tokenIn_basic hscheme hbetween hcolon, List.find?_cons_of_pos hkey.marked]
  | password user hscheme hbetween hcolon hmarked =>
      rw [tokenIn_basic hscheme hbetween hcolon, List.find?_cons_of_neg (by simp [hmarked]),
        List.find?_cons_of_pos hkey.marked]
  | bare =>
      obtain ⟨hbearer, hbasic⟩ := lower_marked hkey.marked
      rw [String.ofList_toList, tokenIn, partition_of_notMem (space_notMem hkey.isWord)]
      simp only [if_neg hbearer, if_neg hbasic, hkey.marked, if_true]

end PcoMirror.ApiKeys
