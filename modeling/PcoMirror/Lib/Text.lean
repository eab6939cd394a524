import Mathlib

/-! Text, handled the way Python's string methods and `urllib.parse` handle it. -/

namespace Text

/-- What `str.split()` and `str.strip()` take for white space. -/
def isSpace (c : Char) : Bool :=
  let n := c.toNat
  (0x09 ≤ n && n ≤ 0x0d) || (0x1c ≤ n && n ≤ 0x20) || n = 0x85 || n = 0xa0 || n = 0x1680 ||
    (0x2000 ≤ n && n ≤ 0x200a) || n = 0x2028 || n = 0x2029 || n = 0x202f || n = 0x205f ||
    n = 0x3000

/-- `rstrip`, of the characters a condition picks. -/
def rstrip (p : Char → Bool) (s : List Char) : List Char :=
  (s.reverse.dropWhile p).reverse

def strip (s : List Char) : List Char :=
  rstrip isSpace (s.dropWhile isSpace)

/-- `trim(x)` of SQLite, which takes nothing but the space character for white space. -/
def sqlTrim (s : List Char) : List Char :=
  rstrip (· = ' ') (s.dropWhile (· = ' '))

/-- `split()` -/
def words (s : List Char) : List (List Char) :=
  (s.splitOnP isSpace).filter (!·.isEmpty)

/-- `split(sep)`, for a separator of two characters. -/
def splitPair (a b : Char) : List Char → List (List Char)
  | [] => [[]]
  | [c] => [[c]]
  | c :: d :: rest =>
    if c = a ∧ d = b then [] :: splitPair a b rest
    else match splitPair a b (d :: rest) with
      | head :: tail => (c :: head) :: tail
      | [] => [[c]]

/-- The parts of a text between commas. -/
def commas (s : String) : List String :=
  (s.toList.splitOn ',').map String.ofList

/-- `partition`: what stands before the first `c`, and what stands after it. -/
def partition (c : Char) (s : String) : String × String :=
  (String.ofList (s.toList.takeWhile (· ≠ c)), String.ofList ((s.toList.dropWhile (· ≠ c)).drop 1))

/-- `int`, of text in ASCII: a sign, and digits with single underscores between them, at
most 4300 of them. -/
def int? (s : List Char) : Option ℤ :=
  let body := strip s
  let digits := match body with
    | '-' :: rest | '+' :: rest => rest
    | rest => rest
  let groups := digits.splitOn '_'
  let value := groups.flatten.foldl (fun n c => n * 10 + ((c.toNat - '0'.toNat : ℕ) : ℤ)) 0
  if groups.all (fun g => !g.isEmpty && g.all Char.isDigit) && groups.flatten.length ≤ 4300 then
    some (if body.head? = some '-' then -value else value)
  else none

/-- Digits, with single underscores between them, or nothing. -/
def digits? (s : List Char) : Option (List Char) :=
  if s = [] then some []
  else
    let groups := s.splitOn '_'
    if groups.all fun g => !g.isEmpty && g.all Char.isDigit then some groups.flatten else none

/-- The sign of a number, and what follows it. -/
def signed : List Char → Bool × List Char
  | '-' :: rest => (true, rest)
  | '+' :: rest => (false, rest)
  | rest => (false, rest)

/-- `float`, of a finite number in ASCII. -/
def float? (s : List Char) : Option ℚ := do
  let (negative, unsigned) := signed (strip s)
  let (mantissa, exponent) := unsigned.span fun c => c ≠ 'e' && c ≠ 'E'
  let (whole, fraction) := mantissa.span fun c => c ≠ '.'
  let whole ← digits? whole
  let fraction ← digits? (fraction.drop 1)
  if whole = [] ∧ fraction = [] then none
  let power : ℤ ← match exponent with
    | [] => some 0
    | _ :: exponent => do
      let (negative, unsigned) := signed exponent
      let digits ← digits? unsigned
      if digits = [] then none
      some (if negative then -Nat.ofDigitChars 10 digits 0 else Nat.ofDigitChars 10 digits 0)
  let value : ℚ := Nat.ofDigitChars 10 (whole ++ fraction) 0 * 10 ^ (power - fraction.length)
  some (if negative then -value else value)

example : int? " -1_0 ".toList = some (-10) := by decide

example : float? "1_0.5e-1".toList = some (21 / 20) := by decide +kernel

example : splitPair ']' '[' "a][b]c".toList = ["a".toList, "b]c".toList] := by decide

/-! ### Blank text -/

theorem rstrip_dropWhile_eq_nil {p : Char → Bool} {s : List Char} :
    rstrip p (s.dropWhile p) = [] ↔ ∀ c ∈ s, p c = true := by
  rw [rstrip, List.reverse_eq_nil_iff, List.dropWhile_eq_nil_iff]
  simp only [List.mem_reverse]
  induction s with
  | nil => simp
  | cons c s ih =>
      rw [List.forall_mem_cons]
      by_cases hc : p c = true
      · simp [hc, ih]
      · simp [hc]

/-- What strips to nothing is white space throughout. -/
theorem strip_eq_nil {s : List Char} : strip s = [] ↔ ∀ c ∈ s, isSpace c = true :=
  rstrip_dropWhile_eq_nil

theorem sqlTrim_eq_nil {s : List Char} : sqlTrim s = [] ↔ ∀ c ∈ s, c = ' ' := by
  rw [sqlTrim, rstrip_dropWhile_eq_nil]
  simp

/-! ### Parts -/

/-- What no character of a text is, looked at one by one. -/
theorem forall_of_all {p : Char → Bool} {s : List Char} (h : s.all (fun c => !p c) = true) :
    ∀ c ∈ s, p c = false := by
  intro c hc
  simpa using List.all_eq_true.mp h c hc

theorem partition_of_notMem {c : Char} {s : String} (h : c ∉ s.toList) : partition c s = (s, "") := by
  have hall : ∀ d ∈ s.toList, (decide (d ≠ c)) = true := by
    intro d hd
    exact decide_eq_true fun heq => h (heq ▸ hd)
  have htake : s.toList.takeWhile (· ≠ c) = s.toList := by
    rw [List.takeWhile_eq_self_iff]
    exact hall
  have hdrop : s.toList.dropWhile (· ≠ c) = [] := by
    rw [List.dropWhile_eq_nil_iff]
    exact hall
  rw [partition, htake, hdrop, String.ofList_toList]
  rfl

theorem splitOn_of_mem {c : Char} {s : List Char} (h : c ∈ s) :
    s.splitOn c = s.takeWhile (· ≠ c) :: ((s.dropWhile (· ≠ c)).drop 1).splitOn c := by
  induction s with
  | nil => cases h
  | cons d rest ih =>
      rw [List.splitOn_cons_eq_if_modifyHead]
      by_cases hd : d = c
      · simp [hd]
      · have hrest : c ∈ rest := (List.mem_cons.mp h).resolve_left fun heq => hd heq.symm
        simp [hd, ih hrest]

/-- What stands before the first `c` is the first part of the text. -/
theorem splitOn_partition {c : Char} {s : String} (h : c ∈ s.toList) :
    (s.toList.splitOn c).map String.ofList =
      (partition c s).1 :: ((partition c s).2.toList.splitOn c).map String.ofList := by
  rw [splitOn_of_mem h, partition, List.map_cons, String.toList_ofList]

/-! ### Numbers -/

/-- How many digits a number may have that is read or written. -/
def digitLimit : ℕ := 4300

theorem foldl_digits (digits : List Char) (n : ℕ) :
    digits.foldl (fun (n : ℤ) c => n * 10 + ((c.toNat - '0'.toNat : ℕ) : ℤ)) n =
      (Nat.ofDigitChars 10 digits n : ℕ) := by
  induction digits generalizing n with
  | nil => rfl
  | cons c digits ih =>
      rw [List.foldl_cons, Nat.ofDigitChars_cons, ← ih]
      congr 1
      push_cast
      omega

theorem dropWhile_of_forall_not {p : Char → Bool} {s : List Char} (h : ∀ c ∈ s, p c = false) :
    s.dropWhile p = s := by
  cases s with
  | nil => rfl
  | cons c s => exact List.dropWhile_cons_of_neg (by simp [h c (.head _)])

/-- No blank stands in the digits of a number. -/
theorem strip_toDigits (n : ℕ) : strip (Nat.toDigits 10 n) = Nat.toDigits 10 n := by
  have hblank : ∀ c ∈ Nat.toDigits 10 n, isSpace c = false := by
    intro c hc
    have h := Nat.isDigit_of_mem_toDigits (by decide) (by decide) hc
    simp only [Char.isDigit, Bool.and_eq_true, decide_eq_true_eq, ge_iff_le,
      UInt32.le_iff_toNat_le] at h
    have hlow : 48 ≤ c.toNat := h.1
    have hhigh : c.toNat ≤ 57 := h.2
    simp only [isSpace, Bool.or_eq_false_iff, Bool.and_eq_false_iff, decide_eq_false_iff_not]
    omega
  rw [strip, dropWhile_of_forall_not hblank, rstrip, dropWhile_of_forall_not
    (fun c hc => hblank c (List.mem_reverse.mp hc)), List.reverse_reverse]

/-- A number that is not too long reads back. -/
theorem int?_toString {n : ℕ} (h : n < 10 ^ digitLimit) : int? (toString n).toList = some (n : ℤ) := by
  have hdigit : ∀ c ∈ Nat.toDigits 10 n, c.isDigit = true :=
    fun c hc => Nat.isDigit_of_mem_toDigits (by decide) (by decide) hc
  have hsplit : (Nat.toDigits 10 n).splitOn '_' = [Nat.toDigits 10 n] := by
    refine List.splitOn_eq_singleton fun hmem => ?_
    exact absurd (hdigit '_' hmem) (by decide)
  have hlength : (Nat.toDigits 10 n).length ≤ 4300 :=
    show _ ≤ digitLimit from (Nat.length_toDigits_le_iff (by decide) (by decide)).mpr h
  have hvalue : (Nat.toDigits 10 n).foldl
      (fun (n : ℤ) c => n * 10 + ((c.toNat - '0'.toNat : ℕ) : ℤ)) 0 = n :=
    (foldl_digits _ 0).trans (by rw [Nat.ofDigitChars_ten_toDigits])
  obtain ⟨d, ds, hcons⟩ := List.exists_cons_of_ne_nil (Nat.toDigits_ne_nil (n := n) (b := 10))
  have hminus : d ≠ '-' := by
    rintro rfl
    exact absurd (hdigit '-' (by rw [hcons]; exact .head _)) (by decide)
  have hplus : d ≠ '+' := by
    rintro rfl
    exact absurd (hdigit '+' (by rw [hcons]; exact .head _)) (by decide)
  have hhead : (Nat.toDigits 10 n).head? ≠ some '-' := by
    rw [hcons]
    exact fun h => hminus (Option.some.inj h)
  have hall : [Nat.toDigits 10 n].all (fun g => !g.isEmpty && g.all Char.isDigit) = true := by
    simp only [List.all_cons, List.all_nil, Bool.and_true, Bool.and_eq_true, List.all_eq_true]
    exact ⟨by simp [hcons], hdigit⟩
  rw [Nat.toString_eq_ofList_toDigits, String.toList_ofList, int?, strip_toDigits]
  split
  · rename_i heq
    exact absurd (List.cons_eq_cons.mp (hcons.symm.trans heq)).1 hminus
  · rename_i heq
    exact absurd (List.cons_eq_cons.mp (hcons.symm.trans heq)).1 hplus
  · simp only [hsplit, hall, List.flatten_singleton, hlength, hvalue, hhead, decide_true,
      Bool.and_true, if_true, if_false]

theorem ofDigitChars_lt (digits : List Char) (n : ℕ) (h : ∀ c ∈ digits, c.isDigit = true) :
    Nat.ofDigitChars 10 digits n < (n + 1) * 10 ^ digits.length := by
  induction digits generalizing n with
  | nil => simp
  | cons c digits ih =>
      have hc := h c (.head _)
      simp only [Char.isDigit, Bool.and_eq_true, decide_eq_true_eq, ge_iff_le,
        UInt32.le_iff_toNat_le] at hc
      have hdigit : c.toNat - '0'.toNat + 1 ≤ 10 := by
        have hhigh : c.toNat ≤ 57 := hc.2
        have hzero : '0'.toNat = 48 := rfl
        omega
      rw [Nat.ofDigitChars_cons, List.length_cons, pow_succ']
      calc Nat.ofDigitChars 10 digits (10 * n + (c.toNat - '0'.toNat))
          < (10 * n + (c.toNat - '0'.toNat) + 1) * 10 ^ digits.length :=
            ih _ fun d hd => h d (.tail _ hd)
        _ ≤ ((n + 1) * 10) * 10 ^ digits.length := Nat.mul_le_mul_right _ (by omega)
        _ = (n + 1) * (10 * 10 ^ digits.length) := Nat.mul_assoc _ _ _

/-- What is read is not too long to be written. -/
theorem natAbs_lt_of_int? {s : List Char} {n : ℤ} (h : int? s = some n) : n.natAbs < 10 ^ digitLimit := by
  have hvalue (groups : List (List Char))
      (hgroups : groups.all (fun g => !g.isEmpty && g.all Char.isDigit) = true)
      (hlength : groups.flatten.length ≤ 4300) :
      Nat.ofDigitChars 10 groups.flatten 0 < 10 ^ digitLimit := by
    have hdigits : ∀ c ∈ groups.flatten, c.isDigit = true := by
      intro c hc
      obtain ⟨group, hgroup, hc⟩ := List.mem_flatten.mp hc
      have hall := List.all_eq_true.mp hgroups group hgroup
      rw [Bool.and_eq_true] at hall
      exact List.all_eq_true.mp hall.2 c hc
    calc Nat.ofDigitChars 10 groups.flatten 0
        < (0 + 1) * 10 ^ groups.flatten.length := ofDigitChars_lt _ 0 hdigits
      _ = 10 ^ groups.flatten.length := by rw [Nat.zero_add, Nat.one_mul]
      _ ≤ 10 ^ digitLimit := Nat.pow_le_pow_right (by decide) hlength
  have hread (groups : List (List Char)) (negative : Bool)
      (h : (if groups.all (fun g => !g.isEmpty && g.all Char.isDigit) &&
          groups.flatten.length ≤ 4300 then
        some (if negative then
          -groups.flatten.foldl (fun n c => n * 10 + ((c.toNat - '0'.toNat : ℕ) : ℤ)) 0
          else groups.flatten.foldl (fun n c => n * 10 + ((c.toNat - '0'.toNat : ℕ) : ℤ)) 0)
        else none) = some n) : n.natAbs < 10 ^ digitLimit := by
    split at h
    · case isTrue hcond =>
        rw [Bool.and_eq_true, decide_eq_true_eq] at hcond
        have hlt := hvalue groups hcond.1 hcond.2
        have hfold := foldl_digits groups.flatten 0
        rw [Nat.cast_zero] at hfold
        rw [hfold] at h
        cases negative <;> cases h <;> simpa using hlt
    · cases h
  rw [int?] at h
  exact hread _ (decide ((strip s).head? = some '-')) (by simpa using h)

/-- A number that is not zero is not written with a zero in front. -/
theorem head?_toDigits_ne_zero {n : ℕ} (h : n ≠ 0) : (Nat.toDigits 10 n).head? ≠ some '0' := by
  induction n using Nat.strong_induction_on with
  | _ n ih =>
      by_cases hlt : n < 10
      · have hsmall : ∀ m < 10, m ≠ 0 → [m.digitChar].head? ≠ some '0' := by decide
        rw [Nat.toDigits_of_lt_base hlt]
        exact hsmall n hlt h
      · rw [Nat.toDigits_of_base_le (by decide) (by omega)]
        have hrest := ih (n / 10) (by omega) (by omega)
        rw [List.head?_append_of_ne_nil _ Nat.toDigits_ne_nil]
        exact hrest

/-! ## Query strings -/

/-- One byte of a percent-encoded character. -/
def percent (b : UInt8) : String :=
  String.ofList ['%', (Nat.digitChar (b.toNat / 16)).toUpper, (Nat.digitChar (b.toNat % 16)).toUpper]

/-- `quote_plus`, with some characters kept as they are. -/
def quotePlus (safe : Char → Bool) (s : String) : String :=
  String.join (s.toList.map fun c =>
    if c = ' ' then "+"
    else if c.isAlphanum || c = '_' || c = '.' || c = '-' || c = '~' || safe c then c.toString
    else String.join ((String.utf8EncodeChar c).map percent))

/-- `urlencode` -/
def urlencode (safe : Char → Bool) (pairs : List (String × String)) : String :=
  String.intercalate "&" (pairs.map fun (k, v) => quotePlus safe k ++ "=" ++ quotePlus safe v)

example : quotePlus (fun c => c = '[' || c = ']') "where[name] é/" = "where[name]+%C3%A9%2F" := by
  decide +kernel

end Text
