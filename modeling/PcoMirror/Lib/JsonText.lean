import PcoMirror.Lib.Json
import PcoMirror.Lib.Text

/-! JSON text with the separators of `json.dumps`, the reader `json.loads`, and the documents that
come back from the text they are written in. -/

namespace Json

/-! ## Writing -/

mutual

/-- `json.dumps`, as characters. -/
def write : Json → List Char
  | null => "null".toList
  | bool b => if b then "true".toList else "false".toList
  | int n => (toString n).toList
  | real text => text.toList
  | str s => (renderString s).toList
  | arr items => '[' :: (writeItems items ++ [']'])
  | obj members => '\x7b' :: (writeMembers members ++ ['\x7d'])

def writeItems : List Json → List Char
  | [] => []
  | [x] => write x
  | x :: y :: rest => write x ++ ',' :: ' ' :: writeItems (y :: rest)

def writeMembers : List (String × Json) → List Char
  | [] => []
  | [(k, v)] => (renderString k).toList ++ ':' :: ' ' :: write v
  | (k, v) :: kv :: rest =>
    (renderString k).toList ++ ':' :: ' ' :: (write v ++ ',' :: ' ' :: writeMembers (kv :: rest))

end

/-- `json.dumps` -/
def dumps (j : Json) : String :=
  String.ofList j.write

/-! ## Reading -/

/-- What may stand between the parts of a document. -/
def isBlank (c : Char) : Bool :=
  c = ' ' || c = '\t' || c = '\n' || c = '\r'

def skip (s : List Char) : List Char :=
  s.dropWhile isBlank

def hexDigit? (c : Char) : Option ℕ :=
  if '0' ≤ c ∧ c ≤ '9' then some (c.toNat - '0'.toNat)
  else if 'a' ≤ c ∧ c ≤ 'f' then some (c.toNat - 'a'.toNat + 10)
  else if 'A' ≤ c ∧ c ≤ 'F' then some (c.toNat - 'A'.toNat + 10)
  else none

/-- Four hexadecimal digits. -/
def scanHex : List Char → Option (ℕ × List Char)
  | a :: b :: c :: d :: rest => do
    let a ← hexDigit? a
    let b ← hexDigit? b
    let c ← hexDigit? c
    let d ← hexDigit? d
    return (a * 4096 + b * 256 + c * 16 + d, rest)
  | _ => none

/-- What follows `\u`. One half of a pair without the other is no character. -/
def scanUnicode (s : List Char) : Option (Char × List Char) := do
  let (n, rest) ← scanHex s
  if n < 0xd800 ∨ 0xdfff < n then return (Char.ofNat n, rest)
  match rest with
  | '\\' :: 'u' :: rest => do
    let (low, rest) ← scanHex rest
    if n < 0xdc00 ∧ 0xdc00 ≤ low ∧ low ≤ 0xdfff then
      return (Char.ofNat (0x10000 + (n - 0xd800) * 0x400 + (low - 0xdc00)), rest)
    else none
  | _ => none

/-- What one character after a backslash stands for. -/
def unescape? (c : Char) : Option Char :=
  match c with
  | '"' => some '"'
  | '\\' => some '\\'
  | '/' => some '/'
  | 'b' => some '\x08'
  | 'f' => some '\x0c'
  | 'n' => some '\n'
  | 'r' => some '\r'
  | 't' => some '\t'
  | _ => none

/-- One character of a string, which is not the quote that ends it. -/
def scanChar : List Char → Option (Char × List Char)
  | [] => none
  | c :: rest =>
    if c = '\\' then
      match rest with
      | [] => none
      | 'u' :: rest => scanUnicode rest
      | c :: rest => (unescape? c).map (·, rest)
    else if c.toNat < 0x20 then none
    else some (c, rest)

/-- A string, after the quote that opens it. -/
def scanString : ℕ → List Char → Option (List Char × List Char)
  | 0, _ => none
  | _ + 1, '"' :: rest => some ([], rest)
  | fuel + 1, s => do
    let (c, rest) ← scanChar s
    let (cs, rest) ← scanString fuel rest
    return (c :: cs, rest)

/-- `(\.\d+)?` -/
def scanFraction : List Char → List Char
  | '.' :: rest =>
    let digits := rest.takeWhile Char.isDigit
    if digits.isEmpty then [] else '.' :: digits
  | _ => []

/-- `([eE][-+]?\d+)?` -/
def scanExponent : List Char → List Char
  | [] => []
  | e :: rest =>
    if e = 'e' ∨ e = 'E' then
      let sign := rest.take (if rest.head? = some '-' ∨ rest.head? = some '+' then 1 else 0)
      let digits := (rest.drop sign.length).takeWhile Char.isDigit
      if digits.isEmpty then [] else e :: sign ++ digits
    else []

/-- `(0|[1-9]\d*)` -/
def scanWhole (s : List Char) : List Char :=
  if s.head? = some '0' then ['0'] else s.takeWhile Char.isDigit

/-- A number: an integer of at most 4300 digits, or a fraction. -/
def scanNumber (s : List Char) : Option (Json × List Char) :=
  let sign := s.take (if s.head? = some '-' then 1 else 0)
  let body := s.drop sign.length
  let whole := scanWhole body
  let rest := body.drop whole.length
  let fraction := scanFraction rest
  let rest := rest.drop fraction.length
  let exponent := scanExponent rest
  let rest := rest.drop exponent.length
  if whole.isEmpty then none
  else if !fraction.isEmpty || !exponent.isEmpty then
    some (real (String.ofList (sign ++ whole ++ fraction ++ exponent)), rest)
  else if whole.length ≤ 4300 then
    let n : ℤ := Nat.ofDigitChars 10 whole 0
    some (int (if sign.isEmpty then n else -n), rest)
  else none

/-- The documents that are spelled one way. -/
def literals : List (List Char × Json) :=
  [("null".toList, null), ("true".toList, bool true), ("false".toList, bool false),
    ("NaN".toList, real "NaN"), ("Infinity".toList, real "Infinity"),
    ("-Infinity".toList, real "-Infinity")]

def scanLiteral (s : List Char) : Option (Json × List Char) :=
  (literals.find? (·.1.isPrefixOf s)).map fun (text, value) => (value, s.drop text.length)

mutual

/-- `scan_once` -/
def scanValue : ℕ → List Char → Option (Json × List Char)
  | 0, _ => none
  | fuel + 1, s =>
    match s with
    | '"' :: rest =>
      (scanString (rest.length + 1) rest).map fun (cs, rest) => (str (String.ofList cs), rest)
    | '[' :: rest =>
      match skip rest with
      | ']' :: rest => some (arr [], rest)
      | rest => (scanItems fuel rest).map fun (items, rest) => (arr items, rest)
    | '\x7b' :: rest =>
      match skip rest with
      | '\x7d' :: rest => some (obj [], rest)
      | rest => (scanMembers fuel rest).map fun (members, rest) =>
          -- A key that comes again keeps its place, with the later value.
          (obj (members.foldl (fun held m => assign m.1 m.2 held) []), rest)
    | s => (scanLiteral s).or (scanNumber s)

/-- The entries of an array, and the bracket after them. -/
def scanItems : ℕ → List Char → Option (List Json × List Char)
  | 0, _ => none
  | fuel + 1, s => do
    let (item, rest) ← scanValue fuel s
    match skip rest with
    | ']' :: rest => return ([item], rest)
    | ',' :: rest => do
      let (items, rest) ← scanItems fuel (skip rest)
      return (item :: items, rest)
    | _ => none

/-- The members of an object, and the brace after them. -/
def scanMembers : ℕ → List Char → Option (List (String × Json) × List Char)
  | 0, _ => none
  | fuel + 1, '"' :: s => do
    let (key, rest) ← scanString (s.length + 1) s
    match skip rest with
    | ':' :: rest => do
      let (value, rest) ← scanValue fuel (skip rest)
      match skip rest with
      | '\x7d' :: rest => return ([(String.ofList key, value)], rest)
      | ',' :: rest => do
        let (members, rest) ← scanMembers fuel (skip rest)
        return ((String.ofList key, value) :: members, rest)
      | _ => none
    | _ => none
  | _ + 1, _ => none

end

/-- `json.loads` -/
def loads (text : String) : Option Json := do
  let (value, rest) ← scanValue (text.length + 1) (skip text.toList)
  if skip rest = [] then some value else none

example : loads " \x7b\"a\": [1, -20, \"\\ud83d\\ude00\"], \"a\": 0.5e1\x7d" =
    some (.obj [("a", .real "0.5e1")]) := by decide +kernel

/-! ## Characters and strings -/

theorem hexDigit?_digitChar : ∀ n < 16, hexDigit? (Nat.digitChar n) = some n := by
  decide

theorem scanHex_hex4 {n : ℕ} (h : n < 0x10000) (rest : List Char) :
    scanHex ((hex4 n).toList ++ rest) = some (n, rest) := by
  have hsum : n / 4096 % 16 * 4096 + n / 256 % 16 * 256 + n / 16 % 16 * 16 + n % 16 = n := by
    omega
  simp only [hex4, String.toList_ofList, List.cons_append, List.nil_append, scanHex]
  rw [hexDigit?_digitChar _ (by omega), hexDigit?_digitChar _ (by omega),
    hexDigit?_digitChar _ (by omega), hexDigit?_digitChar _ (by omega)]
  simp only [Option.bind_eq_bind, Option.bind_some, hsum]
  rfl

theorem toNat_valid (c : Char) : c.toNat < 0xd800 ∨ 0xdfff < c.toNat ∧ c.toNat < 0x110000 :=
  c.valid

theorem scanUnicode_of_single {n : ℕ} {s rest : List Char} (hn : scanHex s = some (n, rest))
    (hplain : n < 0xd800 ∨ 0xdfff < n) : scanUnicode s = some (Char.ofNat n, rest) := by
  rw [scanUnicode, hn]
  simp only [Option.bind_eq_bind, Option.bind_some]
  rw [if_pos hplain]
  rfl

theorem scanUnicode_of_pair {high low : ℕ} {s t rest : List Char}
    (hhigh : scanHex s = some (high, '\\' :: 'u' :: t)) (hlow : scanHex t = some (low, rest))
    (hfirst : 0xd800 ≤ high ∧ high < 0xdc00) (hsecond : 0xdc00 ≤ low ∧ low ≤ 0xdfff) :
    scanUnicode s =
      some (Char.ofNat (0x10000 + (high - 0xd800) * 0x400 + (low - 0xdc00)), rest) := by
  rw [scanUnicode, hhigh]
  simp only [Option.bind_eq_bind, Option.bind_some, hlow]
  rw [if_neg (by omega), if_pos (by omega)]
  rfl

theorem toList_unicode : "\\u".toList = ['\\', 'u'] := rfl

theorem scanChar_unicode (s : List Char) : scanChar (['\\', 'u'] ++ s) = scanUnicode s := rfl

/-- A character comes back from the text it is written in. -/
theorem scanChar_escapeChar (c : Char) (rest : List Char) :
    scanChar ((escapeChar c).toList ++ rest) = some (c, rest) := by
  have hchar {n : ℕ} (h : c.toNat = n) : c = Char.ofNat n := by
    rw [← h, Char.ofNat_toNat]
  have hvalid := toNat_valid c
  rw [escapeChar]
  split_ifs with hquote hslash hline hreturn htab hback hfeed hplain hsmall
  · exact hchar hquote ▸ rfl
  · exact hchar hslash ▸ rfl
  · exact hchar hline ▸ rfl
  · exact hchar hreturn ▸ rfl
  · exact hchar htab ▸ rfl
  · exact hchar hback ▸ rfl
  · exact hchar hfeed ▸ rfl
  · have hne : c ≠ '\\' := fun h => hslash (h ▸ rfl)
    rw [Char.toString, String.toList_singleton, List.singleton_append, scanChar.eq_def]
    simp only [if_neg hne, if_neg (show ¬c.toNat < 0x20 by omega)]
  · rw [String.toList_append, toList_unicode, List.append_assoc, scanChar_unicode,
      scanUnicode_of_single (scanHex_hex4 hsmall rest) (by omega), Char.ofNat_toNat]
  · have hcode : 0x10000 + (0xd800 + (c.toNat - 0x10000) / 0x400 - 0xd800) * 0x400 +
        (0xdc00 + (c.toNat - 0x10000) % 0x400 - 0xdc00) = c.toNat := by omega
    simp only [String.toList_append, toList_unicode, List.append_assoc]
    rw [scanChar_unicode, List.cons_append, List.cons_append, List.nil_append,
      scanUnicode_of_pair (scanHex_hex4 (by omega) _) (scanHex_hex4 (by omega) rest) (by omega)
      (by omega), hcode, Char.ofNat_toNat]

/-- No quote starts the text of a character. -/
theorem escapeChar_opens (c : Char) : ∃ d ds, (escapeChar c).toList = d :: ds ∧ d ≠ '"' := by
  have hunicode (s : String) : ("\\u" ++ s).toList = '\\' :: 'u' :: s.toList := by
    rw [String.toList_append, toList_unicode, List.cons_append, List.cons_append, List.nil_append]
  rw [escapeChar]
  split_ifs with hquote hslash hline hreturn htab hback hfeed hplain hsmall
  · exact ⟨'\\', ['"'], rfl, by decide⟩
  · exact ⟨'\\', ['\\'], rfl, by decide⟩
  · exact ⟨'\\', ['n'], rfl, by decide⟩
  · exact ⟨'\\', ['r'], rfl, by decide⟩
  · exact ⟨'\\', ['t'], rfl, by decide⟩
  · exact ⟨'\\', ['b'], rfl, by decide⟩
  · exact ⟨'\\', ['f'], rfl, by decide⟩
  · exact ⟨c, [], String.toList_singleton c, fun h => hquote (h ▸ rfl)⟩
  · exact ⟨'\\', _, hunicode _, by decide⟩
  · exact ⟨'\\', _, by rw [String.append_assoc, String.append_assoc, hunicode], by decide⟩

theorem scanString_escape (cs : List Char) {fuel : ℕ} (rest : List Char) (hfuel : cs.length < fuel) :
    scanString fuel (cs.flatMap (fun c => (escapeChar c).toList) ++ '"' :: rest) =
      some (cs, rest) := by
  induction cs generalizing fuel with
  | nil =>
      cases fuel with
      | zero => cases hfuel
      | succ fuel => rfl
  | cons c cs ih =>
      cases fuel with
      | zero => cases hfuel
      | succ fuel =>
          obtain ⟨d, ds, hopens, hd⟩ := escapeChar_opens c
          have hchar := scanChar_escapeChar c
            (cs.flatMap (fun c => (escapeChar c).toList) ++ '"' :: rest)
          rw [List.flatMap_cons, List.append_assoc]
          rw [hopens] at hchar ⊢
          rw [List.cons_append] at hchar ⊢
          rw [scanString, hchar]
          · simp only [Option.bind_eq_bind, Option.bind_some]
            rw [ih (Nat.lt_of_succ_lt_succ hfuel)]
            rfl
          · exact fun rest h => hd (List.cons_eq_cons.mp h).1

/-! ## Numbers -/

/-- What follows a number does not go on with it. -/
def Ends (rest : List Char) : Prop :=
  ∀ c ∈ rest.head?, c.isDigit = false ∧ c ≠ '.' ∧ c ≠ 'e' ∧ c ≠ 'E'

theorem isDigit_toDigits {n : ℕ} {c : Char} (h : c ∈ Nat.toDigits 10 n) : c.isDigit = true :=
  Nat.isDigit_of_mem_toDigits (by decide) (by decide) h

theorem exists_toDigits (n : ℕ) : ∃ d ds, Nat.toDigits 10 n = d :: ds ∧ d.isDigit = true := by
  obtain ⟨d, ds, hcons⟩ := List.exists_cons_of_ne_nil (Nat.toDigits_ne_nil (n := n) (b := 10))
  exact ⟨d, ds, hcons, isDigit_toDigits (hcons ▸ List.mem_cons_self)⟩

theorem scanWhole_toDigits (n : ℕ) {rest : List Char} (hrest : Ends rest) :
    scanWhole (Nat.toDigits 10 n ++ rest) = Nat.toDigits 10 n := by
  by_cases hn : n = 0
  · subst hn
    rfl
  · have hhead : (Nat.toDigits 10 n ++ rest).head? ≠ some '0' := by
      rw [List.head?_append_of_ne_nil _ Nat.toDigits_ne_nil]
      exact Text.head?_toDigits_ne_zero hn
    have hstop : rest.takeWhile Char.isDigit = [] := by
      cases rest with
      | nil => rfl
      | cons c rest => exact List.takeWhile_cons_of_neg (by simp [(hrest c rfl).1])
    rw [scanWhole, if_neg hhead, List.takeWhile_append_of_pos fun c hc => isDigit_toDigits hc,
      hstop, List.append_nil]

theorem scanFraction_eq_nil {rest : List Char} (hrest : Ends rest) : scanFraction rest = [] := by
  rw [scanFraction.eq_def]
  split
  · exact absurd rfl (hrest '.' rfl).2.1
  · rfl

theorem scanExponent_eq_nil {rest : List Char} (hrest : Ends rest) : scanExponent rest = [] := by
  cases rest with
  | nil => rfl
  | cons c rest =>
      have hc := hrest c rfl
      rw [scanExponent, if_neg (by tauto)]

/-- A whole number, after its sign. -/
theorem scanNumber_digits (sign : List Char) {s rest : List Char} {n : ℕ}
    (hsign : s.take (if s.head? = some '-' then 1 else 0) = sign)
    (hbody : s.drop sign.length = Nat.toDigits 10 n ++ rest) (hn : n < 10 ^ Text.digitLimit)
    (hrest : Ends rest) :
    scanNumber s = some (int (if sign.isEmpty then n else -n), rest) := by
  have hlength : (Nat.toDigits 10 n).length ≤ 4300 :=
    show _ ≤ Text.digitLimit from (Nat.length_toDigits_le_iff (by decide) (by decide)).mpr hn
  have hne : (Nat.toDigits 10 n).isEmpty = false := by
    simp
  rw [scanNumber]
  simp only [hsign, hbody, scanWhole_toDigits n hrest, List.drop_left, scanFraction_eq_nil hrest,
    List.length_nil, List.drop_zero, scanExponent_eq_nil hrest, hne, List.isEmpty_nil,
    Bool.not_true, Bool.or_self, Bool.false_eq_true, if_false, hlength, if_true,
    Nat.ofDigitChars_ten_toDigits]

theorem scanNumber_toString {n : ℤ} (hn : n.natAbs < 10 ^ Text.digitLimit) {rest : List Char}
    (hrest : Ends rest) : scanNumber ((toString n).toList ++ rest) = some (int n, rest) := by
  cases n with
  | ofNat n =>
      obtain ⟨d, ds, hcons, hd⟩ := exists_toDigits n
      have hminus : d ≠ '-' := by
        rintro rfl
        cases hd
      have htext : (toString (Int.ofNat n)).toList = Nat.toDigits 10 n := Nat.toList_repr
      have hhead : (Nat.toDigits 10 n ++ rest).head? ≠ some '-' := by
        rw [hcons]
        exact fun h => hminus (Option.some.inj h)
      have hread : scanNumber (Nat.toDigits 10 n ++ rest) = some (int n, rest) :=
        scanNumber_digits [] (by rw [if_neg hhead, List.take_zero]) rfl hn hrest
      rw [htext, hread]
      rfl
  | negSucc n =>
      have htext : (toString (Int.negSucc n)).toList = '-' :: Nat.toDigits 10 (n + 1) := by
        change ("-" ++ (n + 1).repr).toList = _
        rw [String.toList_append, Nat.toList_repr]
        rfl
      rw [htext, List.cons_append, scanNumber_digits ['-'] rfl rfl hn hrest]
      rfl

/-- The text of a number, whose first digit comes after a sign or at once. -/
theorem toString_opens (n : ℤ) : ∃ d ds, d.isDigit = true ∧
    ((toString n).toList = d :: ds ∨ (toString n).toList = '-' :: d :: ds) := by
  cases n with
  | ofNat n =>
      obtain ⟨d, ds, hcons, hd⟩ := exists_toDigits n
      exact ⟨d, ds, hd, .inl (Nat.toList_repr.trans hcons)⟩
  | negSucc n =>
      obtain ⟨d, ds, hcons, hd⟩ := exists_toDigits (n + 1)
      refine ⟨d, ds, hd, .inr ?_⟩
      change ("-" ++ (n + 1).repr).toList = _
      rw [String.toList_append, Nat.toList_repr, hcons]
      rfl

theorem ne_of_isDigit {c d : Char} (hc : c.isDigit = true) (hd : d.isDigit = false) : c ≠ d := by
  rintro rfl
  exact Bool.false_ne_true (hd.symm.trans hc)

/-- No number is spelled like a literal. -/
theorem scanLiteral_eq_none {d : Char} {s : List Char} (hd : d.isDigit = true) :
    scanLiteral (d :: s) = none ∧ scanLiteral ('-' :: d :: s) = none := by
  have hne (c : Char) (hc : c.isDigit = false) : (c == d) = false :=
    beq_false_of_ne (ne_of_isDigit hd hc).symm
  simp only [scanLiteral, literals, Option.map_eq_none_iff, List.find?_eq_none]
  constructor
  all_goals
    intro literal hliteral
    simp only [List.mem_cons, List.not_mem_nil, or_false] at hliteral
    rcases hliteral with rfl | rfl | rfl | rfl | rfl | rfl
    all_goals simp [List.isPrefixOf, hne]

theorem scanValue_of_ne {c : Char} {s : List Char} (fuel : ℕ)
    (hc : c ≠ '"' ∧ c ≠ '[' ∧ c ≠ '\x7b') :
    scanValue (fuel + 1) (c :: s) = (scanLiteral (c :: s)).or (scanNumber (c :: s)) := by
  rw [scanValue]
  · exact fun rest h => hc.1 (List.cons_eq_cons.mp h).1
  · exact fun rest h => hc.2.1 (List.cons_eq_cons.mp h).1
  · exact fun rest h => hc.2.2 (List.cons_eq_cons.mp h).1

theorem scanValue_int {n : ℤ} (hn : n.natAbs < 10 ^ Text.digitLimit) {rest : List Char}
    (hrest : Ends rest) (fuel : ℕ) :
    scanValue (fuel + 1) ((toString n).toList ++ rest) = some (int n, rest) := by
  obtain ⟨d, ds, hd, htext⟩ := toString_opens n
  have hnumber := scanNumber_toString hn hrest
  rcases htext with htext | htext
  · rw [htext, List.cons_append] at hnumber ⊢
    rw [scanValue_of_ne fuel ⟨ne_of_isDigit hd rfl, ne_of_isDigit hd rfl, ne_of_isDigit hd rfl⟩,
      (scanLiteral_eq_none hd).1, Option.none_or, hnumber]
  · rw [htext, List.cons_append, List.cons_append] at hnumber ⊢
    rw [scanValue_of_ne fuel ⟨by decide, by decide, by decide⟩, (scanLiteral_eq_none hd).2,
      Option.none_or, hnumber]

/-! ## Documents -/

/-- A document that its text gives back: no fraction in it, whose text is its own affair, no number
longer than what is read, and no key twice. -/
inductive Plain : Json → Prop where
  | null : Plain null
  | bool (b) : Plain (bool b)
  | int {n : ℤ} (h : n.natAbs < 10 ^ Text.digitLimit) : Plain (int n)
  | str (s) : Plain (str s)
  | arr {items} (h : ∀ item ∈ items, Plain item) : Plain (arr items)
  | obj {members} (hkeys : (members.map Prod.fst).Nodup) (h : ∀ m ∈ members, Plain m.2) :
      Plain (obj members)

theorem toList_renderString (s : String) : (renderString s).toList =
    '"' :: (s.toList.flatMap (fun c => (escapeChar c).toList) ++ ['"']) := by
  rw [renderString, String.toList_append, String.toList_append, String.toList_join,
    List.flatMap_map]
  rfl

theorem scanString_render (s : String) (rest : List Char) :
    scanString ((s.toList.flatMap (fun c => (escapeChar c).toList) ++ '"' :: rest).length + 1)
        (s.toList.flatMap (fun c => (escapeChar c).toList) ++ '"' :: rest) =
      some (s.toList, rest) := by
  have hgrow (cs : List Char) :
      cs.length ≤ (cs.flatMap (fun c => (escapeChar c).toList)).length := by
    induction cs with
    | nil => exact Nat.zero_le _
    | cons c cs ih =>
        obtain ⟨d, ds, hopens, -⟩ := escapeChar_opens c
        rw [List.flatMap_cons, hopens, List.length_append, List.length_cons, List.length_cons]
        omega
  have hlength := hgrow s.toList
  refine scanString_escape s.toList rest ?_
  rw [List.length_append, List.length_cons]
  omega

theorem skip_cons {c : Char} {s : List Char} (hc : isBlank c = false) : skip (c :: s) = c :: s :=
  List.dropWhile_cons_of_neg (by simp [hc])

/-- How the text of a document opens. -/
theorem write_opens (j : Json) (h : Plain j) :
    ∃ c cs, j.write = c :: cs ∧ isBlank c = false ∧ c ≠ ']' := by
  cases h with
  | null => exact ⟨'n', _, rfl, rfl, by decide⟩
  | bool b =>
      cases b with
      | false => exact ⟨'f', _, rfl, rfl, by decide⟩
      | true => exact ⟨'t', _, rfl, rfl, by decide⟩
  | @int n hn =>
      obtain ⟨d, ds, hd, htext | htext⟩ := toString_opens n
      · refine ⟨d, ds, htext, ?_, ne_of_isDigit hd rfl⟩
        have hblank (c : Char) (hc : c.isDigit = false) := ne_of_isDigit hd hc
        simp [isBlank, hblank]
      · exact ⟨'-', _, htext, rfl, by decide⟩
  | str s => exact ⟨'"', _, toList_renderString s, rfl, by decide⟩
  | arr h => exact ⟨'[', _, rfl, rfl, by decide⟩
  | obj hkeys h => exact ⟨'\x7b', _, rfl, rfl, by decide⟩

theorem skip_write {j : Json} (h : Plain j) (rest : List Char) :
    skip (j.write ++ rest) = j.write ++ rest := by
  obtain ⟨c, cs, hopens, hblank, -⟩ := write_opens j h
  rw [hopens, List.cons_append, skip_cons hblank]

theorem skip_blank (s : List Char) : skip (' ' :: s) = skip s := rfl

theorem ends_cons {c : Char} (rest : List Char)
    (hc : c.isDigit = false ∧ c ≠ '.' ∧ c ≠ 'e' ∧ c ≠ 'E') : Ends (c :: rest) := by
  intro d hd
  cases hd
  exact hc

/-- The reader takes a document's text for the document, when there is fuel for it. -/
def ReadsBack (j : Json) : Prop :=
  ∀ (fuel : ℕ) (rest : List Char), j.write.length ≤ fuel → Ends rest →
    scanValue fuel (j.write ++ rest) = some (j, rest)

theorem writeItems_cons (x : Json) (xs : List Json) : writeItems (x :: xs) =
    x.write ++ (if xs = [] then [] else ',' :: ' ' :: writeItems xs) := by
  cases xs with
  | nil => simp [writeItems]
  | cons y rest => simp [writeItems]

theorem skip_writeItems {items : List Json} (hne : items ≠ []) (hplain : ∀ x ∈ items, Plain x)
    (rest : List Char) : skip (writeItems items ++ rest) = writeItems items ++ rest := by
  cases items with
  | nil => exact absurd rfl hne
  | cons x xs => rw [writeItems_cons, List.append_assoc, skip_write (hplain x (.head _))]

theorem scanItems_write {items : List Json} (hne : items ≠ []) (hplain : ∀ x ∈ items, Plain x)
    (hitems : ∀ x ∈ items, ReadsBack x) (fuel : ℕ) (rest : List Char)
    (hfuel : (writeItems items).length < fuel) :
    scanItems fuel (writeItems items ++ ']' :: rest) = some (items, rest) := by
  induction items generalizing fuel with
  | nil => exact absurd rfl hne
  | cons x xs ih =>
      cases fuel with
      | zero => cases hfuel
      | succ fuel =>
          have hx := hitems x (.head _)
          rw [writeItems_cons, List.length_append] at hfuel
          rw [scanItems, writeItems_cons, List.append_assoc]
          by_cases hlast : xs = []
          · subst hlast
            rw [if_pos rfl, List.nil_append,
              hx fuel _ (by omega) (ends_cons rest (by decide))]
            simp only [Option.bind_eq_bind, Option.bind_some,
              skip_cons (show isBlank ']' = false from rfl)]
            rfl
          · rw [if_neg hlast] at hfuel ⊢
            simp only [List.length_cons] at hfuel
            have hplain' : ∀ y ∈ xs, Plain y := fun y hy => hplain y (.tail _ hy)
            rw [List.cons_append, List.cons_append,
              hx fuel _ (by omega) (ends_cons _ (by decide))]
            simp only [Option.bind_eq_bind, Option.bind_some,
              skip_cons (show isBlank ',' = false from rfl), skip_blank,
              skip_writeItems hlast hplain',
              ih hlast hplain' (fun y hy => hitems y (.tail _ hy)) fuel (by omega)]
            rfl

theorem writeMembers_cons (k : String) (v : Json) (ms : List (String × Json)) :
    writeMembers ((k, v) :: ms) = '"' :: (k.toList.flatMap (fun c => (escapeChar c).toList) ++
      '"' :: ':' :: ' ' :: (v.write ++ if ms = [] then [] else ',' :: ' ' :: writeMembers ms)) := by
  cases ms with
  | nil => simp [writeMembers, toList_renderString]
  | cons m rest => simp [writeMembers, toList_renderString]

theorem skip_writeMembers {members : List (String × Json)} (hne : members ≠ [])
    (rest : List Char) : skip (writeMembers members ++ rest) = writeMembers members ++ rest := by
  cases members with
  | nil => exact absurd rfl hne
  | cons m ms => rw [writeMembers_cons, List.cons_append, skip_cons rfl]

theorem scanMembers_write {members : List (String × Json)} (hne : members ≠ [])
    (hplain : ∀ m ∈ members, Plain m.2) (hmembers : ∀ m ∈ members, ReadsBack m.2) (fuel : ℕ)
    (rest : List Char) (hfuel : (writeMembers members).length < fuel) :
    scanMembers fuel (writeMembers members ++ '\x7d' :: rest) = some (members, rest) := by
  induction members generalizing fuel with
  | nil => exact absurd rfl hne
  | cons m ms ih =>
      obtain ⟨k, v⟩ := m
      cases fuel with
      | zero => cases hfuel
      | succ fuel =>
          have hv : ReadsBack v := hmembers (k, v) (.head _)
          have hskip := skip_write (hplain (k, v) (.head _))
          simp only [writeMembers_cons, List.length_cons, List.length_append] at hfuel
          rw [writeMembers_cons, List.cons_append, scanMembers, List.append_assoc, List.cons_append,
            scanString_render]
          simp only [Option.bind_eq_bind, Option.bind_some, List.cons_append,
            skip_cons (show isBlank ':' = false from rfl), skip_blank, List.append_assoc, hskip,
            String.ofList_toList]
          by_cases hlast : ms = []
          · subst hlast
            rw [if_pos rfl, List.nil_append,
              hv fuel _ (by omega) (ends_cons rest (by decide))]
            simp only [Option.bind_some, skip_cons (show isBlank '\x7d' = false from rfl)]
            rfl
          · rw [if_neg hlast] at hfuel ⊢
            simp only [List.length_cons] at hfuel
            rw [List.cons_append, List.cons_append,
              hv fuel _ (by omega) (ends_cons _ (by decide))]
            simp only [Option.bind_some, skip_cons (show isBlank ',' = false from rfl), skip_blank,
              skip_writeMembers hlast, ih hlast (fun y hy => hplain y (.tail _ hy))
                (fun y hy => hmembers y (.tail _ hy)) fuel (by omega)]
            rfl

/-- Members of different names are what they were when they are assigned one by one. -/
theorem foldl_assign (held members : List (String × Json))
    (h : ((held ++ members).map Prod.fst).Nodup) :
    members.foldl (fun held m => assign m.1 m.2 held) held = held ++ members := by
  have hassign {k : String} {v : Json} {held : List (String × Json)}
      (hk : k ∉ held.map Prod.fst) : assign k v held = held ++ [(k, v)] := by
    induction held with
    | nil => rfl
    | cons m held ih =>
        obtain ⟨l, w⟩ := m
        rw [List.map_cons, List.mem_cons, not_or] at hk
        rw [assign, if_neg (Ne.symm hk.1), ih hk.2, List.cons_append]
  induction members generalizing held with
  | nil => rw [List.foldl_nil, List.append_nil]
  | cons m members ih =>
      have happend : held ++ m :: members = (held ++ [m]) ++ members := by simp
      have hm : m.1 ∉ held.map Prod.fst := by
        rw [List.map_append, List.map_cons, List.nodup_append] at h
        exact fun hmem => h.2.2 _ hmem _ (.head _) rfl
      rw [List.foldl_cons, hassign hm, happend]
      exact ih _ (happend ▸ h)

theorem readsBack {j : Json} (h : Plain j) : ReadsBack j := by
  induction h with
  | null =>
      intro fuel rest hfuel _
      cases fuel with
      | zero => cases hfuel
      | succ fuel => rfl
  | bool b =>
      intro fuel rest hfuel _
      cases fuel with
      | zero => cases b <;> cases hfuel
      | succ fuel => cases b <;> rfl
  | int hn =>
      intro fuel rest hfuel hrest
      cases fuel with
      | zero =>
          obtain ⟨c, cs, hopens, -⟩ := write_opens _ (.int hn)
          rw [hopens] at hfuel
          cases hfuel
      | succ fuel => exact scanValue_int hn hrest fuel
  | str s =>
      intro fuel rest hfuel _
      rw [write, toList_renderString] at hfuel ⊢
      cases fuel with
      | zero => cases hfuel
      | succ fuel =>
          rw [List.cons_append, List.append_assoc, List.cons_append, List.nil_append, scanValue,
            scanString_render, Option.map_some]
          simp only [String.ofList_toList]
  | @arr items h ih =>
      intro fuel rest hfuel _
      rw [write] at hfuel ⊢
      simp only [List.length_cons, List.length_append] at hfuel
      cases fuel with
      | zero => cases hfuel
      | succ fuel =>
          rw [List.cons_append, List.append_assoc, List.cons_append, List.nil_append, scanValue]
          by_cases hnil : items = []
          · subst hnil
            rfl
          · obtain ⟨c, cs, hopens, -, hc⟩ : ∃ c cs, writeItems items = c :: cs ∧ isBlank c = false ∧
                c ≠ ']' := by
              cases items with
              | nil => exact absurd rfl hnil
              | cons x xs =>
                  obtain ⟨c, cs, hopens, hx⟩ := write_opens x (h x (.head _))
                  exact ⟨c, _, by rw [writeItems_cons, hopens, List.cons_append], hx⟩
            have hread := scanItems_write hnil h ih fuel rest (by omega)
            rw [skip_writeItems hnil h]
            rw [hopens, List.cons_append] at hread ⊢
            split
            · rename_i heq
              exact absurd (List.cons_eq_cons.mp heq).1 hc
            · rw [hread, Option.map_some]
  | @obj members hkeys h ih =>
      intro fuel rest hfuel _
      rw [write] at hfuel ⊢
      simp only [List.length_cons, List.length_append] at hfuel
      cases fuel with
      | zero => cases hfuel
      | succ fuel =>
          rw [List.cons_append, List.append_assoc, List.cons_append, List.nil_append, scanValue]
          by_cases hnil : members = []
          · subst hnil
            rfl
          · obtain ⟨cs, hopens⟩ : ∃ cs, writeMembers members = '"' :: cs := by
              cases members with
              | nil => exact absurd rfl hnil
              | cons m ms => exact ⟨_, writeMembers_cons m.1 m.2 ms⟩
            have hread := scanMembers_write hnil h ih fuel rest (by omega)
            rw [skip_writeMembers hnil]
            rw [hopens, List.cons_append] at hread ⊢
            split
            · rename_i heq
              exact absurd (List.cons_eq_cons.mp heq).1 (by decide)
            · have hassign := foldl_assign [] members (by simpa using hkeys)
              rw [hread, Option.map_some]
              simp only [hassign, List.nil_append]

/-- A document that is written is read. -/
theorem loads_dumps {j : Json} (h : Plain j) : loads (dumps j) = some j := by
  have hskip := skip_write h []
  rw [List.append_nil] at hskip
  have hread := readsBack h (j.write.length + 1) [] (Nat.le_succ _) nofun
  rw [List.append_nil] at hread
  rw [loads, dumps, ← String.length_toList, String.toList_ofList, hskip, hread]
  rfl

end Json
