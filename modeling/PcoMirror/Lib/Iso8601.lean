import Mathlib.Data.String.Basic
import Mathlib.Tactic.IntervalCases

/-! Whole seconds written as `YYYY-MM-DDTHH:MM:SSZ`: the text orders as time does,
and one second more is the next text in that order. -/

namespace Iso8601

/-! ## The calendar -/

def isLeap (year : ℕ) : Prop :=
  year % 4 = 0 ∧ (year % 100 ≠ 0 ∨ year % 400 = 0)

instance (year : ℕ) : Decidable (isLeap year) := inferInstanceAs (Decidable (_ ∧ _))

def daysIn (year month : ℕ) : ℕ :=
  if month = 2 then (if isLeap year then 29 else 28)
  else if month = 4 ∨ month = 6 ∨ month = 9 ∨ month = 11 then 30
  else 31

structure Fields where
  year : ℕ
  month : ℕ
  day : ℕ
  hour : ℕ
  minute : ℕ
  second : ℕ
  deriving DecidableEq

/-- The fields name a second of a year written with four digits. -/
structure Fields.Valid (f : Fields) : Prop where
  year : 1000 ≤ f.year ∧ f.year ≤ 9999
  month : 1 ≤ f.month ∧ f.month ≤ 12
  day : 1 ≤ f.day ∧ f.day ≤ daysIn f.year f.month
  hour : f.hour < 24
  minute : f.minute < 60
  second : f.second < 60

instance (f : Fields) : Decidable f.Valid :=
  decidable_of_iff ((1000 ≤ f.year ∧ f.year ≤ 9999) ∧ (1 ≤ f.month ∧ f.month ≤ 12) ∧
      (1 ≤ f.day ∧ f.day ≤ daysIn f.year f.month) ∧ f.hour < 24 ∧ f.minute < 60 ∧ f.second < 60)
    ⟨fun ⟨a, b, c, d, e, g⟩ => ⟨a, b, c, d, e, g⟩, fun ⟨a, b, c, d, e, g⟩ => ⟨a, b, c, d, e, g⟩⟩

/-- The second after this one, carrying as the calendar does. -/
def Fields.next (f : Fields) : Fields :=
  if f.second + 1 < 60 then { f with second := f.second + 1 }
  else if f.minute + 1 < 60 then { f with minute := f.minute + 1, second := 0 }
  else if f.hour + 1 < 24 then { f with hour := f.hour + 1, minute := 0, second := 0 }
  else if f.day + 1 ≤ daysIn f.year f.month then
    { f with day := f.day + 1, hour := 0, minute := 0, second := 0 }
  else if f.month + 1 ≤ 12 then
    { f with month := f.month + 1, day := 1, hour := 0, minute := 0, second := 0 }
  else ⟨f.year + 1, 1, 1, 0, 0, 0⟩

/-- A number that orders valid fields as time does; months count 32 days. -/
def Fields.rank (f : Fields) : ℕ :=
  ((((f.year * 13 + f.month) * 32 + f.day) * 24 + f.hour) * 60 + f.minute) * 60 + f.second

theorem daysIn_le (year month : ℕ) : daysIn year month ≤ 31 := by
  unfold daysIn
  split_ifs <;> omega

theorem one_le_daysIn (year month : ℕ) : 1 ≤ daysIn year month := by
  unfold daysIn
  split_ifs <;> omega

theorem Fields.Valid.next {f : Fields} (h : f.Valid) (hy : f.year < 9999) : f.next.Valid := by
  obtain ⟨hyear, hmonth, hday, hhour, hminute, hsecond⟩ := h
  unfold Fields.next
  split_ifs with h1 h2 h3 h4 h5
  · exact ⟨hyear, hmonth, hday, hhour, hminute, h1⟩
  · exact ⟨hyear, hmonth, hday, hhour, h2, by simp⟩
  · exact ⟨hyear, hmonth, hday, h3, by simp, by simp⟩
  · exact ⟨hyear, hmonth, ⟨by simp, h4⟩, by simp, by simp, by simp⟩
  · exact ⟨hyear, ⟨by simp, h5⟩, ⟨le_rfl, one_le_daysIn _ _⟩, by simp, by simp, by simp⟩
  · exact ⟨⟨by simp; omega, by simp; omega⟩, by simp, ⟨le_rfl, one_le_daysIn _ _⟩,
      by simp, by simp, by simp⟩

theorem Fields.rank_lt_next {f : Fields} (h : f.Valid) : f.rank < f.next.rank := by
  obtain ⟨-, hmonth, hday, hhour, hminute, hsecond⟩ := h
  have hdays := daysIn_le f.year f.month
  unfold Fields.next Fields.rank
  split_ifs <;> simp only <;> omega

/-- No valid second lies strictly between a second and the next one. -/
theorem Fields.next_rank_le {f g : Fields} (hf : f.Valid) (hg : g.Valid)
    (hlt : f.rank < g.rank) : f.next.rank ≤ g.rank := by
  obtain ⟨-, hmonth, hday, hhour, hminute, hsecond⟩ := hf
  obtain ⟨-, hmonth', hday', hhour', hminute', hsecond'⟩ := hg
  have hdays := daysIn_le f.year f.month
  have hdays' := daysIn_le g.year g.month
  -- A month's last day is followed by no later day of the same month.
  have hsame : f.year = g.year → f.month = g.month →
      daysIn f.year f.month = daysIn g.year g.month := by
    intro hy hm
    rw [hy, hm]
  unfold Fields.next
  simp only [Fields.rank] at hlt ⊢
  split_ifs <;> simp only <;> omega

/-! ## The text -/

def digit (n : ℕ) : Char :=
  Char.ofNat ('0'.toNat + n)

def pad2 (n : ℕ) : List Char :=
  [digit (n / 10), digit (n % 10)]

def Fields.chars (f : Fields) : List Char :=
  pad2 (f.year / 100) ++ pad2 (f.year % 100) ++ '-' :: (pad2 f.month ++ '-' :: (pad2 f.day ++
    'T' :: (pad2 f.hour ++ ':' :: (pad2 f.minute ++ ':' :: (pad2 f.second ++ ['Z'])))))

def Fields.format (f : Fields) : String :=
  String.ofList f.chars

theorem digit_lt : ∀ a < 10, ∀ b < 10, (digit a < digit b ↔ a < b) := by decide

theorem digit_eq : ∀ a < 10, ∀ b < 10, (digit a = digit b ↔ a = b) := by decide

theorem pad2_append_lt {a b : ℕ} (ha : a < 100) (hb : b < 100) (r s : List Char) :
    pad2 a ++ r < pad2 b ++ s ↔ a < b ∨ a = b ∧ r < s := by
  simp only [pad2, List.cons_append, List.nil_append, List.cons_lt_cons_iff]
  rw [digit_lt _ (by omega) _ (by omega), digit_lt _ (by omega) _ (by omega),
    digit_eq _ (by omega) _ (by omega), digit_eq _ (by omega) _ (by omega)]
  constructor
  · rintro (h | ⟨h, h' | ⟨h', hrs⟩⟩)
    · left; omega
    · left; omega
    · right; exact ⟨by omega, hrs⟩
  · rintro (h | ⟨rfl, hrs⟩)
    · omega
    · exact .inr ⟨rfl, .inr ⟨rfl, hrs⟩⟩

/-- Text order is time order. -/
theorem Fields.format_lt {f g : Fields} (hf : f.Valid) (hg : g.Valid) :
    f.format < g.format ↔ f.rank < g.rank := by
  obtain ⟨hyear, hmonth, hday, hhour, hminute, hsecond⟩ := hf
  obtain ⟨hyear', hmonth', hday', hhour', hminute', hsecond'⟩ := hg
  have hdays := daysIn_le f.year f.month
  have hdays' := daysIn_le g.year g.month
  rw [String.lt_iff]
  simp only [Fields.format, Fields.chars, String.toList_ofList, List.append_assoc]
  rw [pad2_append_lt (by omega) (by omega), pad2_append_lt (by omega) (by omega),
    List.cons_lt_cons_iff, pad2_append_lt (by omega) (by omega),
    List.cons_lt_cons_iff, pad2_append_lt (by omega) (by omega),
    List.cons_lt_cons_iff, pad2_append_lt (by omega) (by omega),
    List.cons_lt_cons_iff, pad2_append_lt (by omega) (by omega),
    List.cons_lt_cons_iff, pad2_append_lt (by omega) (by omega)]
  simp only [lt_irrefl, false_or, true_and, and_false, or_false, Fields.rank]
  omega

/-! ## Reading the text back -/

/-- The characters before the next separator, and those after it. -/
def upTo (sep : Char) : List Char → Option (List Char × List Char)
  | [] => none
  | c :: cs => if c = sep then some ([], cs) else (upTo sep cs).map fun p => (c :: p.1, p.2)

/-- A decimal number of one of the given widths. -/
def number? (widths : List ℕ) (cs : List Char) : Option ℕ :=
  if cs.length ∈ widths ∧ cs.all Char.isDigit then
    some (cs.foldl (fun n c => n * 10 + (c.toNat - 48)) 0)
  else none

/-- Fields after the year may drop a leading zero, as `strptime` lets them. -/
def parse (s : String) : Option Fields := do
  let (year, rest) ← upTo '-' s.toList
  let (month, rest) ← upTo '-' rest
  let (day, rest) ← upTo 'T' rest
  let (hour, rest) ← upTo ':' rest
  let (minute, rest) ← upTo ':' rest
  let (second, rest) ← upTo 'Z' rest
  let f : Fields := ⟨← number? [4] year, ← number? [1, 2] month, ← number? [1, 2] day,
    ← number? [1, 2] hour, ← number? [1, 2] minute, ← number? [1, 2] second⟩
  if rest = [] ∧ f.Valid then some f else none

theorem upTo_append {sep : Char} {front : List Char} (h : sep ∉ front) (rest : List Char) :
    upTo sep (front ++ sep :: rest) = some (front, rest) := by
  induction front with
  | nil => simp [upTo]
  | cons c front ih =>
      simp only [List.mem_cons, not_or] at h
      simp [upTo, ih h.2, Ne.symm h.1]

theorem digit_ne : ∀ n < 10, digit n ≠ '-' ∧ digit n ≠ 'T' ∧ digit n ≠ ':' ∧ digit n ≠ 'Z' := by
  decide

theorem isDigit_digit : ∀ n < 10, (digit n).isDigit = true := by decide

theorem toNat_digit : ∀ n < 10, (digit n).toNat - 48 = n := by decide

theorem notMem_pad2 {c : Char} (hc : c ∈ ['-', 'T', ':', 'Z']) {n : ℕ} (h : n < 100) :
    c ∉ pad2 n := by
  have hhi := digit_ne (n / 10) (by omega)
  have hlo := digit_ne (n % 10) (by omega)
  simp only [List.mem_cons, List.not_mem_nil, or_false] at hc
  rcases hc with rfl | rfl | rfl | rfl <;> simp [pad2, hhi, hlo, Ne.symm]

theorem number_pad2 {n : ℕ} (h : n < 100) : number? [1, 2] (pad2 n) = some n := by
  have hhi : n / 10 < 10 := by omega
  have hlo : n % 10 < 10 := by omega
  simp only [number?, pad2, List.length_cons, List.length_nil, List.all_cons, List.all_nil,
    isDigit_digit _ hhi, isDigit_digit _ hlo, List.foldl_cons, List.foldl_nil,
    toNat_digit _ hhi, toNat_digit _ hlo]
  simp
  omega

theorem number_year {n : ℕ} (h : n < 10000) :
    number? [4] (pad2 (n / 100) ++ pad2 (n % 100)) = some n := by
  have h1 : n / 100 / 10 < 10 := by omega
  have h2 : n / 100 % 10 < 10 := by omega
  have h3 : n % 100 / 10 < 10 := by omega
  have h4 : n % 100 % 10 < 10 := by omega
  simp only [number?, pad2, List.cons_append, List.nil_append, List.length_cons, List.length_nil,
    List.all_cons, List.all_nil, isDigit_digit _ h1, isDigit_digit _ h2, isDigit_digit _ h3,
    isDigit_digit _ h4, List.foldl_cons, List.foldl_nil, toNat_digit _ h1, toNat_digit _ h2,
    toNat_digit _ h3, toNat_digit _ h4]
  rw [if_pos (by simp)]
  congr 1
  omega

theorem parse_format {f : Fields} (h : f.Valid) : parse f.format = some f := by
  have hvalid := h
  obtain ⟨hyear, hmonth, hday, hhour, hminute, hsecond⟩ := h
  have hdays := daysIn_le f.year f.month
  have hdash : '-' ∉ pad2 (f.year / 100) ++ pad2 (f.year % 100) := by
    rw [List.mem_append, not_or]
    exact ⟨notMem_pad2 (by decide) (by omega), notMem_pad2 (by decide) (by omega)⟩
  unfold parse Fields.format Fields.chars
  simp only [Option.bind_eq_bind]
  rw [String.toList_ofList, upTo_append hdash, Option.bind_some,
    upTo_append (notMem_pad2 (by decide) (by omega)), Option.bind_some,
    upTo_append (notMem_pad2 (by decide) (by omega)), Option.bind_some,
    upTo_append (notMem_pad2 (by decide) (by omega)), Option.bind_some,
    upTo_append (notMem_pad2 (by decide) (by omega)), Option.bind_some,
    upTo_append (notMem_pad2 (by decide) (by omega)), Option.bind_some]
  simp only [number_year (show f.year < 10000 by omega),
    number_pad2 (show f.month < 100 by omega), number_pad2 (show f.day < 100 by omega),
    number_pad2 (show f.hour < 100 by omega), number_pad2 (show f.minute < 100 by omega),
    number_pad2 (show f.second < 100 by omega), true_and, Option.bind_some]
  exact if_pos hvalid

/-! ## One second more -/

/-- `(strptime(s) + 1s).strftime`; text that is no second, and the last second a
date can name, have none. -/
def plusOneSecond (s : String) : Option String := do
  let f ← parse s
  if f.next.year ≤ 9999 then some f.next.format else none

/-- The text of a second before the last year a date can name. -/
def WholeSecond (s : String) : Prop :=
  ∃ f : Fields, f.Valid ∧ f.year < 9999 ∧ s = f.format

/-- One second more is the least whole second above. -/
theorem WholeSecond.plusOneSecond {s : String} (h : WholeSecond s) :
    ∃ s', plusOneSecond s = some s' ∧ s < s' ∧ ∀ t, WholeSecond t → s < t → s' ≤ t := by
  obtain ⟨f, hf, hyear, rfl⟩ := h
  have hnext : f.next.Valid := hf.next hyear
  refine ⟨f.next.format, ?_, ?_, ?_⟩
  · simp [Iso8601.plusOneSecond, parse_format hf, hnext.year.2]
  · exact (Fields.format_lt hf hnext).mpr (Fields.rank_lt_next hf)
  · rintro t ⟨g, hg, -, rfl⟩ hlt
    have hrank := Fields.next_rank_le hf hg ((Fields.format_lt hf hg).mp hlt)
    exact not_lt.mp fun h => absurd ((Fields.format_lt hg hnext).mp h) (not_lt.mpr hrank)

theorem WholeSecond.ne_empty {s : String} (h : WholeSecond s) : s ≠ "" := by
  obtain ⟨f, -, -, rfl⟩ := h
  intro he
  have hchars : f.chars = [] := by
    rw [← String.toList_ofList (l := f.chars)]
    exact congrArg String.toList he
  simp only [Fields.chars, pad2, List.cons_append] at hchars
  exact List.cons_ne_nil _ _ hchars

/-- Adds seconds one at a time. -/
def plusSeconds (s : String) : ℕ → Option String
  | 0 => some s
  | n + 1 => (plusOneSecond s).bind (plusSeconds · n)

/-- The second before this one, borrowing as the calendar does. -/
def Fields.previous (f : Fields) : Fields :=
  if 0 < f.second then { f with second := f.second - 1 }
  else if 0 < f.minute then { f with minute := f.minute - 1, second := 59 }
  else if 0 < f.hour then { f with hour := f.hour - 1, minute := 59, second := 59 }
  else if 1 < f.day then { f with day := f.day - 1, hour := 23, minute := 59, second := 59 }
  else if 1 < f.month then
    ⟨f.year, f.month - 1, daysIn f.year (f.month - 1), 23, 59, 59⟩
  else ⟨f.year - 1, 12, 31, 23, 59, 59⟩

/-- Takes seconds off one at a time; years of fewer than four digits are not reached. -/
def minusSeconds (s : String) (n : ℕ) : Option String := do
  let f ← parse s
  let earlier := Fields.previous^[n] f
  if earlier.Valid then some earlier.format else none

example : plusOneSecond "2024-02-28T23:59:59Z" = some "2024-02-29T00:00:00Z" := by decide

end Iso8601
