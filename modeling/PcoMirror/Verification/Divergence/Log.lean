import Mathlib.Algebra.BigOperators.Group.List.Basic
import Mathlib.Algebra.Order.BigOperators.Group.List
import PcoMirror.Lib.Newest
import PcoMirror.Lib.Run
import PcoMirror.Model.Divergence.Log

/-! What the log of the divergence checker holds, after any sequence of reports. -/

namespace PcoMirror.Divergence

open Newest

variable {log : Log} {rows : List Stored} {row : Stored} {keep cap : ℕ} {shadowKeep : ℤ}

/-! ## Numbered rows -/

/-- Rows with consecutive numbers. -/
def numbered : ℕ → List Stored → List Report
  | _, [] => []
  | n, row :: rows => ⟨n, row⟩ :: numbered (n + 1) rows

@[simp] theorem map_row_numbered (n : ℕ) (rows : List Stored) :
    (numbered n rows).map (·.row) = rows := by
  induction rows generalizing n with
  | nil => rfl
  | cons row rows ih => rw [numbered, List.map_cons, ih]

theorem numbered_append_singleton (n : ℕ) (rows : List Stored) (row : Stored) :
    numbered n (rows ++ [row]) = numbered n rows ++ [⟨n + rows.length, row⟩] := by
  induction rows generalizing n with
  | nil => rfl
  | cons head rows ih =>
      rw [List.cons_append, numbered, ih, numbered, List.cons_append, List.length_cons,
        Nat.add_assoc, Nat.add_comm 1]

/-- Where the numbers are cut off, the rows are. -/
theorem filter_numbered (m d n : ℕ) (rows : List Stored) :
    (numbered n rows).filter (fun r => m < r.id + d) =
      numbered (n + (m + 1 - d - n)) (rows.drop (m + 1 - d - n)) := by
  induction rows generalizing n with
  | nil => simp [numbered]
  | cons row rows ih =>
      rw [numbered, List.filter_cons]
      by_cases hcut : m < n + d
      · have hnone : m + 1 - d - n = 0 := by omega
        have hrest : m + 1 - d - (n + 1) = 0 := by omega
        rw [if_pos (by simpa using hcut), ih, hnone, hrest]
        rfl
      · have hsome : m + 1 - d - n = m + 1 - d - (n + 1) + 1 := by omega
        rw [if_neg (by simpa using hcut), ih, hsome, List.drop_succ_cons]
        congr 1
        omega

/-- The log holds these rows, under the numbers that were given out last. -/
structure Log.Holds (log : Log) (rows : List Stored) : Prop where
  length_le : rows.length ≤ log.lastId
  reports : log.reports = numbered (log.lastId + 1 - rows.length) rows

theorem Log.Holds.map_row (h : log.Holds rows) : log.reports.map (·.row) = rows := by
  rw [h.reports, map_row_numbered]

/-- A log whose oldest rows are cut off. -/
theorem Log.Holds.filter (h : log.Holds rows) {m d k : ℕ} (hk : k ≤ rows.length)
    (hcut : m + 1 - d - (log.lastId + 1 - rows.length) = k) :
    Log.Holds { log with reports := log.reports.filter fun r => m < r.id + d } (rows.drop k) := by
  have hlength := h.length_le
  refine ⟨?_, ?_⟩
  · rw [List.length_drop]
    dsimp only
    omega
  · dsimp only
    rw [h.reports, filter_numbered, hcut, List.length_drop]
    congr 1
    omega

theorem Log.Holds.append (h : log.Holds rows) (row : Stored) :
    Log.Holds ⟨log.reports ++ [⟨log.lastId + 1, row⟩], log.lastId + 1⟩ (rows ++ [row]) := by
  have hlength := h.length_le
  refine ⟨?_, ?_⟩
  · simpa using hlength
  · have hstart : log.lastId + 1 + 1 - (rows.length + 1) = log.lastId + 1 - rows.length := by omega
    have hlast : log.lastId + 1 - rows.length + rows.length = log.lastId + 1 := by omega
    rw [List.length_append, List.length_singleton, hstart, numbered_append_singleton, hlast,
      h.reports]

/-! ## Trimming -/

/-- What rows occupy. -/
def bytesOf (rows : List Stored) : ℕ :=
  (rows.map Stored.bytes).sum

/-- The log is within both of its bounds. -/
def Fits (shadowKeep : ℤ) (rows : List Stored) : Prop :=
  rows.length ≤ countBound shadowKeep ∧ bytesOf rows ≤ maxBytes

instance : DecidablePred (Fits shadowKeep) :=
  fun _ => inferInstanceAs (Decidable (_ ∧ _))

theorem bytesOf_le_of_sublist {older : List Stored} (h : older.Sublist rows) :
    bytesOf older ≤ bytesOf rows :=
  (h.map Stored.bytes).sum_le_sum fun _ _ => Nat.zero_le _

theorem Fits.sublist (older rows : List Stored) (h : older.Sublist rows)
    (hfits : Fits shadowKeep rows) : Fits shadowKeep older :=
  ⟨h.length_le.trans hfits.1, (bytesOf_le_of_sublist h).trans hfits.2⟩

theorem fits_nil : Fits shadowKeep [] :=
  ⟨Nat.zero_le _, Nat.zero_le _⟩

theorem foldl_max_numbered (n : ℕ) (rows : List Stored) (row : Stored) :
    ((numbered n (rows ++ [row])).map (·.id)).foldl max 0 = n + rows.length := by
  have hids : ∀ r ∈ numbered n rows, r.id ≤ n + rows.length := by
    induction rows generalizing n with
    | nil => exact nofun
    | cons head rows ih =>
        rw [numbered, List.forall_mem_cons, List.length_cons]
        refine ⟨Nat.le_add_right _ _, fun r hr => (ih (n + 1) r hr).trans ?_⟩
        omega
  have hbelow : ∀ (l : List Report) (m : ℕ), m ≤ n + rows.length →
      (∀ r ∈ l, r.id ≤ n + rows.length) → (l.map (·.id)).foldl max m ≤ n + rows.length := by
    intro l
    induction l with
    | nil => exact fun m hm _ => hm
    | cons r l ih =>
        intro m hm hl
        rw [List.forall_mem_cons] at hl
        exact ih (max m r.id) (max_le hm hl.1) hl.2
  rw [numbered_append_singleton, List.map_append, List.foldl_append]
  exact max_eq_right (hbelow _ 0 (Nat.zero_le _) hids)

theorem Log.Holds.trimCount (h : log.Holds rows) (keep : ℕ) :
    (log.trimCount keep).Holds (newest (fun rows => rows.length ≤ keep) rows) := by
  have hlength := h.length_le
  rcases List.eq_nil_or_concat' rows with rfl | ⟨init, row, rfl⟩
  · rw [Log.trimCount, h.reports]
    exact ⟨hlength, rfl⟩
  · have hmax : (log.reports.map (·.id)).foldl max 0 = log.lastId := by
      rw [h.reports, foldl_max_numbered]
      rw [List.length_append, List.length_singleton] at hlength ⊢
      omega
    rw [newest_eq_drop (n := (init ++ [row]).length - keep)]
    · rw [Log.trimCount, hmax]
      refine h.filter (Nat.sub_le _ _) ?_
      omega
    · exact fun ys zs hsub hle => hsub.length_le.trans hle
    · rw [List.length_drop]
      omega
    · intro m hm hle
      rw [List.length_drop] at hle
      omega

/-- The cut-off is the first report from the end that does not fit. -/
theorem cutoff_numbered (cap n total : ℕ) (rows : List Stored) (htotal : total ≤ cap) :
    cutoff cap total (numbered n rows).reverse = none ∧ total + bytesOf rows ≤ cap ∨
      ∃ k < rows.length, cutoff cap total (numbered n rows).reverse = some (n + k) ∧
        total + bytesOf (rows.drop (k + 1)) ≤ cap ∧ cap < total + bytesOf (rows.drop k) := by
  induction rows using List.reverseRecOn generalizing total with
  | nil => exact .inl ⟨rfl, htotal⟩
  | append_singleton rows row ih =>
      have hbytes : ∀ older : List Stored, bytesOf (older ++ [row]) = row.bytes + bytesOf older := by
        intro older
        rw [bytesOf, List.map_append, List.sum_append, Nat.add_comm]
        simp [bytesOf]
      rw [numbered_append_singleton, List.reverse_append, List.reverse_singleton,
        List.singleton_append, cutoff]
      dsimp only
      split_ifs with hover
      · refine .inr ⟨rows.length, by simp, rfl, ?_, ?_⟩
        · simpa [bytesOf] using htotal
        · simpa [bytesOf] using hover
      · rcases ih (total + row.bytes) (not_lt.mp hover) with ⟨hnone, hfits⟩ | ⟨k, hk, hsome, hfits, hmore⟩
        · refine .inl ⟨hnone, ?_⟩
          rw [hbytes]
          omega
        · refine .inr ⟨k, by simp; omega, hsome, ?_, ?_⟩
          · have hnext : k + 1 ≤ rows.length := hk
            rw [List.drop_append_of_le_length hnext, hbytes]
            omega
          · rw [List.drop_append_of_le_length hk.le, hbytes]
            omega

theorem Log.Holds.trimToSize (h : log.Holds rows) (cap : ℕ) :
    (log.trimToSize cap).1.Holds (newest (fun rows => bytesOf rows ≤ cap) rows) := by
  have hsub : ∀ older rows : List Stored, older.Sublist rows → bytesOf rows ≤ cap →
      bytesOf older ≤ cap := fun older rows hsub hle => (bytesOf_le_of_sublist hsub).trans hle
  have hlength := h.length_le
  rw [Log.trimToSize, h.reports]
  rcases cutoff_numbered cap (log.lastId + 1 - rows.length) 0 rows (Nat.zero_le _) with
    ⟨hnone, hfits⟩ | ⟨k, hk, hsome, hfits, hmore⟩
  · rw [hnone, newest_eq_drop (n := 0) hsub (by simpa using hfits) nofun, ← h.reports]
    exact h
  · rw [hsome, newest_eq_drop (n := k + 1) hsub (by simpa using hfits)]
    · rw [← h.reports]
      exact h.filter (d := 0) hk (by omega)
    · intro m hm
      cases hm
      simpa using hmore

theorem Log.Holds.file (h : log.Holds rows) (shadowKeep : ℤ) (finding : Finding) :
    (log.file shadowKeep finding).Holds
      (newest (Fits shadowKeep) (rows ++ [finding.stored])) := by
  have htrimmed := ((h.append finding.stored).trimCount (countBound shadowKeep)).trimToSize maxBytes
  rw [newest_newest ⟨Nat.zero_le _, Nat.zero_le _⟩
    fun older rows hsub hle => hsub.length_le.trans hle] at htrimmed
  exact htrimmed

/-! ## Any sequence of reports -/

/-- The log, after some checks that found differences. -/
def Log.after (shadowKeep : ℤ) (findings : List Finding) : Log :=
  Run.exec (Log.file shadowKeep) {} findings

theorem Log.holds_after (shadowKeep : ℤ) (findings : List Finding) :
    (Log.after shadowKeep findings).Holds
      (newest (Fits shadowKeep) (findings.map Finding.stored)) := by
  induction findings using List.reverseRecOn with
  | nil => exact ⟨Nat.zero_le _, rfl⟩
  | append_singleton findings finding ih =>
      rw [Log.after, Run.exec_append, List.map_append, List.map_singleton,
        newest_append_singleton fits_nil Fits.sublist]
      exact ih.file shadowKeep finding

/-- The log is within its bytes, and holds the newest of the rows that were written, as many as
its bounds allow, the last one among them. -/
structure Log.Bounded (log : Log) (shadowKeep : ℤ) (written : List Stored) : Prop where
  bytes_le : bytesOf (log.reports.map (·.row)) ≤ maxBytes
  length_le : log.reports.length ≤ countBound shadowKeep
  suffix : log.reports.map (·.row) <:+ written
  longest : ∀ rows, rows <:+ written → rows.length ≤ countBound shadowKeep →
    bytesOf rows ≤ maxBytes → rows <:+ log.reports.map (·.row)
  last : ∀ row, written.getLast? = some row → (log.reports.map (·.row)).getLast? = some row

theorem Log.last_kept_iff (shadowKeep : ℤ) (findings : List Finding) (finding : Finding) :
    ((Log.after shadowKeep (findings ++ [finding])).reports.map (·.row)).getLast? =
      some finding.stored ↔ finding.stored.bytes ≤ maxBytes := by
  have hone : 1 ≤ countBound shadowKeep := Int.le_toNat (by omega) |>.mpr (le_max_left 1 shadowKeep)
  rw [(Log.holds_after shadowKeep _).map_row, List.map_append, List.map_singleton,
    getLast?_newest_append_singleton fits_nil Fits.sublist]
  simp [Fits, bytesOf, hone]

/-- The log is bounded so after every check exactly where each report, its bodies dropped if they
are too big, fits by itself. -/
theorem log_bounded_iff (shadowKeep : ℤ) (findings : List Finding) :
    (∀ n, (Log.after shadowKeep (findings.take n)).Bounded shadowKeep
      ((findings.take n).map Finding.stored)) ↔
    ∀ finding ∈ findings, finding.stored.bytes ≤ maxBytes := by
  constructor
  · intro h finding hfinding
    obtain ⟨older, newer, rfl⟩ := List.append_of_mem hfinding
    have hlast := (h (older.length + 1)).last finding.stored
    have htake : (older ++ finding :: newer).take (older.length + 1) = older ++ [finding] := by
      simp [List.take_append]
    rw [htake] at hlast
    exact (Log.last_kept_iff shadowKeep older finding).mp (hlast (by simp))
  · intro h n
    have hholds := Log.holds_after shadowKeep (findings.take n)
    have hfits : Fits shadowKeep (newest (Fits shadowKeep) ((findings.take n).map Finding.stored)) :=
      fits_newest fits_nil
    have hrow := hholds.map_row
    refine ⟨hrow ▸ hfits.2, ?_, hrow ▸ newest_suffix _ _, fun rows hsuffix hcount hbytes => ?_, ?_⟩
    · rw [← List.length_map (·.row), hrow]
      exact hfits.1
    · rw [hrow]
      exact suffix_newest hsuffix ⟨hcount, hbytes⟩
    · intro row hrow
      rcases List.eq_nil_or_concat' (findings.take n) with hnil | ⟨older, finding, hlast⟩
      · rw [hnil] at hrow
        cases hrow
      · have hmem : finding ∈ findings := List.mem_of_mem_take (hlast ▸ by simp : finding ∈ findings.take n)
        rw [hlast, List.map_append, List.map_singleton, List.getLast?_concat] at hrow
        cases hrow
        rw [hlast]
        exact (Log.last_kept_iff shadowKeep older finding).mpr (h finding hmem)

/-- A text of so many letters. -/
def letters : ℕ → String
  | 0 => ""
  | n + 1 => (letters n).push 'x'

theorem utf8ByteSize_letters (n : ℕ) : (letters n).utf8ByteSize = n := by
  induction n with
  | zero => rfl
  | succ n ih =>
      rw [letters, String.utf8ByteSize_push, ih]
      rfl

/-- One difference, in a value of so many letters. -/
def longDifference (n : ℕ) : Finding where
  shape := "/people/v2/people/\x7bid\x7d"
  path := "/people/v2/people/1"
  query := "\x7b\x7d"
  verdict := "divergence"
  mirrorJson := "\x7b\x7d"
  pcoJson := "\x7b\x7d"
  differences := [letters n]

/-- A difference as long as the log may be is not kept, though its bodies are small. -/
theorem log_not_bounded :
    ¬ ∀ n, (Log.after 200 ([longDifference maxBytes].take n)).Bounded 200
      (([longDifference maxBytes].take n).map Finding.stored) := by
  intro h
  have hlong : ∀ n, n < (longDifference n).stored.bytes := by
    intro n
    have hbodies : (longDifference n).stored.differences = "[" ++ letters n ++ "]" := rfl
    have hsize : ("[" ++ letters n ++ "]").utf8ByteSize = n + 2 := by
      rw [String.utf8ByteSize_append, String.utf8ByteSize_append, utf8ByteSize_letters]
      change 1 + n + 1 = n + 2
      omega
    rw [Stored.bytes, hbodies, hsize]
    omega
  have hlast := (h 1).last (longDifference maxBytes).stored rfl
  exact absurd ((Log.last_kept_iff 200 [] (longDifference maxBytes)).mp hlast) (hlong maxBytes).not_ge

end PcoMirror.Divergence
