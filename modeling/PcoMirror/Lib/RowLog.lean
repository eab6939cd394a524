import Mathlib.Data.List.Induction
import Mathlib.Data.List.MinMax
import Mathlib.Data.List.Perm.Subperm
import PcoMirror.Lib.Run

/-! Tables that log: every row has a number of its own, and those too far behind the newest are
deleted. -/

namespace RowLog

variable {α : Type}

/-- A table whose key is `INTEGER PRIMARY KEY AUTOINCREMENT`: its rows under their numbers, and the
last number that was given out. -/
structure Table (α : Type) where
  rows : List (ℕ × α) := []
  last : ℕ := 0

namespace Table

variable {t : Table α} {n keep : ℕ} {x y : α}

/-- `INSERT INTO` -/
def insert (t : Table α) (x : α) : Table α :=
  ⟨t.rows ++ [(t.last + 1, x)], t.last + 1⟩

/-- `DELETE … WHERE id <= (SELECT max(id) …) - keep`; without a row there is no greatest number. -/
def trim (keep : ℕ) (t : Table α) : Table α :=
  match (t.rows.map Prod.fst).max? with
  | none => t
  | some m => { t with rows := t.rows.filter fun row => m < row.1 + keep }

/-- `DELETE FROM` -/
def clear (t : Table α) : Table α :=
  { t with rows := [] }

/-- A row is added, and the newest are kept. -/
def record (keep : ℕ) (x : α) (t : Table α) : Table α :=
  (t.insert x).trim keep

/-- The rows stand in the order of their numbers, and no number is still to come. -/
structure Numbered (t : Table α) : Prop where
  sorted : t.rows.Pairwise fun row row' => row.1 < row'.1
  bounded : ∀ row ∈ t.rows, row.1 ≤ t.last

@[simp] theorem record_last (keep : ℕ) (x : α) (t : Table α) : (t.record keep x).last = t.last + 1 := by
  rw [record, trim]
  split <;> rfl

theorem max_insert (h : t.Numbered) : ((t.insert x).rows.map Prod.fst).max? = some (t.last + 1) := by
  rw [List.max?_eq_some_iff]
  constructor
  · simp [insert]
  · intro m hm
    simp only [insert, List.map_append, List.map_cons, List.map_nil, List.mem_append, List.mem_map,
      List.mem_singleton] at hm
    rcases hm with ⟨row, hrow, rfl⟩ | rfl
    · exact (h.bounded row hrow).trans (Nat.le_succ _)
    · exact le_rfl

/-- What a record keeps is what is less than `keep` numbers behind the new one. -/
theorem record_rows (h : t.Numbered) (keep : ℕ) (x : α) : (t.record keep x).rows =
    (t.rows ++ [(t.last + 1, x)]).filter fun row => t.last + 1 < row.1 + keep := by
  rw [record, trim, max_insert h]
  rfl

theorem Numbered.empty : Numbered ({} : Table α) :=
  ⟨.nil, by simp⟩

theorem Numbered.insert (h : t.Numbered) (x : α) : (t.insert x).Numbered where
  sorted := by
    rw [Table.insert, List.pairwise_append]
    refine ⟨h.sorted, List.pairwise_singleton _ _, fun row hrow row' hrow' => ?_⟩
    rw [List.mem_singleton.mp hrow']
    exact Nat.lt_succ_of_le (h.bounded row hrow)
  bounded := by
    intro row hrow
    rcases List.mem_append.mp hrow with hrow | hrow
    · exact (h.bounded row hrow).trans (Nat.le_succ _)
    · rw [List.mem_singleton.mp hrow]
      exact le_rfl

theorem Numbered.record (h : t.Numbered) (keep : ℕ) (x : α) : (t.record keep x).Numbered where
  sorted := by
    rw [record_rows h]
    exact (h.insert x).sorted.filter _
  bounded := by
    intro row hrow
    rw [record_rows h] at hrow
    rw [record_last]
    exact (h.insert x).bounded row (List.mem_of_mem_filter hrow)

theorem Numbered.clear (_h : t.Numbered) : t.clear.Numbered :=
  ⟨.nil, by simp [Table.clear]⟩

/-- Rows whose numbers are less than `keep` behind the last are `keep` at most. -/
theorem Numbered.length_le (h : t.Numbered) (hkeep : ∀ row ∈ t.rows, t.last < row.1 + keep) :
    t.rows.length ≤ keep := by
  have hnodup : (t.rows.map Prod.fst).Nodup :=
    List.pairwise_map.mpr (h.sorted.imp fun hlt => hlt.ne)
  have hsub : t.rows.map Prod.fst ⊆ List.range' (t.last + 1 - keep) keep := by
    intro m hm
    obtain ⟨row, hrow, rfl⟩ := List.mem_map.mp hm
    have hlow := hkeep row hrow
    have hhigh := h.bounded row hrow
    rw [List.mem_range'_1]
    omega
  calc t.rows.length
      = (t.rows.map Prod.fst).length := (List.length_map ..).symm
    _ ≤ (List.range' (t.last + 1 - keep) keep).length := (List.subperm_of_subset hnodup hsub).length_le
    _ = keep := List.length_range'

end Table

/-! ## Runs -/

/-- What becomes of a table. -/
inductive Op (α : Type) where
  | idle
  | record (keep : ℕ) (x : α)
  | clear

/-- An operation, on a table; where nothing is to be kept nothing is recorded. -/
def Op.on (t : Table α) : Op α → Table α
  | .idle => t
  | .record keep x => if keep = 0 then t else t.record keep x
  | .clear => t.clear

/-- An operation leaves the row of this number where it is. -/
def Op.Spares (n : ℕ) (t : Table α) : Op α → Prop
  | .idle => True
  | .record keep _ => keep = 0 ∨ t.last + 1 < n + keep
  | .clear => False

/-- An operation adds this row, under this number. -/
def Op.Adds (n : ℕ) (x : α) (t : Table α) : Op α → Prop
  | .record keep y => keep ≠ 0 ∧ y = x ∧ n = t.last + 1
  | _ => False

theorem Table.Numbered.on {t : Table α} (h : t.Numbered) (op : Op α) : (op.on t).Numbered := by
  cases op with
  | idle => exact h
  | record keep x =>
      rw [Op.on]
      split_ifs
      · exact h
      · exact h.record keep x
  | clear => exact h.clear

theorem mem_on {t : Table α} (h : t.Numbered) {n : ℕ} {x : α} (op : Op α) :
    (n, x) ∈ (op.on t).rows ↔ (n, x) ∈ t.rows ∧ op.Spares n t ∨ op.Adds n x t := by
  cases op with
  | idle => simp [Op.on, Op.Spares, Op.Adds]
  | clear => simp [Op.on, Op.Spares, Op.Adds, Table.clear]
  | record keep y =>
      rw [Op.on, Op.Spares, Op.Adds]
      split_ifs with hkeep
      · simp [hkeep]
      · simp only [Table.record_rows h, List.mem_filter, List.mem_append, List.mem_singleton,
          Prod.mk.injEq, decide_eq_true_eq, hkeep, false_or, ne_eq, not_false_eq_true, true_and]
        constructor
        · rintro ⟨hrow | ⟨rfl, rfl⟩, hnear⟩
          · exact .inl ⟨hrow, hnear⟩
          · exact .inr ⟨rfl, rfl⟩
        · rintro (⟨hrow, hnear⟩ | ⟨rfl, rfl⟩)
          · exact ⟨.inl hrow, hnear⟩
          · exact ⟨.inr ⟨rfl, rfl⟩, by omega⟩

-- A system that keeps such a table, and what each of its moves does to it.
variable {σ κ : Type} {step : σ → κ → σ} {table : σ → Table α} {op : σ → κ → Op α} {s : σ}

theorem numbered_exec (hstep : ∀ s move, table (step s move) = (op s move).on (table s))
    (hs : (table s).Numbered) (moves : List κ) : (table (Run.exec step s moves)).Numbered := by
  induction moves using List.reverseRecOn with
  | nil => exact hs
  | append_singleton moves move ih =>
      rw [Run.exec_append, Run.exec_cons, Run.exec_nil, hstep]
      exact ih.on _

/-- A row is there after a run if and only if a move of the run added it and every later one spared
it. -/
theorem mem_exec (hstep : ∀ s move, table (step s move) = (op s move).on (table s))
    (hs : table s = {}) (moves : List κ) {n : ℕ} {x : α} :
    (n, x) ∈ (table (Run.exec step s moves)).rows ↔
      ∃ before move after, moves = before ++ move :: after ∧
        (op (Run.exec step s before) move).Adds n x (table (Run.exec step s before)) ∧
        Run.Each step (fun s' move' => (op s' move').Spares n (table s'))
          (Run.exec step s (before ++ [move])) after := by
  induction moves using List.reverseRecOn with
  | nil => simp [hs]
  | append_singleton moves last ih =>
      have hnumbered : (table (Run.exec step s moves)).Numbered :=
        numbered_exec hstep (hs ▸ Table.Numbered.empty) moves
      rw [Run.exec_append, Run.exec_cons, Run.exec_nil, hstep, mem_on hnumbered, ih]
      constructor
      · rintro (⟨⟨before, move, after, rfl, hadds, heach⟩, hspares⟩ | hadds)
        · refine ⟨before, move, after ++ [last], by simp, hadds, Run.each_append.mpr ⟨heach, ?_⟩⟩
          rw [← Run.exec_append, List.append_assoc, List.singleton_append]
          exact ⟨hspares, trivial⟩
        · exact ⟨moves, last, [], by simp, hadds, trivial⟩
      · rintro ⟨before, move, after, hmoves, hadds, heach⟩
        induction after using List.reverseRecOn with
        | nil =>
            obtain ⟨rfl, hlast⟩ := List.append_inj' hmoves rfl
            cases hlast
            exact .inr hadds
        | append_singleton after last' _ =>
            rw [← List.cons_append, ← List.append_assoc] at hmoves
            obtain ⟨rfl, hlast⟩ := List.append_inj' hmoves rfl
            cases hlast
            obtain ⟨heach, hspares⟩ := Run.each_append.mp heach
            rw [← Run.exec_append, List.append_assoc, List.singleton_append] at hspares
            exact .inl ⟨⟨before, move, after, rfl, hadds, heach⟩, hspares.1⟩

end RowLog
