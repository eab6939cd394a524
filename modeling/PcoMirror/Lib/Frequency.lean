import Mathlib.Data.List.Induction
import Mathlib.Data.List.Nodup
import Mathlib.Data.List.Sort

/-! Keeping the most frequent entries of a sequence in a table of bounded size. -/

namespace Frequency

variable {α : Type} [DecidableEq α] {k : ℕ} {xs : List α} {x : α}

/-- The entries kept are the most frequent ones: another entry has been left out for want of
room, and has come no more often than any that is kept. -/
structure Busiest (k : ℕ) (kept xs : List α) : Prop where
  nodup : kept.Nodup
  length_le : kept.length ≤ k
  subset : kept ⊆ xs
  others : ∀ x ∈ xs, x ∉ kept → kept.length = k ∧ ∀ y ∈ kept, xs.count x ≤ xs.count y

/-! ## The entries that come first -/

/-- One more entry, where it is new and there is room. -/
def note (k : ℕ) (known : List α) (x : α) : List α :=
  if x ∈ known ∨ k ≤ known.length then known else known ++ [x]

/-- The first `k` different entries of a sequence, in the order they came. -/
def firsts (k : ℕ) (xs : List α) : List α :=
  xs.foldl (note k) []

@[simp] theorem firsts_nil : firsts k ([] : List α) = [] := rfl

theorem firsts_append_singleton (k : ℕ) (xs : List α) (x : α) :
    firsts k (xs ++ [x]) = note k (firsts k xs) x := by
  rw [firsts, List.foldl_append]
  rfl

theorem length_firsts_le (k : ℕ) (xs : List α) : (firsts k xs).length ≤ k := by
  induction xs using List.reverseRecOn with
  | nil => exact Nat.zero_le k
  | append_singleton xs x ih =>
      rw [firsts_append_singleton, note]
      split_ifs with h
      · exact ih
      · push Not at h
        rw [List.length_append, List.length_singleton]
        exact h.2

theorem nodup_firsts (k : ℕ) (xs : List α) : (firsts k xs).Nodup := by
  induction xs using List.reverseRecOn with
  | nil => exact List.nodup_nil
  | append_singleton xs x ih =>
      rw [firsts_append_singleton, note]
      split_ifs with h
      · exact ih
      · push Not at h
        exact List.nodup_append.mpr ⟨ih, List.nodup_singleton x, by
          intro a ha b hb
          rw [List.mem_singleton.mp hb]
          exact fun heq => h.1 (heq ▸ ha)⟩

theorem firsts_subset (k : ℕ) (xs : List α) : firsts k xs ⊆ xs := by
  induction xs using List.reverseRecOn with
  | nil => exact List.Subset.refl []
  | append_singleton xs x ih =>
      rw [firsts_append_singleton, note]
      split_ifs
      · exact List.subset_append_of_subset_left [x] ih
      · exact List.append_subset.mpr
          ⟨List.subset_append_of_subset_left [x] ih, List.subset_append_right xs [x]⟩

/-- While there is room, every entry is kept. -/
theorem mem_firsts_of_length_lt (h : (firsts k xs).length < k) (hx : x ∈ xs) :
    x ∈ firsts k xs := by
  induction xs using List.reverseRecOn with
  | nil => cases hx
  | append_singleton xs y ih =>
      rw [firsts_append_singleton, note] at h ⊢
      split_ifs at h ⊢ with hknown
      · rcases List.mem_append.mp hx with hx | hx
        · exact ih h hx
        · rw [List.mem_singleton.mp hx]
          exact hknown.resolve_right (not_le.mpr h)
      · push Not at hknown
        rcases List.mem_append.mp hx with hx | hx
        · exact List.mem_append_left [y] (ih hknown.2 hx)
        · exact List.mem_append_right (firsts k xs) hx

/-- The entries that came first are the most frequent ones where no other has overtaken one of
them. -/
theorem busiest_firsts_iff : Busiest k (firsts k xs) xs ↔
    ∀ x ∈ xs, x ∉ firsts k xs → ∀ y ∈ firsts k xs, xs.count x ≤ xs.count y := by
  constructor
  · exact fun h x hx hnew => (h.others x hx hnew).2
  · refine fun h => ⟨nodup_firsts k xs, length_firsts_le k xs, firsts_subset k xs, fun x hx hnew => ?_⟩
    refine ⟨?_, h x hx hnew⟩
    by_contra hroom
    exact hnew (mem_firsts_of_length_lt (lt_of_le_of_ne (length_firsts_le k xs) hroom) hx)

/-! ## Sorting what comes last -/

theorem insertionSort_append_singleton {β : Type} {r : β → β → Prop} [DecidableRel r] {l : List β}
    {b : β} (h : ∀ a ∈ l, r a b) : (l ++ [b]).insertionSort r = l.insertionSort r ++ [b] := by
  have hinsert : ∀ (a : β) (l : List β), r a b →
      (l ++ [b]).orderedInsert r a = l.orderedInsert r a ++ [b] := by
    intro a l hab
    induction l with
    | nil => simp [hab]
    | cons c l ih =>
        by_cases hac : r a c
        · simp [hac]
        · simp [hac, ih]
  induction l with
  | nil => rfl
  | cons a l ih =>
      rw [List.forall_mem_cons] at h
      rw [List.cons_append, List.insertionSort_cons, ih h.2, hinsert a _ h.1, List.insertionSort_cons]

end Frequency
