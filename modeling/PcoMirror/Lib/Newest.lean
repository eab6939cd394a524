import Mathlib.Data.List.Infix
import Mathlib.Data.List.Induction

/-! Logs that keep their newest entries, as many as a bound allows. -/

namespace Newest

variable {α : Type} {fits : List α → Prop} [DecidablePred fits] {xs ys zs : List α} {x : α}

/-- The longest end of a list that fits. -/
def newest (fits : List α → Prop) [DecidablePred fits] : List α → List α
  | [] => []
  | x :: xs => if fits (x :: xs) then x :: xs else newest fits xs

theorem newest_suffix (fits : List α → Prop) [DecidablePred fits] (xs : List α) :
    newest fits xs <:+ xs := by
  induction xs with
  | nil => exact List.suffix_rfl
  | cons x xs ih =>
      rw [newest]
      split_ifs
      · exact List.suffix_rfl
      · exact ih.trans (List.suffix_cons x xs)

theorem fits_newest (hnil : fits []) : fits (newest fits xs) := by
  induction xs with
  | nil => exact hnil
  | cons x xs ih =>
      rw [newest]
      split_ifs with h
      · exact h
      · exact ih

/-- Every end that fits is an end of it. -/
theorem suffix_newest (hsuffix : ys <:+ xs) (hfits : fits ys) : ys <:+ newest fits xs := by
  induction xs with
  | nil => exact hsuffix
  | cons x xs ih =>
      rw [newest]
      split_ifs with h
      · exact hsuffix
      · rcases List.suffix_cons_iff.mp hsuffix with rfl | hsuffix
        · exact absurd hfits h
        · exact ih hsuffix

theorem newest_eq (hsuffix : zs <:+ xs) (hfits : fits zs)
    (hlongest : ∀ ys, ys <:+ xs → fits ys → ys <:+ zs) : newest fits xs = zs := by
  have hle : newest fits xs <:+ zs := by
    refine hlongest _ (newest_suffix fits xs) ?_
    induction xs with
    | nil => rwa [List.suffix_nil.mp hsuffix] at hfits
    | cons x xs ih =>
        rw [newest]
        split_ifs with h
        · exact h
        · rcases List.suffix_cons_iff.mp hsuffix with rfl | hsuffix
          · exact absurd hfits h
          · exact ih hsuffix fun ys hys => hlongest ys (hys.trans (List.suffix_cons x xs))
  exact hle.eq_of_length_le (suffix_newest hsuffix hfits).length_le

/-- Evicting after each entry leaves what evicting at the end would. -/
theorem newest_append_singleton (hnil : fits []) (hsub : ∀ ys zs, ys.Sublist zs → fits zs → fits ys)
    (xs : List α) (x : α) : newest fits (xs ++ [x]) = newest fits (newest fits xs ++ [x]) := by
  refine newest_eq ?_ (fits_newest hnil) fun ys hsuffix hfits => ?_
  · exact (newest_suffix fits _).trans (List.suffix_append_self_iff.mpr (newest_suffix fits xs))
  · refine suffix_newest ?_ hfits
    rcases List.suffix_concat_iff.mp hsuffix with rfl | ⟨older, rfl, holder⟩
    · exact List.nil_suffix
    · have hfit : fits older := hsub older _ (List.sublist_append_left older [x]) hfits
      exact List.suffix_append_self_iff.mpr (suffix_newest holder hfit)

/-- Of two bounds, one is seen to after the other. -/
theorem newest_newest {bound : List α → Prop} [DecidablePred bound] (hnil : fits [] ∧ bound [])
    (hsub : ∀ ys zs, ys.Sublist zs → fits zs → fits ys) (xs : List α) :
    newest bound (newest fits xs) = newest (fun ys => fits ys ∧ bound ys) xs := by
  have hfits : fits (newest bound (newest fits xs)) :=
    hsub _ _ (newest_suffix bound _).sublist (fits_newest hnil.1)
  refine (newest_eq ?_ ⟨hfits, fits_newest hnil.2⟩ fun ys hsuffix hys => ?_).symm
  · exact (newest_suffix bound _).trans (newest_suffix fits xs)
  · exact suffix_newest (suffix_newest hsuffix hys.1) hys.2

/-- The last entry is kept where it fits by itself. -/
theorem getLast?_newest_append_singleton (hnil : fits [])
    (hsub : ∀ ys zs, ys.Sublist zs → fits zs → fits ys) (xs : List α) (x : α) :
    (newest fits (xs ++ [x])).getLast? = some x ↔ fits [x] := by
  rw [← List.singleton_suffix_iff_getLast?_eq_some]
  constructor
  · exact fun h => hsub _ _ h.sublist (fits_newest hnil)
  · exact suffix_newest (List.suffix_append xs [x])

/-- An end that fits, and the next longer one does not. -/
theorem newest_eq_drop {n : ℕ} (hsub : ∀ ys zs, ys.Sublist zs → fits zs → fits ys)
    (hfits : fits (xs.drop n)) (hmore : ∀ m, n = m + 1 → ¬ fits (xs.drop m)) :
    newest fits xs = xs.drop n := by
  refine newest_eq (List.drop_suffix n xs) hfits fun ys hsuffix hys => ?_
  obtain ⟨older, rfl⟩ := hsuffix
  by_cases hle : n ≤ older.length
  · rw [List.drop_append_of_le_length hle]
    exact List.suffix_append _ ys
  · obtain ⟨m, rfl⟩ : ∃ m, n = m + 1 := Nat.exists_eq_succ_of_ne_zero (by omega)
    refine absurd (hsub _ _ ?_ hys) (hmore m rfl)
    rw [List.drop_append, List.drop_eq_nil_of_le (by omega), List.nil_append]
    exact List.drop_sublist _ ys

end Newest
