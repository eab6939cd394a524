import Mathlib.Data.Set.Card

/-! Runs that mend their faults: no step brings a new one, and a step from an unsettled state
mends one. -/

namespace Settling

variable {σ α : Type} {state : ℕ → σ} {settled : σ → Prop} {faults : σ → Set α}

/-- No step brings a fault, and while the state is not settled each step mends one. -/
structure Mends (state : ℕ → σ) (settled : σ → Prop) (faults : σ → Set α) : Prop where
  finite : (faults (state 0)).Finite
  next : ∀ n, faults (state (n + 1)) ⊆ faults (state n)
  mended : ∀ n, ¬ settled (state n) → ∃ a ∈ faults (state n), a ∉ faults (state (n + 1))

theorem Mends.finite_at (h : Mends state settled faults) (n : ℕ) :
    (faults (state n)).Finite := by
  induction n with
  | zero => exact h.finite
  | succ n ih => exact ih.subset (h.next n)

/-- A step from an unsettled state leaves fewer faults. -/
theorem Mends.ncard_lt (h : Mends state settled faults) {n : ℕ} (hn : ¬ settled (state n)) :
    (faults (state (n + 1))).ncard < (faults (state n)).ncard := by
  obtain ⟨a, ha, hmended⟩ := h.mended n hn
  refine Set.ncard_lt_ncard ⟨h.next n, fun hsub => ?_⟩ (h.finite_at n)
  exact hmended (hsub ha)

/-- A settled state is reached in as many steps as there are faults. -/
theorem Mends.exists_settled (h : Mends state settled faults) :
    ∃ n ≤ (faults (state 0)).ncard, settled (state n) := by
  by_contra hnever
  push Not at hnever
  have hcount : ∀ n ≤ (faults (state 0)).ncard,
      (faults (state n)).ncard + n ≤ (faults (state 0)).ncard := by
    intro n hn
    induction n with
    | zero => exact le_rfl
    | succ n ih =>
        have hlt := h.ncard_lt (hnever n (by omega))
        have hbefore := ih (by omega)
        omega
  have hlast := hcount _ le_rfl
  have hlt := h.ncard_lt (hnever _ le_rfl)
  omega

end Settling
