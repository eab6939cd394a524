import Mathlib.Algebra.BigOperators.Group.List.Basic
import Mathlib.Algebra.Order.Ring.Defs
import Mathlib.Data.Nat.Cast.Order.Ring
import Mathlib.Tactic.Linarith
import Mathlib.Tactic.Ring
import PcoMirror.Lib.Run

/-! Token buckets: tokens that arrive at a rate, up to a capacity, and what can be spent of them
in any stretch of time, however rate and capacity change. -/

namespace TokenBucket

variable {K : Type} [CommRing K] [LinearOrder K]

/-- The tokens, and when they were last counted. -/
structure Bucket (K : Type) where
  tokens : K
  last : K

/-- A look at the bucket: it is refilled, and some of the tokens are spent. -/
structure Visit (K : Type) [Zero K] [LE K] where
  now : K
  rate : K
  capacity : K
  spent : ℕ
  rate_nonneg : 0 ≤ rate
  capacity_nonneg : 0 ≤ capacity

inductive Move (K : Type) [Zero K] [LE K] where
  | visit (v : Visit K)
  /-- What there is, is thrown away. -/
  | drain (now : K)

def Move.now : Move K → K
  | .visit v => v.now
  | .drain now => now

/-- The tokens a visit finds. -/
def Bucket.level (b : Bucket K) (v : Visit K) : K :=
  min v.capacity (b.tokens + (v.now - b.last) * v.rate)

def Bucket.move (b : Bucket K) : Move K → Bucket K
  | .visit v => ⟨b.level v - v.spent, v.now⟩
  | .drain _ => ⟨0, b.last⟩

/-- Only tokens that are there are spent. -/
def Bucket.Affords (b : Bucket K) : Move K → Prop
  | .visit v => 0 < v.spent → (v.spent : K) ≤ b.level v
  | .drain _ => True

/-- What a move spends, where it falls into a window. -/
def Move.spentIn (start stop : K) : Move K → ℕ
  | .visit v => if start ≤ v.now ∧ v.now ≤ stop then v.spent else 0
  | .drain _ => 0

def spentIn (start stop : K) (moves : List (Move K)) : ℕ :=
  (moves.map (Move.spentIn start stop)).sum

@[simp] theorem spentIn_nil (start stop : K) : spentIn start stop [] = 0 := rfl

@[simp] theorem spentIn_cons (start stop : K) (m : Move K) (moves : List (Move K)) :
    spentIn start stop (m :: moves) = m.spentIn start stop + spentIn start stop moves := by
  simp [spentIn]

variable {b : Bucket K} {v : Visit K} {moves : List (Move K)} {start stop rate capacity : K}

theorem Move.spentIn_eq_zero {m : Move K} (h : m.now < start ∨ stop < m.now) :
    m.spentIn start stop = 0 := by
  cases m with
  | visit v => exact if_neg fun hin => h.elim hin.1.not_gt hin.2.not_gt
  | drain now => rfl

theorem spentIn_eq_zero (h : ∀ m ∈ moves, stop < m.now) : spentIn start stop moves = 0 := by
  rw [spentIn, List.sum_eq_zero]
  intro n hn
  obtain ⟨m, hm, rfl⟩ := List.mem_map.mp hn
  exact Move.spentIn_eq_zero (.inr (h m hm))

theorem Bucket.level_le_capacity (b : Bucket K) (v : Visit K) : b.level v ≤ v.capacity :=
  min_le_left _ _

/-- A rate and a capacity that every visit of a window stays under. -/
def Within (start stop rate capacity : K) (moves : List (Move K)) : Prop :=
  ∀ v, .visit v ∈ moves → start ≤ v.now → v.now ≤ stop → v.rate ≤ rate ∧ v.capacity ≤ capacity

theorem Within.tail {m : Move K} (h : Within start stop rate capacity (m :: moves)) :
    Within start stop rate capacity moves :=
  fun v hv => h v (List.mem_cons_of_mem m hv)

variable [IsStrictOrderedRing K]

/-- What has arrived since some moment is there at the next look, as far as there is room. -/
theorem Bucket.le_level {x since : K} (hb : min v.capacity (x + (b.last - since) * v.rate) ≤ b.tokens)
    (hlast : b.last ≤ v.now) : min v.capacity (x + (v.now - since) * v.rate) ≤ b.level v := by
  have harrived : 0 ≤ (v.now - b.last) * v.rate := mul_nonneg (sub_nonneg.mpr hlast) v.rate_nonneg
  have hsum : x + (v.now - since) * v.rate =
      x + (b.last - since) * v.rate + (v.now - b.last) * v.rate := by ring
  refine le_min (min_le_left _ _) ?_
  rcases min_le_iff.mp hb with hfull | hmore
  · exact (min_le_left _ _).trans (hfull.trans (le_add_of_nonneg_right harrived))
  · rw [hsum]
    exact (min_le_right _ _).trans (add_le_add_left hmore _)

/-- No tokens are owed after a visit. -/
theorem Bucket.visit_nonneg (hb : 0 ≤ b.tokens) (hlast : b.last ≤ v.now)
    (hafford : b.Affords (.visit v)) : 0 ≤ b.level v - v.spent := by
  rcases Nat.eq_zero_or_pos v.spent with hnone | hsome
  · have harrived : 0 ≤ (v.now - b.last) * v.rate :=
      mul_nonneg (sub_nonneg.mpr hlast) v.rate_nonneg
    rw [hnone, Nat.cast_zero, sub_zero]
    exact le_min v.capacity_nonneg (add_nonneg hb harrived)
  · exact sub_nonneg.mpr (hafford hsome)

/-- From a bucket inside the window: what it holds, and what arrives until the window ends. -/
theorem spentIn_le_tokens (hrate : 0 ≤ rate) (hb : 0 ≤ b.tokens) (hstart : start ≤ b.last)
    (hstop : b.last ≤ stop) (hlast : ∀ m ∈ moves, b.last ≤ m.now)
    (hsorted : moves.Pairwise fun m m' => m.now ≤ m'.now)
    (hafford : Run.Each Bucket.move Bucket.Affords b moves)
    (hwithin : Within start stop rate capacity moves) :
    (spentIn start stop moves : K) ≤ b.tokens + rate * (stop - b.last) := by
  have hspare : 0 ≤ rate * (stop - b.last) := mul_nonneg hrate (sub_nonneg.mpr hstop)
  induction moves generalizing b with
  | nil => simpa using add_nonneg hb hspare
  | cons m moves ih =>
      rw [List.forall_mem_cons] at hlast
      rw [List.pairwise_cons] at hsorted
      rcases lt_or_ge stop m.now with hafter | hbefore
      · have hnone : spentIn start stop (m :: moves) = 0 := by
          refine spentIn_eq_zero (List.forall_mem_cons.mpr ⟨hafter, fun m' hm' => ?_⟩)
          exact hafter.trans_le (hsorted.1 m' hm')
        rw [hnone, Nat.cast_zero]
        exact add_nonneg hb hspare
      cases m with
      | drain now =>
          have hrest := ih (b := ⟨0, b.last⟩) le_rfl hstart hstop hlast.2 hsorted.2 hafford.2
            hwithin.tail hspare
          rw [spentIn_cons, Move.spentIn, Nat.zero_add]
          linarith
      | visit v =>
          have hlevel : b.level v ≤ b.tokens + (v.now - b.last) * rate := by
            have harrived : (v.now - b.last) * v.rate ≤ (v.now - b.last) * rate :=
              mul_le_mul_of_nonneg_left
                (hwithin v (by simp) (hstart.trans hlast.1) hbefore).1 (sub_nonneg.mpr hlast.1)
            exact (min_le_right _ _).trans (add_le_add_right harrived _)
          have hrest := ih (b := ⟨b.level v - v.spent, v.now⟩)
            (Bucket.visit_nonneg hb hlast.1 hafford.1) (hstart.trans hlast.1) hbefore hsorted.1
            hsorted.2 hafford.2 hwithin.tail (mul_nonneg hrate (sub_nonneg.mpr hbefore))
          have hone : ((Move.visit v).spentIn start stop : K) = v.spent := by
            rw [Move.spentIn, if_pos ⟨hstart.trans hlast.1, hbefore⟩]
          rw [spentIn_cons, Nat.cast_add, hone]
          dsimp only at hrest
          linarith

/-- In any window: one capacity, and what arrives while the window lasts. -/
theorem spentIn_le (hrate : 0 ≤ rate) (hcapacity : 0 ≤ capacity) (hwindow : start ≤ stop)
    (hsorted : moves.Pairwise fun m m' => m.now ≤ m'.now)
    (hafford : Run.Each Bucket.move Bucket.Affords b moves)
    (hwithin : Within start stop rate capacity moves) :
    (spentIn start stop moves : K) ≤ capacity + rate * (stop - start) := by
  have hspare : 0 ≤ rate * (stop - start) := mul_nonneg hrate (sub_nonneg.mpr hwindow)
  induction moves generalizing b with
  | nil => simpa using add_nonneg hcapacity hspare
  | cons m moves ih =>
      rw [List.pairwise_cons] at hsorted
      have hrest := ih hsorted.2 hafford.2 hwithin.tail
      rcases Nat.eq_zero_or_pos (m.spentIn start stop) with hnone | hsome
      · rwa [spentIn_cons, hnone, Nat.zero_add]
      -- The first visit that spends leaves at most the capacity, less what it spends.
      cases m with
      | drain now => exact absurd hsome (lt_irrefl 0)
      | visit v =>
          by_cases hin : start ≤ v.now ∧ v.now ≤ stop
          swap
          · rw [Move.spentIn, if_neg hin] at hsome
            exact absurd hsome (lt_irrefl 0)
          rw [Move.spentIn, if_pos hin] at hsome
          have hlater := spentIn_le_tokens hrate (b := ⟨b.level v - v.spent, v.now⟩)
            (sub_nonneg.mpr (hafford.1 hsome)) hin.1 hin.2 hsorted.1 hsorted.2 hafford.2
            hwithin.tail
          have hlevel := (b.level_le_capacity v).trans (hwithin v (by simp) hin.1 hin.2).2
          have hshorter : rate * (stop - v.now) ≤ rate * (stop - start) :=
            mul_le_mul_of_nonneg_left (sub_le_sub_left hin.1 stop) hrate
          rw [spentIn_cons, Move.spentIn, if_pos hin, Nat.cast_add]
          dsimp only at hlater
          linarith

end TokenBucket
