import Mathlib.Data.List.Nodup
import Mathlib.Data.List.Infix
import PcoMirror.Lib.Run

/-! Turns taken round a ring that is formed anew before each of them: which entries come before
another, and how many turns pass before it is served. -/

namespace RoundRobin

variable {α : Type} [DecidableEq α]

/-! ## The ring at one turn -/

/-- The ring from just past the entry served last, where that one is in it. -/
def rotated (last : Option α) (ring : List α) : List α :=
  match last with
  | some k =>
    if k ∈ ring then ring.drop (ring.idxOf k + 1) ++ ring.take (ring.idxOf k + 1) else ring
  | none => ring

/-- Where a turn stands in the order of all the entries; before the first turn, and after an
entry that is none of them, at the end. -/
def position (order : List α) (last : Option α) : ℕ :=
  match last with
  | some k => min (order.idxOf k) (order.length - 1)
  | none => order.length - 1

/-- How far on the second place of a circle is from the first; a whole round for the same place. -/
def gap (n i j : ℕ) : ℕ :=
  if i < j then j - i else j + n - i

/-- The turn does not go back past an entry: the last one served is still in the ring, or stands
no earlier in the order. -/
def NotPassed (order ring : List α) (u : α) (last : Option α) : Prop :=
  ∀ k ∈ last, k ∈ ring ∨ order.idxOf u ≤ position order (some k)

variable {order ring : List α} {u v : α} {last : Option α}

theorem mem_rotated : u ∈ rotated last ring ↔ u ∈ ring := by
  cases last with
  | none => exact Iff.rfl
  | some k =>
      rw [rotated]
      split_ifs with hk
      · rw [List.mem_append, or_comm, ← List.mem_append, List.take_append_drop]
      · exact Iff.rfl

theorem gap_pos {n i j : ℕ} (hi : i < n) : 0 < gap n i j := by
  rw [gap]
  split_ifs <;> omega

theorem gap_le {n i j : ℕ} (hj : j < n) : gap n i j ≤ n := by
  rw [gap]
  split_ifs <;> omega

/-- A place on the way to another is nearer to it. -/
theorem gap_lt_of_gap_lt {n i j k : ℕ} (hi : i < n) (hk : k < n)
    (h : gap n i j < gap n i k) : gap n j k < gap n i k := by
  simp only [gap] at h ⊢
  split_ifs at h ⊢ <;> omega

theorem position_lt (h : u ∈ order) : position order last < order.length := by
  have hpos : 0 < order.length := List.length_pos_of_mem h
  cases last with
  | none =>
      simp only [position]
      omega
  | some k =>
      simp only [position]
      omega

theorem position_of_mem (h : u ∈ order) : position order (some u) = order.idxOf u := by
  have hlt : order.idxOf u < order.length := List.idxOf_lt_length_of_mem h
  simp only [position]
  omega

/-- A part of an order stands in that order. -/
theorem pairwise_idxOf (hnodup : order.Nodup) (hsub : ring.Sublist order) :
    ring.Pairwise fun a b => order.idxOf a < order.idxOf b := by
  refine List.Pairwise.sublist hsub (List.pairwise_iff_getElem.mpr fun i j hi hj hij => ?_)
  rw [hnodup.idxOf_getElem, hnodup.idxOf_getElem]
  exact hij

/-- Rotated past an entry of its own, a ring stands in the order of the circle from there. -/
theorem pairwise_rotated (hnodup : order.Nodup) (hsub : ring.Sublist order) {k : α} (hk : k ∈ ring) :
    (rotated (some k) ring).Pairwise fun a b =>
      gap order.length (order.idxOf k) (order.idxOf a) <
        gap order.length (order.idxOf k) (order.idxOf b) := by
  have hpairwise := pairwise_idxOf hnodup hsub
  have hmem : ∀ a ∈ ring, order.idxOf a < order.length := fun a ha =>
    List.idxOf_lt_length_of_mem (hsub.subset ha)
  have hki := List.idxOf_lt_length_of_mem hk
  have hcut : ring = ring.take (ring.idxOf k) ++ k :: ring.drop (ring.idxOf k + 1) := by
    have hget : ring[ring.idxOf k] = k := List.getElem_idxOf hki
    conv_lhs => rw [← List.take_append_drop (ring.idxOf k) ring,
      List.drop_eq_getElem_cons hki, hget]
  have htake : ring.take (ring.idxOf k + 1) = ring.take (ring.idxOf k) ++ [k] := by
    rw [List.take_succ_eq_append_getElem hki, List.getElem_idxOf]
  rw [hcut, List.pairwise_append, List.pairwise_cons] at hpairwise
  obtain ⟨hfront, ⟨hafter, hback⟩, hacross⟩ := hpairwise
  have hlast := hmem k hk
  rw [rotated, if_pos hk, htake]
  -- First what stands behind the entry, then what stands before it, and the entry itself.
  refine List.pairwise_append.mpr ⟨?_, List.pairwise_append.mpr ⟨?_, by simp, ?_⟩, ?_⟩
  · refine List.Pairwise.imp_of_mem (fun {a b} ha hb hlt => ?_) hback
    have := hafter a ha
    have := hafter b hb
    rw [gap, gap, if_pos (by omega), if_pos (by omega)]
    omega
  · refine List.Pairwise.imp_of_mem (fun {a b} ha hb hlt => ?_) hfront
    have := hacross a ha k (by simp)
    have := hacross b hb k (by simp)
    rw [gap, gap, if_neg (by omega), if_neg (by omega)]
    omega
  · intro a ha b hb
    obtain rfl := List.mem_singleton.mp hb
    have := hacross a ha b (by simp)
    rw [gap, gap, if_neg (by omega), if_neg (by omega)]
    omega
  · intro a ha b hb
    have hfar := hafter a ha
    have hnear : order.idxOf b ≤ order.idxOf k := by
      rcases List.mem_append.mp hb with hb | hb
      · exact (hacross b hb k (by simp)).le
      · rw [List.mem_singleton.mp hb]
    have := hmem a (List.mem_of_mem_drop ha)
    rw [gap, gap, if_pos hfar, if_neg (by omega)]
    omega

/-- What comes earlier in the rotated ring is nearer to the last entry served. -/
theorem gap_lt_of_before (hnodup : order.Nodup) (hsub : ring.Sublist order)
    (hpassed : NotPassed order ring u last) {pre post : List α}
    (hsplit : rotated last ring = pre ++ u :: post) (hv : v ∈ pre) :
    gap order.length (position order last) (order.idxOf v) <
      gap order.length (position order last) (order.idxOf u) := by
  have hu : u ∈ ring := by
    have hmem : u ∈ rotated last ring := by
      rw [hsplit]
      simp
    exact mem_rotated.mp hmem
  have hlast := List.idxOf_lt_length_of_mem (hsub.subset hu)
  -- Where nothing is rotated, both entries stand before the end of the round.
  have hplain (hpos : order.idxOf u ≤ position order last) (hring : rotated last ring = ring) :
      gap order.length (position order last) (order.idxOf v) <
        gap order.length (position order last) (order.idxOf u) := by
    have hpairwise := pairwise_idxOf hnodup hsub
    rw [← hring, hsplit, List.pairwise_append] at hpairwise
    have hlt := hpairwise.2.2 v hv u (by simp)
    have hposition : position order last < order.length := position_lt (hsub.subset hu)
    rw [gap, gap, if_neg (by omega), if_neg (by omega)]
    omega
  cases last with
  | none => exact hplain (Nat.le_sub_one_of_lt hlast) rfl
  | some k =>
      by_cases hk : k ∈ ring
      · have hrotated := pairwise_rotated hnodup hsub hk
        rw [hsplit, List.pairwise_append] at hrotated
        rw [position_of_mem (hsub.subset hk)]
        exact hrotated.2.2 v hv u (by simp)
      · exact hplain ((hpassed k rfl).resolve_left hk) (if_neg hk)

/-! ## Turn after turn -/

/-- What a turn serves: the entry waited for, or one nearer to the last served. -/
def Turn (order : List α) (u : α) (last : Option α) (v : α) : Prop :=
  v = u ∨ v ∈ order ∧ gap order.length (position order last) (order.idxOf v) <
    gap order.length (position order last) (order.idxOf u)

/-- An entry of the rotated ring that is no later than the one waited for is a turn towards it. -/
theorem turn_of_rotated (hnodup : order.Nodup) (hsub : ring.Sublist order)
    (hpassed : NotPassed order ring u last) {pre post : List α}
    (hsplit : rotated last ring = pre ++ u :: post) (hv : v ∈ pre ∨ v = u) :
    Turn order u last v := by
  rcases hv with hv | rfl
  · have hmem : v ∈ rotated last ring := by
      rw [hsplit]
      exact List.mem_append_left _ hv
    exact .inr ⟨hsub.subset (mem_rotated.mp hmem), gap_lt_of_before hnodup hsub hpassed hsplit hv⟩
  · exact .inl rfl

/-- As many turns as there are entries serve the one waited for. -/
theorem served_of_turns (hu : u ∈ order) {served : List α}
    (hturns : Run.Each (fun _ v => some v) (Turn order u) last served)
    (hlength : gap order.length (position order last) (order.idxOf u) ≤ served.length) :
    u ∈ served := by
  induction served generalizing last with
  | nil =>
      have hposition : position order last < order.length := position_lt hu
      have hpos : 0 < gap order.length (position order last) (order.idxOf u) := gap_pos hposition
      rw [List.length_nil] at hlength
      omega
  | cons v served ih =>
      rcases hturns.1 with rfl | ⟨hv, hlt⟩
      · exact List.mem_cons_self
      · have hnext := gap_lt_of_gap_lt (position_lt hu) (List.idxOf_lt_length_of_mem hu) hlt
        rw [List.length_cons] at hlength
        refine List.mem_cons_of_mem v (ih hturns.2 ?_)
        rw [position_of_mem hv]
        omega

end RoundRobin
