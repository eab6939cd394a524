import Mathlib

/-! Lists served in pages by offset. -/

namespace Paging

variable {α β : Type}

/-- The page of a list at an offset; short where the list ends. -/
def page (size offset : ℕ) (xs : List α) : List α :=
  (xs.drop offset).take size

variable {size offset : ℕ} {xs : List α}

theorem page_map (f : α → β) : page size offset (xs.map f) = (page size offset xs).map f := by
  rw [page, page, List.map_take, List.map_drop]

theorem mem_of_mem_page {x : α} (h : x ∈ page size offset xs) : x ∈ xs :=
  List.mem_of_mem_drop (List.mem_of_mem_take h)

theorem length_page : (page size offset xs).length = min size (xs.length - offset) := by
  simp [page]

/-- A page goes on where the pages before it end. -/
theorem take_append_page : xs.take offset ++ page size offset xs = xs.take (offset + size) := by
  rw [page, List.take_add]

theorem take_append_page_append_drop (size offset : ℕ) (xs : List α) :
    xs.take offset ++ page size offset xs ++ xs.drop (offset + size) = xs := by
  rw [take_append_page, List.take_append_drop]

/-- A short page is the last. -/
theorem take_of_short (h : (page size offset xs).length < size) : xs.take (offset + size) = xs := by
  rw [length_page] at h
  rw [List.take_of_length_le]
  omega

/-- Behind a full page there is as much of the list as it holds. -/
theorem le_of_full (hsize : 0 < size) (h : ¬ (page size offset xs).length < size) :
    offset + size ≤ xs.length := by
  rw [length_page] at h
  omega

/-! ## Keysets -/

/-- In a sorted list, what a page's records do not precede lies before or on the page. -/
theorem mem_take_of_lt {κ : Type} [LinearOrder κ] {key : α → κ} {x y : α}
    (hsorted : xs.Pairwise fun a b => key a ≤ key b) (hx : x ∈ xs)
    (hy : y ∈ page size offset xs) (hlt : key x < key y) : x ∈ xs.take (offset + size) := by
  have hfront : y ∈ xs.take (offset + size) := by
    rw [← take_append_page]
    exact List.mem_append_right _ hy
  rw [← List.take_append_drop (offset + size) xs, List.pairwise_append] at hsorted
  rw [← List.take_append_drop (offset + size) xs] at hx
  rcases List.mem_append.mp hx with hbefore | hback
  · exact hbefore
  · exact absurd (hsorted.2.2 y hfront x hback) (not_le.mpr hlt)

theorem mem_page_zero_of_lt {κ : Type} [LinearOrder κ] {key : α → κ} {x y : α}
    (hsorted : xs.Pairwise fun a b => key a ≤ key b) (hx : x ∈ xs) (hy : y ∈ page size 0 xs)
    (hlt : key x < key y) : x ∈ page size 0 xs := by
  have hfront := mem_take_of_lt hsorted hx hy hlt
  rwa [Nat.zero_add] at hfront

/-- A condition that loses a member counts fewer. -/
theorem countP_lt_countP {p q : α → Bool} {x : α} (h : ∀ y ∈ xs, p y = true → q y = true)
    (hx : x ∈ xs) (hp : p x = false) (hq : q x = true) : xs.countP p < xs.countP q := by
  induction xs with
  | nil => cases hx
  | cons y xs ih =>
      have hrest : xs.countP p ≤ xs.countP q :=
        List.countP_mono_left fun z hz => h z (by simp [hz])
      rcases List.mem_cons.mp hx with rfl | hx
      · simp only [List.countP_cons, hp, hq]
        simp only [Bool.false_eq_true, if_false, if_true]
        omega
      · have hlt := ih (fun z hz => h z (by simp [hz])) hx
        have hy := h y (by simp)
        simp only [List.countP_cons]
        split_ifs with h₁ h₂
        · omega
        · exact absurd (hy h₁) h₂
        · omega
        · omega

end Paging
