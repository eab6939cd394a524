import PcoMirror.Lib.Paging

/-! A sorted list read page after page from an inclusive cursor on its key, with no offset: what such
a reader comes to know, where it spins, and what it leaves behind. -/

namespace Keyset

variable {α κ : Type} [LinearOrder κ]

/-- The records at or after a cursor. -/
def since (key : α → κ) (xs : List α) (cursor : κ) : List α :=
  xs.filter (cursor ≤ key ·)

/-- The page that answers a cursor. -/
def page (key : α → κ) (size : ℕ) (xs : List α) (cursor : κ) : List α :=
  (since key xs cursor).take size

/-- The greatest key of a page, or the cursor where none is greater. -/
def advance (key : α → κ) (cursor : κ) (page : List α) : κ :=
  page.foldl (fun cursor x => if cursor < key x then key x else cursor) cursor

/-- Where a reader stands. -/
structure Reader (α κ : Type) where
  cursor : κ
  known : α → Prop

/-- The reader after one more page. -/
def Reader.next (key : α → κ) (size : ℕ) (xs : List α) (s : Reader α κ) : Reader α κ where
  cursor := advance key s.cursor (page key size xs s.cursor)
  known x := s.known x ∨ x ∈ page key size xs s.cursor

/-- The reader after so many pages. -/
def Reader.after (key : α → κ) (size : ℕ) (xs : List α) (s : Reader α κ) : ℕ → Reader α κ
  | 0 => s
  | n + 1 => (s.next key size xs).after key size xs n

/-- The page is full, and it brought something new or moved the cursor. -/
def Reader.GoesOn (key : α → κ) (size : ℕ) (xs : List α) (s : Reader α κ) : Prop :=
  (page key size xs s.cursor).length = size ∧
    ((∃ x ∈ page key size xs s.cursor, ¬s.known x) ∨ (s.next key size xs).cursor ≠ s.cursor)

/-- At least a page of records share the key. -/
def Saturated (key : α → κ) (size : ℕ) (xs : List α) (c : κ) : Prop :=
  size ≤ xs.countP (key · = c)

variable {key : α → κ} {size : ℕ} {xs : List α} {s : Reader α κ} {c d : κ} {x : α}

/-! ## Pages -/

theorem mem_since : x ∈ since key xs c ↔ x ∈ xs ∧ c ≤ key x := by
  simp [since]

theorem mem_of_mem_page (h : x ∈ page key size xs c) : x ∈ xs ∧ c ≤ key x :=
  mem_since.mp (List.mem_of_mem_take h)

theorem advance_cases (key : α → κ) (cursor : κ) (page : List α) :
    cursor ≤ advance key cursor page ∧ (∀ x ∈ page, key x ≤ advance key cursor page) ∧
      (advance key cursor page = cursor ∨ ∃ x ∈ page, key x = advance key cursor page) := by
  induction page generalizing cursor with
  | nil => exact ⟨le_refl _, nofun, .inl rfl⟩
  | cons x page ih =>
      obtain ⟨hle, hall, hcases⟩ := ih (if cursor < key x then key x else cursor)
      rw [advance, List.foldl_cons, ← advance]
      have hx : key x ≤ if cursor < key x then key x else cursor := by
        split_ifs with h
        · exact le_refl _
        · exact not_lt.mp h
      have hcursor : cursor ≤ if cursor < key x then key x else cursor := by
        split_ifs with h
        · exact h.le
        · exact le_refl _
      refine ⟨hcursor.trans hle, ?_, ?_⟩
      · intro y hy
        rcases List.mem_cons.mp hy with rfl | hy
        · exact hx.trans hle
        · exact hall y hy
      · rcases hcases with heq | ⟨y, hy, heq⟩
        · rw [heq]
          split_ifs
          · exact .inr ⟨x, List.mem_cons_self, rfl⟩
          · exact .inl rfl
        · exact .inr ⟨y, List.mem_cons_of_mem _ hy, heq⟩

theorem le_next (s : Reader α κ) : s.cursor ≤ (s.next key size xs).cursor :=
  (advance_cases key s.cursor _).1

/-- A list along which a condition only ever fails is what meets it, and then the rest. -/
theorem filter_append_filter_not {p : α → Bool} {l : List α}
    (h : l.Pairwise fun a b => p b = true → p a = true) :
    l.filter p ++ l.filter (!p ·) = l := by
  induction l with
  | nil => rfl
  | cons a l ih =>
      rw [List.pairwise_cons] at h
      cases ha : p a with
      | true => simpa [ha] using ih h.2
      | false =>
          have hall : ∀ b ∈ l, p b = false := fun b hb => by
            by_contra hpb
            exact Bool.false_ne_true (ha.symm.trans (h.1 b hb (by simpa using hpb)))
          have hnone : l.filter p = [] := List.filter_eq_nil_iff.mpr fun b hb => by simp [hall b hb]
          have hself : l.filter (!p ·) = l := List.filter_eq_self.mpr fun b hb => by simp [hall b hb]
          simp [ha, hnone, hself]

section Sorted

variable (hsorted : xs.Pairwise fun a b => key a ≤ key b)

include hsorted

/-- What is read from a cursor comes before what is read from a later one. -/
theorem since_eq_append (h : c ≤ d) :
    since key xs c = (since key xs c).filter (key · < d) ++ since key xs d := by
  have hpair : (since key xs c).Pairwise fun a b =>
      decide (key b < d) = true → decide (key a < d) = true :=
    (hsorted.sublist List.filter_sublist).imp fun hab hb =>
      decide_eq_true (lt_of_le_of_lt hab (of_decide_eq_true hb))
  have hrest : (since key xs c).filter (fun x => !decide (key x < d)) = since key xs d := by
    rw [since, since, List.filter_filter]
    refine List.filter_congr fun x _ => ?_
    rw [Bool.eq_iff_iff]
    simp only [Bool.and_eq_true, Bool.not_eq_true', decide_eq_true_eq, decide_eq_false_iff_not,
      not_lt, and_iff_left_iff_imp]
    exact h.trans
  rw [← hrest]
  exact (filter_append_filter_not hpair).symm

/-- A page from a cursor has, from a later one on, none of what comes after a page from there. -/
theorem not_mem_page_of_mem_drop (hnodup : xs.Nodup) (h : c ≤ d)
    (hx : x ∈ (since key xs d).drop size) : x ∉ page key size xs c := by
  rw [page, since_eq_append hsorted h, List.take_append]
  intro hmem
  have hlate := mem_since.mp (List.mem_of_mem_drop hx)
  rcases List.mem_append.mp hmem with hearly | hpage
  · have hlt : key x < d := by simpa using (List.mem_filter.mp (List.mem_of_mem_take hearly)).2
    exact absurd hlate.2 (not_le.mpr hlt)
  · have hnodup : (since key xs d).Nodup := hnodup.filter _
    rw [← List.take_append_drop size (since key xs d), List.nodup_append] at hnodup
    exact hnodup.2.2 x (List.take_subset_take_left _ (Nat.sub_le _ _) hpage) x hx rfl

/-- No page from a cursor up to a saturated key goes past the key. -/
theorem key_le_of_mem_page (hfull : Saturated key size xs d) (h : c ≤ d)
    (hx : x ∈ page key size xs c) : key x ≤ d := by
  rw [page, since_eq_append hsorted h, List.take_append] at hx
  rcases List.mem_append.mp hx with hearly | hpage
  · have hlt : key x < d := by simpa using (List.mem_filter.mp (List.mem_of_mem_take hearly)).2
    exact hlt.le
  · have hpair : (since key xs d).Pairwise fun a b =>
        decide (key b ≤ d) = true → decide (key a ≤ d) = true :=
      (hsorted.sublist List.filter_sublist).imp fun hab hb =>
        decide_eq_true (hab.trans (of_decide_eq_true hb))
    have hlength : size ≤ ((since key xs d).filter (key · ≤ d)).length := by
      rw [since, List.filter_filter, ← List.countP_eq_length_filter]
      refine Nat.le_trans hfull (List.countP_mono_left fun y _ hy => ?_)
      simp [of_decide_eq_true hy]
    rw [← filter_append_filter_not hpair,
      List.take_append_of_le_length (Nat.le_trans (Nat.sub_le _ _) hlength)] at hpage
    simpa using (List.mem_filter.mp (List.mem_of_mem_take hpage)).2

end Sorted

/-! ## What is left behind -/

theorem Reader.after_succ (s : Reader α κ) (n : ℕ) :
    s.after key size xs (n + 1) = (s.after key size xs n).next key size xs := by
  induction n generalizing s with
  | zero => rfl
  | succ n ih => exact ih _

theorem Reader.after_add (s : Reader α κ) (n m : ℕ) :
    s.after key size xs (n + m) = (s.after key size xs n).after key size xs m := by
  induction n generalizing s with
  | zero => rw [Nat.zero_add, Reader.after]
  | succ n ih =>
      rw [Nat.succ_add]
      exact ih _

theorem Reader.known_mono (h : s.known x) (n : ℕ) : (s.after key size xs n).known x := by
  induction n generalizing s with
  | zero => exact h
  | succ n ih => exact ih (.inl h)

/-- A record before the cursor is not read any more. -/
theorem Reader.missed_behind (hx : key x < s.cursor) (hnew : ¬s.known x) (n : ℕ) :
    ¬(s.after key size xs n).known x := by
  induction n generalizing s with
  | zero => exact hnew
  | succ n ih =>
      refine ih (lt_of_lt_of_le hx (le_next s)) ?_
      rintro (hknown | hpage)
      · exact hnew hknown
      · exact absurd (mem_of_mem_page hpage).2 (not_le.mpr hx)

/-- A record more than a page behind the start of a saturated key is never read. -/
theorem Reader.missed_beyond (hsorted : xs.Pairwise fun a b => key a ≤ key b) (hnodup : xs.Nodup)
    (hfull : Saturated key size xs c) (hx : x ∈ (since key xs c).drop size) (hle : s.cursor ≤ c)
    (hnew : ¬s.known x) (n : ℕ) : ¬(s.after key size xs n).known x := by
  induction n generalizing s with
  | zero => exact hnew
  | succ n ih =>
      refine ih ?_ ?_
      · rcases (advance_cases key s.cursor (page key size xs s.cursor)).2.2 with
          heq | ⟨y, hy, heq⟩
        · exact le_of_eq_of_le heq hle
        · exact le_of_eq_of_le heq.symm (key_le_of_mem_page hsorted hfull hle hy)
      · rintro (hknown | hpage)
        · exact hnew hknown
        · exact not_mem_page_of_mem_drop hsorted hnodup hle hx hpage

/-! ## What is reached -/

/-- Everything before the cursor is known. -/
def Reader.Behind (key : α → κ) (xs : List α) (s : Reader α κ) : Prop :=
  ∀ x ∈ xs, key x < s.cursor → s.known x

theorem Reader.Behind.next (hsorted : xs.Pairwise fun a b => key a ≤ key b)
    (h : s.Behind key xs) (size : ℕ) : (s.next key size xs).Behind key xs := by
  intro x hx hlt
  by_cases hbefore : key x < s.cursor
  · exact .inl (h x hx hbefore)
  · rcases (advance_cases key s.cursor (page key size xs s.cursor)).2.2 with
      heq | ⟨y, hy, heq⟩
    · exact absurd (lt_of_lt_of_eq hlt heq) hbefore
    · have hmem : x ∈ since key xs s.cursor := mem_since.mpr ⟨hx, not_lt.mp hbefore⟩
      have hlt' : key x < key y := lt_of_lt_of_eq hlt heq.symm
      have hpage : x ∈ Paging.page size 0 (since key xs s.cursor) :=
        Paging.mem_page_zero_of_lt (hsorted.sublist List.filter_sublist) hmem hy hlt'
      exact .inr hpage

/-- How far a reader is from the end: the records it does not know, and those after its cursor. -/
noncomputable def Reader.distance (key : α → κ) (xs : List α) (s : Reader α κ) : ℕ :=
  open Classical in xs.countP (fun x => ¬s.known x) + xs.countP (s.cursor < key ·)

theorem Reader.distance_le (s : Reader α κ) : s.distance key xs ≤ 2 * xs.length := by
  classical
  rw [distance]
  have hknown := List.countP_le_length (p := fun x => decide ¬s.known x) (l := xs)
  have hcursor := List.countP_le_length (p := fun x => decide (s.cursor < key x)) (l := xs)
  omega

/-- Going on brings the reader nearer. -/
theorem Reader.GoesOn.distance_lt (h : s.GoesOn key size xs) :
    (s.next key size xs).distance key xs < s.distance key xs := by
  classical
  have hknown : ∀ x ∈ xs, decide (¬(s.next key size xs).known x) = true →
      decide (¬s.known x) = true := fun x _ hx =>
    decide_eq_true fun hknown => of_decide_eq_true hx (.inl hknown)
  have hcursor : ∀ x ∈ xs, decide ((s.next key size xs).cursor < key x) = true →
      decide (s.cursor < key x) = true := fun x _ hx =>
    decide_eq_true (lt_of_le_of_lt (le_next s) (of_decide_eq_true hx))
  rw [distance, distance]
  rcases h.2 with ⟨x, hx, hnew⟩ | hmoved
  · have hlt := Paging.countP_lt_countP hknown (mem_of_mem_page hx).1
      (decide_eq_false (not_not_intro (.inr hx))) (decide_eq_true hnew)
    exact Nat.add_lt_add_of_lt_of_le hlt (List.countP_mono_left hcursor)
  · rcases (advance_cases key s.cursor (page key size xs s.cursor)).2.2 with
      heq | ⟨y, hy, heq⟩
    · exact absurd heq hmoved
    · have hy' : s.cursor < key y := by
        rw [heq]
        exact lt_of_le_of_ne (le_next s) (Ne.symm hmoved)
      have hlt := Paging.countP_lt_countP hcursor (mem_of_mem_page hy).1
        (decide_eq_false (not_lt.mpr (le_of_eq heq))) (decide_eq_true hy')
      exact Nat.add_lt_add_of_le_of_lt (List.countP_mono_left hknown) hlt

/-- A reader that has read all before its cursor comes to know every record, but for what lies more
than a page behind the start of a saturated key. -/
theorem Reader.Behind.reaches (hsorted : xs.Pairwise fun a b => key a ≤ key b)
    (h : s.Behind key xs) (size : ℕ) : ∃ n, ∀ x ∈ xs, (s.after key size xs n).known x ∨
      ∃ c, s.cursor ≤ c ∧ Saturated key size xs c ∧ x ∈ (since key xs c).drop size := by
  induction hd : s.distance key xs using Nat.strongRecOn generalizing s with
  | ind d ih =>
  by_cases hon : s.GoesOn key size xs
  · obtain ⟨n, hn⟩ := ih _ (hd ▸ hon.distance_lt) (h.next hsorted size) rfl
    refine ⟨n + 1, fun x hx => (hn x hx).imp (fun hknown => hknown) ?_⟩
    rintro ⟨c, hle, hfull, hdrop⟩
    exact ⟨c, (le_next s).trans hle, hfull, hdrop⟩
  · by_cases hshort : (page key size xs s.cursor).length = size
    · refine ⟨0, fun x hx => ?_⟩
      simp only [Reader.GoesOn, hshort, true_and, not_or, not_exists, not_and, not_not] at hon
      obtain ⟨hknown, hcursor⟩ := hon
      by_cases hlt : key x < s.cursor
      · exact .inl (h x hx hlt)
      · have hmem : x ∈ since key xs s.cursor := mem_since.mpr ⟨hx, not_lt.mp hlt⟩
        rw [← List.take_append_drop size (since key xs s.cursor)] at hmem
        rcases List.mem_append.mp hmem with hpage | hdrop
        · exact .inl (hknown x hpage)
        · refine .inr ⟨s.cursor, le_refl _, ?_, hdrop⟩
          have hall : (page key size xs s.cursor).countP (key · = s.cursor) = size := by
            rw [List.countP_eq_length.mpr, hshort]
            intro y hy
            refine decide_eq_true (le_antisymm ?_ (mem_of_mem_page hy).2)
            exact le_of_le_of_eq ((advance_cases key s.cursor _).2.1 y hy) hcursor
          rw [Saturated, ← hall]
          exact ((List.take_sublist size _).trans List.filter_sublist).countP_le
    · refine ⟨1, fun x hx => .inl ?_⟩
      by_cases hlt : key x < s.cursor
      · exact .inl (h x hx hlt)
      · have hwhole : page key size xs s.cursor = since key xs s.cursor := by
          refine List.take_of_length_le ?_
          by_contra hlong
          exact hshort (by rw [page, List.length_take]; omega)
        exact .inr (hwhole ▸ mem_since.mpr ⟨hx, not_lt.mp hlt⟩)

/-- A reader comes to know every record just where it knows all that lie before its cursor, and all
that lie more than a page behind the start of a saturated key. -/
theorem Reader.complete_iff (hsorted : xs.Pairwise fun a b => key a ≤ key b) (hnodup : xs.Nodup)
    (size : ℕ) (s : Reader α κ) : (∃ n, ∀ x ∈ xs, (s.after key size xs n).known x) ↔
      s.Behind key xs ∧ ∀ c, s.cursor ≤ c → Saturated key size xs c →
        ∀ x ∈ (since key xs c).drop size, s.known x := by
  constructor
  · rintro ⟨n, hn⟩
    constructor
    · intro x hx hlt
      by_contra hnew
      exact s.missed_behind hlt hnew n (hn x hx)
    · intro c hle hfull x hx
      by_contra hnew
      exact s.missed_beyond hsorted hnodup hfull hx hle hnew n
        (hn x (mem_since.mp (List.mem_of_mem_drop hx)).1)
  · rintro ⟨hbehind, hbeyond⟩
    obtain ⟨n, hn⟩ := hbehind.reaches hsorted size
    refine ⟨n, fun x hx => ?_⟩
    rcases hn x hx with hknown | ⟨c, hle, hfull, hdrop⟩
    · exact hknown
    · exact s.known_mono (hbeyond c hle hfull x hdrop) n

end Keyset
