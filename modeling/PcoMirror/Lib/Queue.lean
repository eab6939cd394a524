import Mathlib.Data.List.Induction
import Mathlib.Data.List.Nodup
import Mathlib.Data.List.Sort
import Mathlib.Order.MinMax

/-! Queues served from the front a batch at a time, where some of the entries are never served:
which of the others are reached, when a batch stops at such an entry and when it goes past. -/

namespace Queue

variable {α : Type}

/-! ## A stable sort under filtering -/

section Sorting

variable {r : α → α → Prop} [DecidableRel r]

theorem orderedInsert_of_forall {a : α} {l : List α} (h : ∀ b ∈ l, r a b) :
    l.orderedInsert r a = a :: l := by
  cases l with
  | nil => rfl
  | cons b l => exact List.orderedInsert_cons_of_le r l (h b List.mem_cons_self)

variable [IsTrans α r]

theorem filter_orderedInsert (p : α → Bool) (a : α) {l : List α} (h : l.Pairwise r) :
    (l.orderedInsert r a).filter p =
      if p a then (l.filter p).orderedInsert r a else l.filter p := by
  induction l with
  | nil => cases hp : p a <;> simp [hp]
  | cons b l ih =>
      rw [List.pairwise_cons] at h
      by_cases hab : r a b
      · have hfront : ∀ c ∈ (b :: l).filter p, r a c := by
          intro c hc
          rcases List.mem_cons.mp (List.mem_of_mem_filter hc) with rfl | hc
          · exact hab
          · exact IsTrans.trans a b c hab (h.1 c hc)
        rw [List.orderedInsert_cons_of_le r l hab, orderedInsert_of_forall hfront,
          List.filter_cons]
      · rw [List.orderedInsert_of_not_le r l hab, List.filter_cons, ih h.2]
        cases hpa : p a <;> cases hpb : p b <;> simp [hpb, hab]

theorem filter_insertionSort [Std.Total r] (p : α → Bool) (l : List α) :
    (l.insertionSort r).filter p = (l.filter p).insertionSort r := by
  induction l with
  | nil => rfl
  | cons a l ih =>
      rw [List.insertionSort_cons, filter_orderedInsert p a (List.pairwise_insertionSort r l), ih,
        List.filter_cons]
      split_ifs <;> rfl

end Sorting

/-! ## Batches that stop -/

/-- Each step serves some entries from the front, and they leave the queue. -/
structure Served (queue : ℕ → List α) (count : ℕ → ℕ) : Prop where
  next : ∀ n, queue (n + 1) = (queue n).drop (count n)

/-- How many entries have been served before a step. -/
def total (count : ℕ → ℕ) : ℕ → ℕ
  | 0 => 0
  | n + 1 => total count n + count n

variable {queue : ℕ → List α} {count : ℕ → ℕ} {blocked : α → Prop}

theorem total_mono (count : ℕ → ℕ) : Monotone (total count) :=
  monotone_nat_of_le_succ fun _ => Nat.le_add_right _ _

theorem Served.queue_eq (h : Served queue count) (n : ℕ) :
    queue n = (queue 0).drop (total count n) := by
  induction n with
  | zero => rfl
  | succ n ih => rw [h.next, ih, List.drop_drop, total]

/-- The entry at a place is served by the step that takes the count past the place. -/
theorem Served.mem_batch (h : Served queue count) {n i : ℕ} (hi : i < (queue 0).length)
    (hle : total count n ≤ i) (hlt : i < total count (n + 1)) :
    (queue 0)[i] ∈ (queue n).take (count n) := by
  rw [total] at hlt
  rw [h.queue_eq, List.mem_take_iff_getElem]
  refine ⟨i - total count n, by rw [List.length_drop]; omega, ?_⟩
  rw [List.getElem_drop]
  congr 1
  omega

/-- What has been counted has been served by some step. -/
theorem Served.mem_of_lt_total (h : Served queue count) {n i : ℕ} (hi : i < (queue 0).length)
    (hlt : i < total count n) : ∃ m < n, (queue 0)[i] ∈ (queue m).take (count m) := by
  induction n with
  | zero => exact absurd hlt (Nat.not_lt_zero i)
  | succ n ih =>
      by_cases hle : total count n ≤ i
      · exact ⟨n, Nat.lt_succ_self n, h.mem_batch hi hle hlt⟩
      · obtain ⟨m, hm, hmem⟩ := ih (Nat.lt_of_not_le hle)
        exact ⟨m, hm.trans (Nat.lt_succ_self n), hmem⟩

/-- Every entry before an unblocked place is reached, one after another. -/
theorem Served.reaches (h : Served queue count)
    (hready : ∀ a ∈ queue 0, ¬blocked a → ∀ n, ∃ m ≥ n, (queue m).head? = some a → 0 < count m)
    {k : ℕ} (hk : k ≤ (queue 0).length) (hfree : ∀ a ∈ (queue 0).take k, ¬blocked a) :
    ∃ n, k ≤ total count n := by
  induction k with
  | zero => exact ⟨0, Nat.le_refl 0⟩
  | succ k ih =>
      obtain ⟨n, hn⟩ := ih (Nat.le_of_succ_le hk) fun a ha =>
        hfree a ((List.take_subset_take_left _ (Nat.le_succ k)) ha)
      have hmem : (queue 0)[k] ∈ (queue 0).take (k + 1) :=
        List.mem_take_iff_getElem.mpr ⟨k, by omega, rfl⟩
      obtain ⟨m, hm, hserved⟩ := hready _ (List.getElem_mem hk) (hfree _ hmem) n
      have hle : k ≤ total count m := hn.trans (total_mono count hm)
      rcases hle.lt_or_eq with hlt | heq
      · exact ⟨m, hlt⟩
      · refine ⟨m + 1, ?_⟩
        have hhead : (queue m).head? = some (queue 0)[k] := by
          rw [h.queue_eq, ← heq, List.head?_drop, List.getElem?_eq_getElem]
        have hpos := hserved hhead
        rw [total]
        omega

/-- Of a queue that stops at its blocked entries, all the others are served just where no blocked
entry stands before one of them. -/
theorem Served.reached_iff (h : Served queue count) (hnodup : (queue 0).Nodup)
    (hblocked : ∀ n, ∀ a ∈ (queue n).take (count n), ¬blocked a)
    (hready : ∀ a ∈ queue 0, ¬blocked a → ∀ n, ∃ m ≥ n, (queue m).head? = some a → 0 < count m) :
    (∀ a ∈ queue 0, ¬blocked a → ∃ n, a ∈ (queue n).take (count n)) ↔
      (queue 0).Pairwise fun a b => blocked a → blocked b := by
  rw [List.pairwise_iff_getElem]
  constructor
  · intro hall i j hi hj hij hbi
    by_contra hbj
    obtain ⟨n, hn⟩ := hall _ (List.getElem_mem hj) hbj
    rw [h.queue_eq, List.mem_take_iff_getElem] at hn
    obtain ⟨k, hk, heq⟩ := hn
    rw [List.getElem_drop, hnodup.getElem_inj_iff] at heq
    have hcounted : i < total count (n + 1) := by
      rw [total]
      omega
    obtain ⟨m, -, hm⟩ := h.mem_of_lt_total hi hcounted
    exact hblocked m _ hm hbi
  · intro hpair a ha hfree
    obtain ⟨j, hj, rfl⟩ := List.getElem_of_mem ha
    obtain ⟨n, hn⟩ := h.reaches hready (k := j + 1) hj fun b hb hbb => by
      obtain ⟨i, hi, rfl⟩ := List.mem_take_iff_getElem.mp hb
      have hij : i ≤ j := by omega
      rcases hij.lt_or_eq with hlt | rfl
      · exact hfree (hpair i j _ hj hlt hbb)
      · exact hfree hbb
    obtain ⟨m, -, hm⟩ := h.mem_of_lt_total hj hn
    exact ⟨m, hm⟩

/-! ## Batches that go past -/

variable [DecidableEq α] {served : ℕ → List α} {batch : ℕ}

/-- Until the queue has run empty, each step serves some of its first entries; those leave it, and the
rest keep their order. -/
structure Sifted (queue served : ℕ → List α) (batch : ℕ) : Prop where
  next : ∀ n, (∀ m ≤ n, queue m ≠ []) → queue (n + 1) = (queue n).filter (· ∉ served n)
  first : ∀ n, (∀ m ≤ n, queue m ≠ []) → served n ⊆ (queue n).take batch

/-- A step serves the entry if it is among the first ones, and the queue has not run empty. -/
def Ready (queue served : ℕ → List α) (batch n : ℕ) (a : α) : Prop :=
  (∀ m ≤ n, queue m ≠ []) → a ∈ (queue n).take batch → a ∈ served n

/-- Served by none of the first steps. -/
def Waits (served : ℕ → List α) (n : ℕ) (a : α) : Prop :=
  ∀ m < n, a ∉ served m

instance (n : ℕ) (a : α) : Decidable (Waits served n a) :=
  inferInstanceAs (Decidable (∀ m < n, a ∉ served m))

omit [DecidableEq α] in
theorem waits_succ {n : ℕ} {a : α} : Waits served (n + 1) a ↔ Waits served n a ∧ a ∉ served n :=
  Nat.forall_lt_succ_right

/-- Until it has run empty, the queue is what waits of it. -/
theorem Sifted.queue_eq (h : Sifted queue served batch) {n : ℕ} (hne : ∀ m < n, queue m ≠ []) :
    queue n = (queue 0).filter (Waits served n ·) := by
  induction n with
  | zero =>
      have hall : ∀ b ∈ queue 0, decide (Waits served 0 b) = true := fun b _ =>
        decide_eq_true fun m hm => absurd hm (Nat.not_lt_zero m)
      exact (List.filter_eq_self.mpr hall).symm
  | succ n ih =>
      rw [h.next n fun m hm => hne m (Nat.lt_succ_of_le hm),
        ih fun m hm => hne m (hm.trans (Nat.lt_succ_self n)), List.filter_filter]
      congr 1
      funext b
      simp [waits_succ, and_comm]

/-- An entry that waits has been queued all the time. -/
theorem Sifted.mem_of_waits (h : Sifted queue served batch) {a : α} (ha : a ∈ queue 0) {n : ℕ}
    (hwaits : Waits served n a) : ∀ m ≤ n, a ∈ queue m := by
  induction n with
  | zero =>
      intro m hm
      rwa [Nat.le_zero.mp hm]
  | succ n ih =>
      obtain ⟨hbefore, hnow⟩ := waits_succ.mp hwaits
      intro m hm
      rcases Nat.lt_succ_iff_lt_or_eq.mp (Nat.lt_succ_of_le hm) with hlt | rfl
      · exact ih hbefore m (Nat.le_of_lt_succ hlt)
      · rw [h.next n fun k hk => List.ne_nil_of_mem (ih hbefore k hk)]
        exact List.mem_filter.mpr ⟨ih hbefore n (Nat.le_refl n), decide_eq_true hnow⟩

/-- What stands before an entry that has not been served. -/
theorem Sifted.queue_split (h : Sifted queue served batch) {a : α} {pre post : List α}
    (heq : queue 0 = pre ++ a :: post) {n : ℕ} (hwaits : Waits served n a) :
    queue n = pre.filter (Waits served n ·) ++ a :: post.filter (Waits served n ·) := by
  have ha : a ∈ queue 0 := heq ▸ List.mem_append_right _ List.mem_cons_self
  have hne : ∀ m < n, queue m ≠ [] := fun m hm =>
    List.ne_nil_of_mem (h.mem_of_waits ha hwaits m hm.le)
  rw [h.queue_eq hne, heq, List.filter_append, List.filter_cons, if_pos (decide_eq_true hwaits)]

variable {fails : α → Bool}

/-- The failing entries before one that has not been served are all still before it. -/
theorem countP_filter_waits {pre : List α} (hfails : ∀ a ∈ pre, fails a = true → ∀ n, a ∉ served n)
    (n : ℕ) : (pre.filter (Waits served n ·)).countP fails = pre.countP fails := by
  rw [List.countP_filter]
  refine List.countP_congr fun a ha => ?_
  simp only [Bool.and_eq_true, decide_eq_true_eq, and_iff_left_iff_imp]
  exact fun hfail m _ => hfails a ha hfail m

/-- An entry with enough failing ones before it is never served. -/
theorem Sifted.not_served (h : Sifted queue served batch) (hnodup : (queue 0).Nodup)
    (hfails : ∀ a ∈ queue 0, fails a = true → ∀ n, a ∉ served n) {a : α} {pre post : List α}
    (heq : queue 0 = pre ++ a :: post) (hcount : batch ≤ pre.countP fails) (n : ℕ) :
    Waits served n a := by
  induction n with
  | zero => exact fun m hm => absurd hm (Nat.not_lt_zero m)
  | succ n ih =>
      refine waits_succ.mpr ⟨ih, fun hserved => ?_⟩
      have hsplit := h.queue_split heq ih
      have hmem : a ∈ queue 0 := heq ▸ List.mem_append_right _ List.mem_cons_self
      have hne : ∀ m ≤ n, queue m ≠ [] := fun m hm =>
        List.ne_nil_of_mem (h.mem_of_waits hmem ih m hm)
      have hlength : batch ≤ (pre.filter (Waits served n ·)).length := by
        refine hcount.trans ?_
        rw [← countP_filter_waits (fun b hb => hfails b (heq ▸ List.mem_append_left _ hb)) n]
        exact List.countP_le_length
      have hfirst := h.first n hne hserved
      rw [hsplit, List.take_append_of_le_length hlength] at hfirst
      rw [heq, List.nodup_append] at hnodup
      exact hnodup.2.2 a (List.mem_of_mem_filter (List.mem_of_mem_take hfirst)) a
        List.mem_cons_self rfl

/-- What waits only for entries that are all served is served too. -/
theorem Sifted.served_of_pre (h : Sifted queue served batch)
    (hready : ∀ a ∈ queue 0, fails a = false → ∀ n, ∃ m ≥ n, Ready queue served batch m a)
    {a : α} {pre post : List α} (heq : queue 0 = pre ++ a :: post) (ha : fails a = false)
    (hcount : pre.countP fails < batch) {n : ℕ}
    (hpre : ∀ b ∈ pre, fails b = false → ¬Waits served n b) : ∃ m, a ∈ served m := by
  have hmem : a ∈ queue 0 := heq ▸ List.mem_append_right _ List.mem_cons_self
  obtain ⟨m, hm, hserved⟩ := hready a hmem ha n
  by_cases hwaits : Waits served m a
  · refine ⟨m, hserved (fun k hk => List.ne_nil_of_mem (h.mem_of_waits hmem hwaits k hk)) ?_⟩
    have hlength : (pre.filter (Waits served m ·)).length < batch := by
      refine lt_of_le_of_lt ?_ hcount
      rw [← List.countP_eq_length_filter]
      refine List.countP_mono_left fun b hb hw => ?_
      by_contra hfail
      exact hpre b hb (by simpa using hfail) fun k hk =>
        of_decide_eq_true hw k (hk.trans_le hm)
    rw [h.queue_split heq hwaits, List.mem_take_iff_getElem]
    exact ⟨(pre.filter (Waits served m ·)).length, by simp [hlength], by simp⟩
  · simp only [Waits, not_forall, not_not] at hwaits
    obtain ⟨k, -, hk⟩ := hwaits
    exact ⟨k, hk⟩

omit [DecidableEq α] in
/-- The entries of a list are all served within some number of steps. -/
theorem exists_bound {pre : List α} (hserved : ∀ a ∈ pre, fails a = false → ∃ n, a ∈ served n) :
    ∃ n, ∀ a ∈ pre, fails a = false → ¬Waits served n a := by
  induction pre with
  | nil => exact ⟨0, nofun⟩
  | cons a pre ih =>
      obtain ⟨n, hn⟩ := ih fun b hb => hserved b (List.mem_cons_of_mem _ hb)
      by_cases ha : fails a = false
      · obtain ⟨m, hm⟩ := hserved a List.mem_cons_self ha
        refine ⟨max n (m + 1), fun b hb hfail hwaits => ?_⟩
        rcases List.mem_cons.mp hb with rfl | hb
        · exact hwaits m (lt_max_of_lt_right (Nat.lt_succ_self m)) hm
        · exact hn b hb hfail fun k hk => hwaits k (lt_max_of_lt_left hk)
      · refine ⟨n, fun b hb hfail => ?_⟩
        rcases List.mem_cons.mp hb with rfl | hb
        · exact absurd hfail ha
        · exact hn b hb hfail

/-- Where fewer failing entries than a batch holds stand before each of the others, those are all
served. -/
theorem Sifted.serves (h : Sifted queue served batch)
    (hready : ∀ a ∈ queue 0, fails a = false → ∀ n, ∃ m ≥ n, Ready queue served batch m a)
    (hcount : ∀ pre a post, queue 0 = pre ++ a :: post → fails a = false →
      pre.countP fails < batch) :
    ∀ a ∈ queue 0, fails a = false → ∃ n, a ∈ served n := by
  suffices hpre : ∀ pre post, queue 0 = pre ++ post →
      ∀ a ∈ pre, fails a = false → ∃ n, a ∈ served n from
    hpre (queue 0) [] (List.append_nil _).symm
  intro pre
  induction pre using List.reverseRecOn with
  | nil => exact fun _ _ => nofun
  | append_singleton pre a ih =>
      intro post heq b hb hfail
      have hsplit : queue 0 = pre ++ a :: post := by
        rw [heq, List.append_assoc]
        rfl
      have hserved := ih (a :: post) hsplit
      rcases List.mem_append.mp hb with hb | hb
      · exact hserved b hb hfail
      · obtain rfl := List.mem_singleton.mp hb
        obtain ⟨n, hn⟩ := exists_bound hserved
        exact h.served_of_pre hready hsplit hfail (hcount pre b post hsplit hfail) hn

/-- Of a queue whose batches go past the failing entries, all the others are served just where fewer
failing ones than a batch holds stand before each of them. -/
theorem Sifted.reached_iff (h : Sifted queue served batch) (hnodup : (queue 0).Nodup)
    (hfails : ∀ a ∈ queue 0, fails a = true → ∀ n, a ∉ served n)
    (hready : ∀ a ∈ queue 0, fails a = false → ∀ n, ∃ m ≥ n, Ready queue served batch m a) :
    (∀ a ∈ queue 0, fails a = false → ∃ n, a ∈ served n) ↔
      ∀ pre a post, queue 0 = pre ++ a :: post → fails a = false → pre.countP fails < batch := by
  constructor
  · intro hall pre a post heq ha
    by_contra hcount
    obtain ⟨n, hn⟩ := hall a (heq ▸ List.mem_append_right _ List.mem_cons_self) ha
    exact h.not_served hnodup hfails heq (Nat.le_of_not_lt hcount) (n + 1) n (Nat.lt_succ_self n) hn
  · exact h.serves hready

/-- A queue none of whose entries fails for ever runs empty. -/
theorem Sifted.exists_empty (h : Sifted queue served batch) (hbatch : 0 < batch)
    (hready : ∀ a ∈ queue 0, ∀ n, ∃ m ≥ n, Ready queue served batch m a) :
    ∃ n, queue n = [] := by
  let fails (_ : α) : Bool := false
  have hcount : ∀ pre a post, queue 0 = pre ++ a :: post → fails a = false →
      pre.countP fails < batch := fun pre a post _ _ => by simpa [fails]
  obtain ⟨n, hn⟩ := exists_bound (h.serves (fun a ha _ => hready a ha) hcount)
  by_contra hnever
  have hempty : (queue 0).filter (Waits served n ·) = [] :=
    List.filter_eq_nil_iff.mpr fun a ha => by simpa using hn a ha rfl
  exact hnever ⟨n, (h.queue_eq fun m _ => not_exists.mp hnever m).trans hempty⟩

end Queue
