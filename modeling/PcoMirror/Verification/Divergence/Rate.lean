import Mathlib.Tactic.Ring
import PcoMirror.Lib.TokenBucket
import PcoMirror.Model.Divergence.Rate

/-! How many checks the divergence checker makes in any stretch of time, and when it is switched
on again. -/

namespace PcoMirror.Divergence

open TokenBucket (Bucket Move)

variable {s : Shadow} {now : ℚ} {event : ShadowEvent} {corpus : List Sample} {limit : ℤ}

/-! ## What is due -/

theorem oldestOf_isSome {shape : String} (h : shape ∈ corpus.map Sample.shape) :
    ∃ sample, oldestOf corpus shape = some sample := by
  obtain ⟨sample, hmem, rfl⟩ := List.mem_map.mp h
  have hfiltered : sample ∈ corpus.filter fun s => s.shape = sample.shape :=
    List.mem_filter.mpr ⟨hmem, by simp⟩
  refine ⟨_, List.head?_eq_some_head ?_⟩
  exact List.ne_nil_of_mem ((List.mem_insertionSort _).mpr hfiltered)

/-- One request is due for each shape, up to the limit. -/
theorem length_due (corpus : List Sample) (limit : ℤ) :
    (due corpus limit).length = min limit.toNat (corpus.map Sample.shape).dedup.length := by
  have hall : ∀ shape ∈ (shapesByAge corpus).take limit.toNat,
      ∃ sample, oldestOf corpus shape = some sample := by
    intro shape hshape
    have hmem := (List.mem_insertionSort _).mp (List.mem_of_mem_take hshape)
    exact oldestOf_isSome (List.mem_dedup.mp hmem)
  have hlength : ∀ shapes : List String,
      (∀ shape ∈ shapes, ∃ sample, oldestOf corpus shape = some sample) →
      (shapes.filterMap (oldestOf corpus)).length = shapes.length := by
    intro shapes hshapes
    induction shapes with
    | nil => rfl
    | cons shape shapes ih =>
        obtain ⟨⟨sample, hsample⟩, hrest⟩ := List.forall_mem_cons.mp hshapes
        rw [List.filterMap_cons_some hsample, List.length_cons, List.length_cons, ih hrest]
  rw [due, hlength _ hall, List.length_take, shapesByAge, List.length_insertionSort]

theorem perMinute_nonneg (s : Shadow) : 0 ≤ s.perMinute := by
  unfold Shadow.perMinute effective
  split
  · exact le_max_left _ _
  · exact le_max_left _ _

/-! ## A pass -/

/-- The tokens a pass finds. -/
def Shadow.level (s : Shadow) (now : ℚ) : ℚ :=
  min (s.perMinute : ℚ) (s.checker.tokens + (now - s.checker.lastRefill) * s.perMinute / 60)

/-- The checks a pass comes to: a whole token and a shape for each. -/
def Shadow.allowed (s : Shadow) (now : ℚ) : ℕ :=
  min ⌊s.level now⌋.toNat (s.corpus.map Sample.shape).dedup.length

theorem toNat_truncate (q : ℚ) : (truncate q).toNat = ⌊q⌋.toNat := by
  unfold truncate
  split_ifs with h
  · rfl
  · have hceil : ⌈q⌉ ≤ 0 := Int.ceil_le.mpr (by exact_mod_cast (not_le.mp h).le)
    have hfloor : ⌊q⌋ ≤ 0 := (Int.floor_le_ceil q).trans hceil
    rw [Int.toNat_of_nonpos hceil, Int.toNat_of_nonpos hfloor]

theorem allowed_le_level (hsome : 0 < s.allowed now) : (s.allowed now : ℚ) ≤ s.level now := by
  have hfloor : 0 < ⌊s.level now⌋ := by
    by_contra hnone
    rw [Shadow.allowed, Int.toNat_of_nonpos (not_lt.mp hnone), Nat.zero_min] at hsome
    exact lt_irrefl 0 hsome
  have hle : (s.allowed now : ℤ) ≤ ⌊s.level now⌋ := by
    rw [← Int.toNat_of_nonneg hfloor.le]
    exact_mod_cast min_le_left _ _
  exact_mod_cast Int.le_floor.mp hle

/-- A pass that finds checking on makes the checks it is allowed, and pays for each. -/
theorem runOnce_on (hon : 0 < s.perMinute) (now : ℚ) (stamp : Sample → String) :
    (s.runOnce now stamp none).2 = s.allowed now ∧
      (s.runOnce now stamp none).1.checker = ⟨s.level now - s.allowed now, now⟩ := by
  have hbudget : (due s.corpus (truncate (s.level now))).length = s.allowed now := by
    rw [length_due, toNat_truncate, Shadow.allowed]
  simp only [Shadow.runOnce, ShadowChecker.allowance, if_neg hon.not_ge]
  rw [← Shadow.level]
  by_cases hnone : truncate (s.level now) ≤ 0
  · have hzero : s.allowed now = 0 := by
      rw [Shadow.allowed, ← toNat_truncate, Int.toNat_of_nonpos hnone, Nat.zero_min]
    simp [hnone, hzero]
  · have hlevel : (s.allowed now : ℚ) ≤ s.level now := by
      rcases Nat.eq_zero_or_pos (s.allowed now) with hzero | hsome
      · have hpos : (0 : ℚ) < s.level now := by
          by_contra hneg
          refine hnone ?_
          rw [← Int.toNat_eq_zero, toNat_truncate, Int.toNat_eq_zero]
          exact_mod_cast (Int.floor_le _).trans (not_lt.mp hneg)
        rw [hzero, Nat.cast_zero]
        exact hpos.le
      · exact allowed_le_level hsome
    simp [hnone, hbudget, ShadowChecker.spend, max_eq_right (sub_nonneg.mpr hlevel)]

/-! ## The bucket -/

def Shadow.bucket (s : Shadow) : Bucket ℚ :=
  ⟨s.checker.tokens, s.checker.lastRefill⟩

/-- A pass is a visit to the bucket, unless checking is off. -/
def Shadow.move (s : Shadow) : ℚ × ShadowEvent → Option (Move ℚ)
  | (now, .pass stamp) =>
    if s.perMinute ≤ 0 then none
    else some (.visit {
      now := now
      rate := s.perMinute / 60
      capacity := s.perMinute
      spent := s.checks (now, .pass stamp)
      rate_nonneg := div_nonneg (by exact_mod_cast perMinute_nonneg s) (by norm_num)
      capacity_nonneg := by exact_mod_cast perMinute_nonneg s })
  | _ => none

theorem bucket_of_move_none (h : s.move (now, event) = none) :
    (s.step (now, event)).bucket = s.bucket := by
  cases event with
  | configure perMinute => rfl
  | observe corpus => rfl
  | pass stamp =>
      have hoff : s.perMinute ≤ 0 := by
        by_contra hon
        rw [Shadow.move, if_neg hon] at h
        cases h
      rw [Shadow.step, Shadow.runOnce, if_pos hoff]

theorem bucket_of_move {m : Move ℚ} (h : s.move (now, event) = some m) :
    (s.step (now, event)).bucket = s.bucket.move m ∧ s.bucket.Affords m := by
  cases event with
  | configure perMinute => cases h
  | observe corpus => cases h
  | pass stamp =>
      by_cases hoff : s.perMinute ≤ 0
      · rw [Shadow.move, if_pos hoff] at h
        cases h
      rw [Shadow.move, if_neg hoff] at h
      cases h
      obtain ⟨hchecks, hchecker⟩ := runOnce_on (not_le.mp hoff) now stamp
      have hlevel : ∀ v : TokenBucket.Visit ℚ, v.now = now → v.rate = s.perMinute / 60 →
          v.capacity = s.perMinute → s.bucket.level v = s.level now := by
        intro v hnow hrate hcapacity
        rw [Bucket.level, Shadow.level, hnow, hrate, hcapacity, Shadow.bucket, mul_div_assoc]
      constructor
      · rw [Bucket.move, hlevel _ rfl rfl rfl, Shadow.checks, hchecks, Shadow.bucket, Shadow.step,
          hchecker]
      · intro hsome
        rw [hlevel _ rfl rfl rfl]
        rw [Shadow.checks, hchecks] at hsome ⊢
        exact allowed_le_level hsome

theorem now_of_move {m : Move ℚ} (h : s.move (now, event) = some m) : m.now = now := by
  cases event with
  | configure perMinute => cases h
  | observe corpus => cases h
  | pass stamp =>
      rw [Shadow.move] at h
      split_ifs at h
      cases h
      rfl

/-- The checks of an event are the tokens it spends. -/
theorem checks_eq_spentIn (s : Shadow) (e : ℚ × ShadowEvent) (start stop : ℚ) :
    (if start ≤ e.1 ∧ e.1 ≤ stop then s.checks e else 0) =
      (s.move e).elim 0 (Move.spentIn start stop) := by
  obtain ⟨now, event⟩ := e
  cases event with
  | configure perMinute => exact ite_self 0
  | observe corpus => exact ite_self 0
  | pass stamp =>
      rw [Shadow.move]
      split_ifs with hin hoff hoff
      · rw [Shadow.checks, Shadow.runOnce, if_pos hoff]
        rfl
      · exact (if_pos hin).symm
      · rfl
      · exact (if_neg hin).symm

/-! ## Runs -/

/-- The checks a run makes in a window. -/
def checksIn (start stop : ℚ) : Shadow → List (ℚ × ShadowEvent) → ℕ
  | _, [] => 0
  | s, e :: events =>
    (if start ≤ e.1 ∧ e.1 ≤ stop then s.checks e else 0) + checksIn start stop (s.step e) events

theorem checksIn_eq_spentIn (s : Shadow) (events : List (ℚ × ShadowEvent)) (start stop : ℚ) :
    checksIn start stop s events =
      TokenBucket.spentIn start stop (Run.outputs Shadow.step Shadow.move s events) := by
  induction events generalizing s with
  | nil => rfl
  | cons e events ih =>
      rw [checksIn, Run.outputs, ih, checks_eq_spentIn]
      cases s.move e <;> simp

/-- No rate above this one is in force in a window. -/
def RateAtMost (rate : ℕ) (start stop : ℚ) (s : Shadow) (events : List (ℚ × ShadowEvent)) : Prop :=
  Run.Each Shadow.step (fun s e => start ≤ e.1 → e.1 ≤ stop → s.perMinute ≤ rate) s events

/-- In no window are there more checks than a minute's, and those the window itself gives. -/
theorem checksIn_le (s : Shadow) {events : List (ℚ × ShadowEvent)} {start seconds : ℚ} {rate : ℕ}
    (hsorted : events.Pairwise fun e e' => e.1 ≤ e'.1) (hwindow : 0 ≤ seconds)
    (hrate : RateAtMost rate start (start + seconds) s events) :
    (checksIn start (start + seconds) s events : ℚ) ≤ rate + rate * seconds / 60 := by
  have hafford : Run.Each Bucket.move Bucket.Affords s.bucket
      (Run.outputs Shadow.step Shadow.move s events) :=
    Run.each_outputs Shadow.bucket hrate (I := fun _ => True) trivial (fun _ _ _ _ => trivial)
      (fun s e _ _ h => bucket_of_move_none h) fun s e m _ _ h => bucket_of_move h
  have hmoves : (Run.outputs Shadow.step Shadow.move s events).Pairwise
      fun m m' => m.now ≤ m'.now := by
    refine Run.pairwise_outputs hsorted fun s s' e e' m m' hle h h' => ?_
    rw [now_of_move h, now_of_move h']
    exact hle
  have hvisits : ∀ m ∈ Run.outputs Shadow.step Shadow.move s events, ∃ e ∈ events, ∀ v,
      m = .visit v → start ≤ v.now → v.now ≤ start + seconds →
        v.rate ≤ rate / 60 ∧ v.capacity ≤ rate := by
    refine Run.forall_mem_outputs hrate (I := fun _ => True) trivial (fun _ _ _ _ => trivial) ?_
    rintro s ⟨now, event⟩ m - hin h v rfl hstart hstop
    cases event with
    | pass stamp =>
        rw [Shadow.move] at h
        split_ifs at h
        cases h
        have hle : (s.perMinute : ℚ) ≤ rate := by exact_mod_cast hin hstart hstop
        exact ⟨div_le_div_of_nonneg_right hle (by norm_num), hle⟩
    | _ => cases h
  have hwithin : TokenBucket.Within start (start + seconds) (rate / 60 : ℚ) rate
      (Run.outputs Shadow.step Shadow.move s events) := by
    intro v hv
    obtain ⟨_, -, h⟩ := hvisits _ hv
    exact h v rfl
  have hnonneg : (0 : ℚ) ≤ rate := Nat.cast_nonneg rate
  have hbound := TokenBucket.spentIn_le (div_nonneg hnonneg (by norm_num)) hnonneg
    (le_add_of_nonneg_right hwindow) hmoves hafford hwithin
  rw [checksIn_eq_spentIn]
  refine hbound.trans (le_of_eq ?_)
  rw [add_sub_cancel_left, div_mul_eq_mul_div]

/-! ## Switched off and on -/

/-- A checker, and whether checking has been off since its last pass. -/
structure Watched where
  shadow : Shadow
  off : Bool

def Shadow.watched (s : Shadow) : Watched :=
  ⟨s, s.perMinute ≤ 0⟩

def Watched.step (w : Watched) (e : ℚ × ShadowEvent) : Watched where
  shadow := w.shadow.step e
  off := match e.2 with
    | .pass _ => w.shadow.perMinute ≤ 0
    | _ => w.off || (w.shadow.step e).perMinute ≤ 0

/-- The checker keeps to its rate, and what was not checked while it was off stays unchecked. -/
structure Restrained (s : Shadow) (events : List (ℚ × ShadowEvent)) : Prop where
  window : ∀ start seconds rate, 0 ≤ seconds → RateAtMost rate start (start + seconds) s events →
    (checksIn start (start + seconds) s events : ℚ) ≤ rate + rate * seconds / 60
  resumed : Run.Each Watched.step (fun w e => w.off = true → w.shadow.checks e ≤ 1) s.watched events

/-- A pass that finds checking on again finds less than two tokens' worth of time, or no second
shape to check. -/
def Watched.Resumes (w : Watched) : ℚ × ShadowEvent → Prop
  | (now, .pass _) => w.off = true → 2 ≤ w.shadow.perMinute →
    w.shadow.checker.tokens + (now - w.shadow.checker.lastRefill) * w.shadow.perMinute / 60 < 2 ∨
      (w.shadow.corpus.map Sample.shape).dedup.length ≤ 1
  | _ => True

/-- One check at most: a rate of one, or less than two tokens, or less than two shapes. -/
theorem allowed_le_one (s : Shadow) (now : ℚ) : s.allowed now ≤ 1 ↔ (2 ≤ s.perMinute →
    s.checker.tokens + (now - s.checker.lastRefill) * s.perMinute / 60 < 2 ∨
      (s.corpus.map Sample.shape).dedup.length ≤ 1) := by
  have hfloor : ⌊s.level now⌋.toNat ≤ 1 ↔ s.level now < 2 := by
    rw [Int.toNat_le, ← Int.lt_add_one_iff, Int.floor_lt]
    norm_num
  have hrate : (s.perMinute : ℚ) < 2 ↔ s.perMinute < 2 := by exact_mod_cast Iff.rfl
  have hslow : s.perMinute < 2 ↔ ¬ 2 ≤ s.perMinute := not_le.symm
  rw [Shadow.allowed, min_le_iff, hfloor, Shadow.level, min_lt_iff, hrate, hslow]
  tauto

theorem checks_le_one_iff (w : Watched) (e : ℚ × ShadowEvent) :
    (w.off = true → w.shadow.checks e ≤ 1) ↔ w.Resumes e := by
  obtain ⟨now, event⟩ := e
  cases event with
  | configure perMinute => exact iff_of_true (fun _ => Nat.zero_le 1) trivial
  | observe corpus => exact iff_of_true (fun _ => Nat.zero_le 1) trivial
  | pass stamp =>
      rw [Watched.Resumes, ← allowed_le_one, Shadow.checks]
      by_cases hoff : w.shadow.perMinute ≤ 0
      · have hnone : w.shadow.allowed now ≤ 1 := by
          rw [allowed_le_one]
          exact fun h => absurd (h.trans hoff) (by decide)
        rw [Shadow.runOnce, if_pos hoff]
        exact iff_of_true (fun _ => Nat.zero_le 1) fun _ => hnone
      · rw [(runOnce_on (not_le.mp hoff) now stamp).1]

/-- The checker is restrained exactly where the time it was off has not filled its bucket. -/
theorem restrained_iff (default : ℤ) (held : Option String) (corpus : List Sample) (now : ℚ)
    (events : List (ℚ × ShadowEvent)) (hsorted : events.Pairwise fun e e' => e.1 ≤ e'.1) :
    Restrained (.start default held corpus now) events ↔
      Run.Each Watched.step Watched.Resumes (Shadow.start default held corpus now).watched events := by
  have hresumed : Run.Each Watched.step (fun w e => w.off = true → w.shadow.checks e ≤ 1)
      (Shadow.start default held corpus now).watched events ↔
      Run.Each Watched.step Watched.Resumes (Shadow.start default held corpus now).watched events :=
    Run.each_congr (I := fun _ => True) (A := fun _ => True) (fun _ _ => trivial) trivial
      (fun _ _ _ _ _ => trivial) fun w e _ _ => checks_le_one_iff w e
  constructor
  · intro h
    exact hresumed.mp h.resumed
  · intro h
    exact ⟨fun _ _ _ hwindow hrate => checksIn_le _ hsorted hwindow hrate, hresumed.mpr h⟩

/-- Six requests, each of a shape of its own. -/
def sixShapes : List Sample :=
  [{ id := 1, shape := "/emails" },
    { id := 2, shape := "/people" },
    { id := 3, shape := "/addresses" },
    { id := 4, shape := "/households" },
    { id := 5, shape := "/campuses" },
    { id := 6, shape := "/phone_numbers" }]

/-- Checking is switched off for an hour. -/
def hourOff (stamp : Sample → String) : List (ℚ × ShadowEvent) :=
  [(0, .pass stamp), (1, .configure (some 0)), (3600, .configure (some 6)), (3600, .pass stamp)]

theorem restrained_iff_hourOff :
    Restrained (.start 6 none sixShapes 0) (hourOff fun _ => "2026-07-01T00:00:00Z") ↔
      Run.Each Watched.step Watched.Resumes (Shadow.start 6 none sixShapes 0).watched
        (hourOff fun _ => "2026-07-01T00:00:00Z") :=
  restrained_iff 6 none sixShapes 0 _ (by norm_num [hourOff])

/-- After the hour a whole minute's checks are made at once. -/
theorem not_restrained_hourOff :
    ¬ Restrained (.start 6 none sixShapes 0) (hourOff fun _ => "2026-07-01T00:00:00Z") := by
  intro h
  have hlast := h.resumed.2.2.2.1
  exact absurd (hlast (by decide +kernel)) (by decide +kernel)

end PcoMirror.Divergence
