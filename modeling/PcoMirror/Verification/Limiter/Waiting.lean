import Mathlib.Algebra.Order.Archimedean.Basic
import Mathlib.Data.List.Induction
import PcoMirror.Verification.Limiter.Budget

/-! How long a call of `acquire` goes round its loop, when nothing else wants a token. -/

namespace PcoMirror

open TokenBucket (Bucket Visit)

variable {l : RateLimiter} {s : Limited} {clock : ℕ → ℚ} {caller : ℕ} {now floor wait util : ℚ}
variable {priority : Priority} {call : Acquiring}

/-! ## One pass of the loop -/

namespace RateLimiter

theorem tryAcquire_eq_none : (l.tryAcquire now floor).2 = none ↔
    1 + floor ≤ (l.refill now).tokens ∧ l.pauseUntil ≤ now := by
  unfold tryAcquire
  dsimp only
  split
  · rename_i h
    exact ⟨fun _ => h, fun _ => rfl⟩
  · rename_i h
    exact ⟨fun hnone => absurd hnone (Option.some_ne_none _), fun h' => absurd h' h⟩

/-- A pass that takes no token only counts them. -/
theorem tryAcquire_of_some (h : (l.tryAcquire now floor).2 = some wait) :
    l.tryAcquire now floor = (l.refill now, some wait) := by
  unfold tryAcquire at h ⊢
  dsimp only at h ⊢
  split at h
  · cases h
  · rename_i hrefused
    cases h
    rw [if_neg hrefused]

theorem wait_le (h : (l.tryAcquire now floor).2 = some wait) : wait ≤ 1 / 4 := by
  unfold tryAcquire at h
  dsimp only at h
  split at h
  · cases h
  · cases h
    split
    · exact min_le_right _ _
    · exact max_le (by norm_num) (min_le_left _ _)

/-- Without a pause, a sleep has a least length. -/
theorem le_wait (hpause : l.pauseUntil ≤ now) (h : (l.tryAcquire now floor).2 = some wait) :
    1 / 200 ≤ wait := by
  unfold tryAcquire at h
  dsimp only at h
  split at h
  · cases h
  · have hnone : ¬ 0 < (l.refill now).pauseUntil - now := (sub_nonpos.mpr hpause).not_gt
    rw [if_neg hnone] at h
    cases h
    exact le_max_left _ _

theorem refill_tokens_le (l : RateLimiter) (now : ℚ) : (l.refill now).tokens ≤ l.capacity :=
  min_le_left _ _

end RateLimiter

/-! ## Going round -/

namespace Limited

/-- After so many passes of one caller, at the times of a clock. -/
def waiting (s : Limited) (caller : ℕ) (clock : ℕ → ℚ) : ℕ → Limited
  | 0 => s
  | n + 1 => (s.waiting caller clock n).step (clock n, .wake caller)

/-- Between two passes the caller sleeps at least as long as the first one says. -/
def Sleeps (s : Limited) (caller : ℕ) (clock : ℕ → ℚ) : Prop :=
  ∀ n call wait, (s.waiting caller clock n).acquiring caller = some call →
    ((s.waiting caller clock n).limiter.tryAcquire (clock n) call.floor).2 = some wait →
    clock n + wait ≤ clock (n + 1)

/-- A call that waits as long as it takes gets its token, whenever its sleeps end. -/
def Acquires (s : Limited) (caller : ℕ) (priority : Priority) (now : ℚ) : Prop :=
  ∀ clock : ℕ → ℚ, now ≤ clock 0 →
    (s.step (now, .acquire caller priority none)).Sleeps caller clock →
    ∃ n granted, ((s.step (now, .acquire caller priority none)).waiting caller clock n).grant
      (clock n, .wake caller) = some granted

theorem grant_wake (hcall : s.acquiring caller = some call) :
    s.grant (now, .wake caller) =
      if (s.limiter.tryAcquire now call.floor).2.isNone then some now else none := by
  simp [grant, hcall]

/-- A pass without a token, of a caller with no deadline. -/
theorem step_wake (hcall : s.acquiring caller = some call) (hdeadline : call.deadline = none)
    (h : (s.limiter.tryAcquire now call.floor).2 = some wait) :
    s.step (now, .wake caller) = { s with limiter := s.limiter.refill now } := by
  simp [step, hcall, RateLimiter.tryAcquire_of_some h, hdeadline]

/-- The state of a caller that has found no token in `n` passes. -/
structure Round (s : Limited) (caller : ℕ) (call : Acquiring) (clock : ℕ → ℚ) (n : ℕ)
    (t : Limited) : Prop where
  acquiring : t.acquiring caller = some call
  rate : t.limiter.rate = s.limiter.rate
  capacity : t.limiter.capacity = s.limiter.capacity
  pauseUntil : t.limiter.pauseUntil = s.limiter.pauseUntil
  later : clock 0 + n * (1 / 200) ≤ clock n
  level : min s.limiter.capacity
    ((s.limiter.refill (clock 0)).tokens + (clock n - clock 0) * s.limiter.rate) ≤
      (t.limiter.refill (clock n)).tokens

theorem Round.zero (hcall : s.acquiring caller = some call) : s.Round caller call clock 0 s where
  acquiring := hcall
  rate := rfl
  capacity := rfl
  pauseUntil := rfl
  later := by simp
  level := by simp

theorem Round.step {n : ℕ} {t : Limited} (h : s.Round caller call clock n t)
    (hdeadline : call.deadline = none) (hpause : s.limiter.pauseUntil ≤ clock 0)
    (htry : (t.limiter.tryAcquire (clock n) call.floor).2 = some wait)
    (hsleep : clock n + wait ≤ clock (n + 1)) :
    s.Round caller call clock (n + 1) (t.step (clock n, .wake caller)) := by
  have hspent : (0 : ℚ) ≤ n * (1 / 200) := by positivity
  have hnow : t.limiter.pauseUntil ≤ clock n := by
    rw [h.pauseUntil]
    exact (hpause.trans (le_add_of_nonneg_right hspent)).trans h.later
  have hwait := RateLimiter.le_wait hnow htry
  rw [step_wake h.acquiring hdeadline htry]
  refine ⟨h.acquiring, h.rate, h.capacity, h.pauseUntil, ?_, ?_⟩
  · rw [Nat.cast_add, Nat.cast_one]
    linarith [h.later]
  · let visit : Visit ℚ := {
      now := clock (n + 1)
      rate := s.limiter.rate
      capacity := s.limiter.capacity
      spent := 0
      rate_nonneg := s.limiter.rate_nonneg
      capacity_nonneg := zero_le_one.trans s.limiter.one_le_capacity }
    have hlevel := Bucket.le_level (b := ⟨(t.limiter.refill (clock n)).tokens, clock n⟩) (v := visit)
      h.level (by dsimp only [visit]; linarith)
    simpa [Bucket.level, visit, RateLimiter.refill, h.rate, h.capacity] using hlevel

/-- A caller whose level a full bucket reaches is granted a token. -/
theorem granted_of_le_capacity (hcall : s.acquiring caller = some call)
    (hdeadline : call.deadline = none) (hrate : 0 < s.limiter.rate)
    (hpause : s.limiter.pauseUntil ≤ clock 0) (hsleeps : s.Sleeps caller clock)
    (hfloor : 1 + call.floor ≤ s.limiter.capacity) :
    ∃ n granted, (s.waiting caller clock n).grant (clock n, .wake caller) = some granted := by
  by_contra hnever
  push Not at hnever
  have hround : ∀ n, s.Round caller call clock n (s.waiting caller clock n) := by
    intro n
    induction n with
    | zero => exact .zero hcall
    | succ n ih =>
        have hrefused := hnever n (clock n)
        rw [grant_wake ih.acquiring] at hrefused
        cases htry : ((s.waiting caller clock n).limiter.tryAcquire (clock n) call.floor).2 with
        | none => simp [htry] at hrefused
        | some wait => exact ih.step hdeadline hpause htry (hsleeps n call wait ih.acquiring htry)
  -- So many passes that the bucket has had the time to fill.
  obtain ⟨n, hn⟩ := exists_nat_ge
    ((s.limiter.capacity - (s.limiter.refill (clock 0)).tokens) / (s.limiter.rate * (1 / 200)))
  have hfill : s.limiter.capacity ≤
      (s.limiter.refill (clock 0)).tokens + (clock n - clock 0) * s.limiter.rate := by
    rw [div_le_iff₀ (by positivity)] at hn
    have helapsed : n * (1 / 200) * s.limiter.rate ≤ (clock n - clock 0) * s.limiter.rate :=
      mul_le_mul_of_nonneg_right (by linarith [(hround n).later]) hrate.le
    linarith
  have hfull := (hround n).level
  rw [min_eq_left hfill] at hfull
  have hlate : s.limiter.pauseUntil ≤ clock n := by
    have hspent : (0 : ℚ) ≤ n * (1 / 200) := by positivity
    linarith [(hround n).later]
  have hnone : ((s.waiting caller clock n).limiter.tryAcquire (clock n) call.floor).2 = none :=
    RateLimiter.tryAcquire_eq_none.mpr
      ⟨hfloor.trans hfull, (hround n).pauseUntil.le.trans hlate⟩
  apply hnever n (clock n)
  rw [grant_wake (hround n).acquiring, hnone]
  rfl

/-- A caller that wants more than the bucket can hold is never granted a token. -/
theorem grant_eq_none_of_capacity_lt (hcall : s.acquiring caller = some call)
    (hdeadline : call.deadline = none) (hfloor : s.limiter.capacity < 1 + call.floor)
    (clock : ℕ → ℚ) (n : ℕ) :
    (s.waiting caller clock n).acquiring caller = some call ∧
      (s.waiting caller clock n).limiter.capacity = s.limiter.capacity ∧
      (s.waiting caller clock n).grant (clock n, .wake caller) = none := by
  have hrefuse : ∀ t : Limited, t.acquiring caller = some call →
      t.limiter.capacity = s.limiter.capacity → ∀ now,
      ∃ wait, (t.limiter.tryAcquire now call.floor).2 = some wait := by
    intro t ht hcapacity now
    cases htry : (t.limiter.tryAcquire now call.floor).2 with
    | some wait => exact ⟨wait, rfl⟩
    | none =>
        have hlevel := (RateLimiter.tryAcquire_eq_none.mp htry).1
        exact absurd (hlevel.trans ((t.limiter.refill_tokens_le now).trans hcapacity.le))
          hfloor.not_ge
  have hstate : (s.waiting caller clock n).acquiring caller = some call ∧
      (s.waiting caller clock n).limiter.capacity = s.limiter.capacity := by
    induction n with
    | zero => exact ⟨hcall, rfl⟩
    | succ n ih =>
        obtain ⟨wait, htry⟩ := hrefuse _ ih.1 ih.2 (clock n)
        rw [waiting, step_wake ih.1 hdeadline htry]
        exact ih
  obtain ⟨wait, htry⟩ := hrefuse _ hstate.1 hstate.2 (clock n)
  refine ⟨hstate.1, hstate.2, ?_⟩
  rw [grant_wake hstate.1, htry]
  rfl

/-- The call is granted its token where a full bucket holds what it wants. -/
theorem acquires_iff_floor (hrate : 0 < s.limiter.rate) (hpause : s.limiter.pauseUntil ≤ now) :
    s.Acquires caller priority now ↔
      1 + (s.begin now priority none).floor ≤ s.limiter.capacity := by
  have hcall : (s.step (now, .acquire caller priority none)).acquiring caller =
      some (s.begin now priority none) := Function.update_self _ _ _
  constructor
  · intro h
    by_contra hfloor
    -- A caller that always sleeps the longest time the loop asks for.
    have hsleeps : (s.step (now, .acquire caller priority none)).Sleeps caller
        fun n => now + n * (1 / 4) := by
      intro n call wait _ htry
      have hwait := RateLimiter.wait_le htry
      dsimp only
      rw [Nat.cast_add, Nat.cast_one]
      linarith
    obtain ⟨n, granted, hgranted⟩ := h _ (by simp) hsleeps
    rw [(grant_eq_none_of_capacity_lt hcall rfl (not_le.mp hfloor) _ n).2.2] at hgranted
    cases hgranted
  · intro hfloor clock hclock hsleeps
    exact granted_of_le_capacity hcall rfl hrate (hpause.trans hclock) hsleeps hfloor

theorem floor_le_iff (s : Limited) (now : ℚ) (priority : Priority) :
    1 + (s.begin now priority none).floor ≤ s.limiter.capacity ↔
      (priority.deferrable → 2 ≤ s.limiter.capacity) := by
  have hcapacity := s.limiter.one_le_capacity
  cases hdeferrable : priority.deferrable with
  | false => simpa [begin, hdeferrable] using hcapacity
  | true =>
      simp only [begin, hdeferrable, if_true, foregroundReserve, forall_const]
      constructor <;> intro h <;> linarith

end Limited

/-! ## Whatever the answers said -/

/-- The rate an answer allows. -/
def LimiterEvent.allows : LimiterEvent → Option ℚ
  | .response h => h.rates.map fun r => r.limit / r.period
  | _ => none

/-- The rate that is allowed at last: what the last answer said that could be followed, or else
what is configured. -/
def allowedRate (targetRps : ℚ) (events : List (ℚ × LimiterEvent)) : ℚ :=
  (events.filterMap fun e => e.2.allows).getLastD targetRps

/-- A limiter that is configured, and has lived through some events. -/
def Limited.after (targetRps util start : ℚ) (hutil : 0 < util)
    (events : List (ℚ × LimiterEvent)) : Limited :=
  Run.exec Limited.step ⟨.configured targetRps util start hutil.le, fun _ => none⟩ events

theorem Limited.step_frame (s : Limited) (now : ℚ) (event : LimiterEvent) :
    (s.step (now, event)).limiter.util = s.limiter.util ∧
      (s.step (now, event)).limiter.capacity = (event.allows.map (max 1)).getD s.limiter.capacity ∧
      (0 < s.limiter.util → 0 < s.limiter.rate → 0 < (s.step (now, event)).limiter.rate) := by
  cases event with
  | acquire caller priority maxWait => exact ⟨rfl, rfl, fun _ h => h⟩
  | tooMany retryAfter => exact ⟨rfl, rfl, fun _ h => h⟩
  | wake caller =>
      rw [Limited.step]
      cases s.acquiring caller with
      | none => exact ⟨rfl, rfl, fun _ h => h⟩
      | some call =>
          obtain ⟨hutil, hrate, hcapacity⟩ := s.limiter.tryAcquire_frame now call.floor
          rcases htry : s.limiter.tryAcquire now call.floor with ⟨l, wait⟩
          rw [htry] at hutil hrate hcapacity
          dsimp only
          rw [htry]
          cases wait <;> exact ⟨hutil, hcapacity, fun _ h => h.trans_eq hrate.symm⟩
  | response h =>
      simp only [Limited.step, RateLimiter.onResponse, LimiterEvent.allows]
      cases h.rates with
      | none => exact ⟨rfl, rfl, fun _ h => h⟩
      | some r =>
          exact ⟨rfl, rfl, fun hutil _ => mul_pos (div_pos r.limit_pos r.period_pos) hutil⟩

theorem Limited.after_spec (targetRps start : ℚ) (hutil : 0 < util)
    (events : List (ℚ × LimiterEvent)) :
    (Limited.after targetRps util start hutil events).limiter.util = util ∧
      0 < (Limited.after targetRps util start hutil events).limiter.rate ∧
      (Limited.after targetRps util start hutil events).limiter.capacity =
        max 1 (allowedRate targetRps events) := by
  induction events using List.reverseRecOn with
  | nil => exact ⟨rfl, lt_max_of_lt_left (by norm_num), rfl⟩
  | append_singleton events last ih =>
      obtain ⟨now, event⟩ := last
      obtain ⟨hutil', hcapacity, hrate⟩ :=
        (Limited.after targetRps util start hutil events).step_frame now event
      rw [Limited.after] at ih hutil' hcapacity hrate ⊢
      rw [Run.exec_append, Run.exec_cons, Run.exec_nil]
      refine ⟨hutil'.trans ih.1, hrate (by rw [ih.1]; exact hutil) ih.2.1, ?_⟩
      rw [hcapacity, ih.2.2, allowedRate, allowedRate, List.filterMap_append]
      cases hallows : event.allows <;> simp [hallows]

/-- A call gets its token exactly where it need leave no reserve, or two requests a second are
allowed. -/
theorem acquire_succeeds_iff (targetRps util start : ℚ) (hutil : 0 < util)
    (events : List (ℚ × LimiterEvent)) (caller : ℕ) (priority : Priority) (now : ℚ)
    (hpause : (Limited.after targetRps util start hutil events).limiter.pauseUntil ≤ now) :
    (Limited.after targetRps util start hutil events).Acquires caller priority now ↔
      (priority.deferrable → 2 ≤ allowedRate targetRps events) := by
  obtain ⟨-, hrate, hcapacity⟩ := Limited.after_spec targetRps start hutil events
  rw [Limited.acquires_iff_floor hrate hpause, Limited.floor_le_iff, hcapacity]
  simp

theorem acquire_succeeds_iff_hundred :
    (Limited.after 1 (4 / 5) 0 (by norm_num) [(0, .response hundredPerTwenty)]).Acquires 1
      .reconcile 1 := by
  refine (acquire_succeeds_iff 1 (4 / 5) 0 (by norm_num) [(0, .response hundredPerTwenty)] 1
    .reconcile 1 (by decide +kernel)).mpr fun _ => ?_
  decide +kernel

/-- At one request a second, a sweep never gets to make one. -/
theorem sweep_waits_for_ever :
    ¬ (Limited.after 1 (4 / 5) 0 (by norm_num) []).Acquires 1 .reconcile 1 := by
  rw [Limited.acquires_iff_floor (by decide +kernel) (by decide +kernel)]
  decide +kernel

end PcoMirror
