import Mathlib.Tactic.FieldSimp
import Mathlib.Tactic.Ring
import PcoMirror.Lib.TokenBucket
import PcoMirror.Model.Limiter

/-! The limiter as a token bucket: no window of the upstream's own period holds more requests than
the upstream allows. -/

namespace PcoMirror

open TokenBucket (Bucket Move)

variable {s : Limited} {now limit period : ℚ} {event : LimiterEvent}

namespace Limited

def bucket (s : Limited) : Bucket ℚ :=
  ⟨s.limiter.tokens, s.limiter.last⟩

/-- What an event does to the bucket. -/
def move (s : Limited) : ℚ × LimiterEvent → Option (Move ℚ)
  | (now, .wake caller) => (s.acquiring caller).map fun call => .visit {
      now := now
      rate := s.limiter.rate
      capacity := s.limiter.capacity
      spent := if (s.limiter.tryAcquire now call.floor).2.isNone then 1 else 0
      rate_nonneg := s.limiter.rate_nonneg
      capacity_nonneg := zero_le_one.trans s.limiter.one_le_capacity }
  | (now, .tooMany _) => some (.drain now)
  | _ => none

theorem bucket_of_move_none (h : s.move (now, event) = none) :
    (s.step (now, event)).bucket = s.bucket := by
  cases event with
  | acquire caller priority maxWait => rfl
  | wake caller =>
      rw [move, Option.map_eq_none_iff] at h
      simp only [step, h]
  | response h =>
      simp only [step, bucket, RateLimiter.onResponse]
      split <;> rfl
  | tooMany retryAfter => cases h

/-- A pass takes a token that is there, or none. -/
theorem bucket_of_move {m : Move ℚ} (h : s.move (now, event) = some m) :
    (s.step (now, event)).bucket = s.bucket.move m ∧ s.bucket.Affords m := by
  cases event with
  | acquire caller priority maxWait => cases h
  | response h => cases h
  | tooMany retryAfter =>
      cases h
      exact ⟨rfl, trivial⟩
  | wake caller =>
      rw [move, Option.map_eq_some_iff] at h
      obtain ⟨call, hcall, rfl⟩ := h
      simp only [step, hcall, bucket, Bucket.move, Bucket.Affords, Bucket.level]
      by_cases hgrant : 1 + call.floor ≤ (s.limiter.refill now).tokens ∧
          (s.limiter.refill now).pauseUntil ≤ now
      · have hlevel := hgrant.1
        have hfloor := call.floor_nonneg
        simp only [RateLimiter.tryAcquire, hgrant, and_self, if_true, Option.isNone_none]
        refine ⟨by simp [RateLimiter.refill], fun _ => ?_⟩
        rw [Nat.cast_one]
        exact (le_add_of_nonneg_right hfloor).trans hlevel
      · simp only [RateLimiter.tryAcquire, hgrant, if_false, Option.isNone_some]
        exact ⟨by simp [RateLimiter.refill], fun h => absurd h (by simp)⟩

theorem now_of_move {m : Move ℚ} (h : s.move (now, event) = some m) : m.now = now := by
  cases event with
  | acquire caller priority maxWait => cases h
  | response h => cases h
  | tooMany retryAfter =>
      cases h
      rfl
  | wake caller =>
      obtain ⟨call, -, rfl⟩ := Option.map_eq_some_iff.mp h
      rfl

/-- The requests that are granted are the tokens that are spent. -/
theorem length_grant (s : Limited) (e : ℚ × LimiterEvent) (start stop : ℚ) :
    ((s.grant e).toList.filter fun t => start ≤ t ∧ t ≤ stop).length =
      (s.move e).elim 0 (Move.spentIn start stop) := by
  obtain ⟨now, event⟩ := e
  cases event with
  | acquire caller priority maxWait => rfl
  | response h => rfl
  | tooMany retryAfter => rfl
  | wake caller =>
      rw [grant, move]
      cases s.acquiring caller with
      | none => rfl
      | some call =>
          by_cases hin : start ≤ now ∧ now ≤ stop <;>
          cases hwait : (s.limiter.tryAcquire now call.floor).2 <;>
          simp [hwait, hin, Move.spentIn]

/-- When requests are granted in a run. -/
def grants (s : Limited) (events : List (ℚ × LimiterEvent)) : List ℚ :=
  Run.outputs step grant s events

theorem length_grants (s : Limited) (events : List (ℚ × LimiterEvent)) (start stop : ℚ) :
    ((s.grants events).filter fun t => start ≤ t ∧ t ≤ stop).length =
      TokenBucket.spentIn start stop (Run.outputs step move s events) := by
  induction events generalizing s with
  | nil => rfl
  | cons e events ih =>
      have hrest := ih (s.step e)
      rw [grants] at hrest ⊢
      rw [Run.outputs, Run.outputs, List.filter_append, List.length_append, hrest, length_grant]
      cases s.move e <;> simp

end Limited

/-! ## Constant limits -/

/-- The limiter follows a limit for a period, at the default utilisation. -/
structure RateLimiter.Follows (l : RateLimiter) (limit period : ℚ) : Prop where
  util : l.util = 4 / 5
  rate : l.rate = limit / period * (4 / 5)
  capacity : l.capacity = max 1 (limit / period)

/-- The headers a response carries, if it carries any, say the same limit. -/
def LimiterEvent.Says (limit period : ℚ) : LimiterEvent → Prop
  | .response h => ∀ r, h.rates = some r → r.limit = limit ∧ r.period = period
  | _ => True

theorem RateLimiter.tryAcquire_frame (l : RateLimiter) (now floor : ℚ) :
    (l.tryAcquire now floor).1.util = l.util ∧ (l.tryAcquire now floor).1.rate = l.rate ∧
      (l.tryAcquire now floor).1.capacity = l.capacity := by
  unfold RateLimiter.tryAcquire
  dsimp only
  split <;> exact ⟨rfl, rfl, rfl⟩

theorem Limited.follows_step (hs : s.limiter.Follows limit period) (hstates : event.Says limit period) :
    (s.step (now, event)).limiter.Follows limit period := by
  cases event with
  | acquire caller priority maxWait => exact hs
  | tooMany retryAfter => exact ⟨hs.util, hs.rate, hs.capacity⟩
  | wake caller =>
      rw [Limited.step]
      cases s.acquiring caller with
      | none => exact hs
      | some call =>
          obtain ⟨hutil, hrate, hcapacity⟩ := s.limiter.tryAcquire_frame now call.floor
          have hkept : (s.limiter.tryAcquire now call.floor).1.Follows limit period :=
            ⟨hutil.trans hs.util, hrate.trans hs.rate, hcapacity.trans hs.capacity⟩
          rcases htry : s.limiter.tryAcquire now call.floor with ⟨l, wait⟩
          rw [htry] at hkept
          dsimp only
          rw [htry]
          cases wait <;> exact hkept
  | response h =>
      simp only [Limited.step, RateLimiter.onResponse]
      cases hrates : h.rates with
      | none => exact hs
      | some r =>
          obtain ⟨hlimit, hperiod⟩ := hstates r hrates
          exact ⟨hs.util, by simp [hlimit, hperiod, hs.util], by simp [hlimit, hperiod]⟩

/-- The limiter keeps the real budget: in no window of one period are more requests granted than
the limit. -/
theorem grants_within_limit (limit period : ℚ) (hperiod : 5 ≤ period)
    (hlimit : 1 ≤ limit / period) (s : Limited) (hs : s.limiter.Follows limit period)
    (events : List (ℚ × LimiterEvent)) (hstates : ∀ e ∈ events, e.2.Says limit period)
    (hsorted : events.Pairwise fun e e' => e.1 ≤ e'.1) (start : ℚ) :
    (((s.grants events).filter fun t => start ≤ t ∧ t ≤ start + period).length : ℚ) ≤ limit := by
  have hpositive : 0 < period := lt_of_lt_of_le (by norm_num) hperiod
  have hrun : Run.Each Limited.step (fun _ e => e.2.Says limit period) s events :=
    Run.each_of_mem hstates
  have hkeep : ∀ (s : Limited) (e : ℚ × LimiterEvent), s.limiter.Follows limit period →
      e.2.Says limit period → (s.step e).limiter.Follows limit period :=
    fun s e hs he => Limited.follows_step hs he
  have hafford : Run.Each Bucket.move Bucket.Affords s.bucket
      (Run.outputs Limited.step Limited.move s events) :=
    Run.each_outputs Limited.bucket hrun hs hkeep
      (fun s e _ _ h => Limited.bucket_of_move_none h) fun s e m _ _ h => Limited.bucket_of_move h
  have hmoves : (Run.outputs Limited.step Limited.move s events).Pairwise
      fun m m' => m.now ≤ m'.now := by
    refine Run.pairwise_outputs hsorted fun s s' e e' m m' hle h h' => ?_
    rw [Limited.now_of_move h, Limited.now_of_move h']
    exact hle
  have hrates : ∀ m ∈ Run.outputs Limited.step Limited.move s events,
      ∃ e ∈ events, ∀ v, m = .visit v →
        v.rate ≤ limit / period * (4 / 5) ∧ v.capacity ≤ limit / period := by
    refine Run.forall_mem_outputs hrun hs hkeep ?_
    rintro s ⟨now, event⟩ m hs - h v rfl
    cases event with
    | wake caller =>
        obtain ⟨call, -, hv⟩ := Option.map_eq_some_iff.mp h
        cases hv
        exact ⟨hs.rate.le, (hs.capacity.trans (max_eq_right hlimit)).le⟩
    | _ => cases h
  have hwithin : TokenBucket.Within start (start + period) (limit / period * (4 / 5))
      (limit / period) (Run.outputs Limited.step Limited.move s events) := by
    intro v hv _ _
    obtain ⟨_, -, h⟩ := hrates _ hv
    exact h v rfl
  have hbound := TokenBucket.spentIn_le (by linarith) (by linarith) (by linarith) hmoves hafford
    hwithin
  rw [Limited.length_grants]
  refine hbound.trans ?_
  have hwhole : limit / period * (4 / 5) * (start + period - start) = limit * (4 / 5) := by
    field_simp
    ring
  have hburst : limit / period ≤ limit / 5 := by
    have hpos : 0 ≤ limit := by
      have := (le_div_iff₀ hpositive).mp hlimit
      linarith
    exact div_le_div_of_nonneg_left hpos (by norm_num) hperiod
  rw [hwhole]
  linarith

def hundredPerTwenty : RateHeaders where
  limit := some "100"
  period := some "20 seconds"

def followingHundred : Limited where
  limiter := (RateLimiter.new 4 0).onResponse 0 hundredPerTwenty

theorem grants_within_limit_hundred :
    (((followingHundred.grants [(0, .acquire 1 .passthrough none), (0, .wake 1),
      (1, .response hundredPerTwenty), (2, .acquire 2 .reconcile none), (2, .wake 2),
      (3, .tooMany (some "4"))]).filter fun t => (0 : ℚ) ≤ t ∧ t ≤ 0 + 20).length : ℚ) ≤ 100 := by
  have hlimit : hundredPerTwenty.rates.map Rates.limit = some 100 := by decide +kernel
  have hperiod : hundredPerTwenty.rates.map Rates.period = some 20 := by decide +kernel
  refine grants_within_limit 100 20 (by norm_num) (by norm_num) followingHundred ?_ _ ?_
    (by norm_num) 0
  · exact ⟨by decide +kernel, by decide +kernel, by decide +kernel⟩
  · have hstates : LimiterEvent.Says 100 20 (.response hundredPerTwenty) := by
      intro r hr
      rw [hr] at hlimit hperiod
      exact ⟨Option.some.inj hlimit, Option.some.inj hperiod⟩
    intro e he
    simp only [List.mem_cons, List.not_mem_nil, or_false] at he
    rcases he with rfl | rfl | rfl | rfl | rfl | rfl
    all_goals first | exact hstates | trivial

end PcoMirror
