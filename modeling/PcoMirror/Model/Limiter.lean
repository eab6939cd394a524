import Mathlib.Algebra.Order.Field.Basic
import Mathlib.Logic.Function.Basic
import Mathlib.Tactic.NormNum
import PcoMirror.Lib.Text

/-! The rate limiter that every caller of the upstream shares. Times and tokens are exact
rational numbers, and a section under the lock is one moment. -/

namespace PcoMirror

/-! ## The limits a response carries -/

/-- The `X-PCO-API-Request-Rate-*` headers of a response. -/
structure RateHeaders where
  limit : Option String := none
  period : Option String := none
  count : Option String := none

/-- `_parse_period`: the seconds of a period such as "20 seconds". -/
def parsePeriod : Option String → ℚ
  | none | some "" => 20
  | some v => match Text.float? (v.toList.filter fun ch => ch.isDigit || ch = '.') with
    | some n => if n = 0 then 20 else n
    | none => 20

/-- Limits that can be followed. -/
structure Rates where
  limit : ℚ
  period : ℚ
  count : ℚ
  limit_pos : 0 < limit
  period_pos : 0 < period

/-- What the headers say, unless one cannot be read or the limit is missing. -/
def RateHeaders.rates (h : RateHeaders) : Option Rates := do
  let limit ← h.limit.elim (some 0) fun v => Text.float? v.toList
  let period := parsePeriod h.period
  let count ← h.count.elim (some 0) fun v => Text.float? v.toList
  if hpos : 0 < limit ∧ 0 < period then some ⟨limit, period, count, hpos.1, hpos.2⟩ else none

/-- `_retry_after_seconds`: a `Retry-After` that is a number of seconds. -/
def retryAfterSeconds (raw : Option String) : Option ℚ :=
  match raw with
  | none | some "" => none
  | some raw => (Text.float? raw.toList).filter (0 ≤ ·)

/-! ## The bucket -/

inductive Priority where
  | reconcile | backfill | webhookHydrate | divergence | passthrough
  deriving DecidableEq

/-- `DEFERRABLE`: work nobody is waiting on. -/
def Priority.deferrable : Priority → Bool
  | .reconcile | .backfill | .webhookHydrate | .divergence => true
  | .passthrough => false

/-- `FOREGROUND_RESERVE` -/
def foregroundReserve : ℚ := 1 / 2

structure RateLimiter where
  util : ℚ
  rate : ℚ
  capacity : ℚ
  tokens : ℚ
  last : ℚ
  pauseUntil : ℚ
  util_nonneg : 0 ≤ util
  rate_nonneg : 0 ≤ rate
  one_le_capacity : 1 ≤ capacity

/-- `__init__` -/
def RateLimiter.configured (targetRps util now : ℚ) (hutil : 0 ≤ util) : RateLimiter where
  util := util
  rate := max (1 / 10) targetRps
  capacity := max 1 targetRps
  tokens := max 1 targetRps
  last := now
  pauseUntil := 0
  util_nonneg := hutil
  rate_nonneg := le_max_of_le_left (by norm_num)
  one_le_capacity := le_max_left 1 targetRps

/-- A limiter with the default utilisation. -/
def RateLimiter.new (targetRps now : ℚ) : RateLimiter :=
  .configured targetRps (4 / 5) now (by norm_num)

namespace RateLimiter

def refill (l : RateLimiter) (now : ℚ) : RateLimiter :=
  { l with tokens := min l.capacity (l.tokens + (now - l.last) * l.rate), last := now }

/-- One pass of the loop of `acquire`: a token is taken, or how long to sleep. -/
def tryAcquire (l : RateLimiter) (now floor : ℚ) : RateLimiter × Option ℚ :=
  let l := l.refill now
  if 1 + floor ≤ l.tokens ∧ l.pauseUntil ≤ now then ({ l with tokens := l.tokens - 1 }, none)
  else
    let wait := max (1 / 200) (min (1 / 4) ((1 + floor - l.tokens) / l.rate))
    let pause := l.pauseUntil - now
    (l, some (if 0 < pause then min pause (1 / 4) else wait))

/-- `on_response`: the limits of a response are followed, and near the wall a window is sat
out. -/
def onResponse (l : RateLimiter) (now : ℚ) (h : RateHeaders) : RateLimiter :=
  match h.rates with
  | none => l
  | some r =>
    { l with
      rate := r.limit / r.period * l.util
      capacity := max 1 (r.limit / r.period)
      pauseUntil := if 9 / 10 * r.limit ≤ r.count then now + r.period else l.pauseUntil
      rate_nonneg := mul_nonneg (div_nonneg r.limit_pos.le r.period_pos.le) l.util_nonneg
      one_le_capacity := le_max_left _ _ }

/-- How long a 429 is waited out. -/
def backOff (retryAfter : Option ℚ) : ℚ :=
  match retryAfter with
  | none => 20
  | some s => if s = 0 then 20 else s

def on429 (l : RateLimiter) (now : ℚ) (retryAfter : Option ℚ) : RateLimiter :=
  { l with tokens := 0, pauseUntil := now + backOff retryAfter }

end RateLimiter

/-! ## The callers -/

/-- A call of `acquire` that goes round its loop. -/
structure Acquiring where
  /-- What the bucket must hold beside the token that is taken. -/
  floor : ℚ
  deadline : Option ℚ
  floor_nonneg : 0 ≤ floor

/-- The limiter, and the calls that wait for a token. -/
structure Limited where
  limiter : RateLimiter
  acquiring : ℕ → Option Acquiring := fun _ => none

inductive LimiterEvent where
  | acquire (caller : ℕ) (priority : Priority) (maxWait : Option ℚ)
  /-- A caller goes round the loop once. -/
  | wake (caller : ℕ)
  | response (h : RateHeaders)
  | tooMany (retryAfter : Option String)

namespace Limited

def begin (s : Limited) (now : ℚ) (priority : Priority) (maxWait : Option ℚ) : Acquiring where
  floor := if priority.deferrable then s.limiter.capacity * foregroundReserve else 0
  deadline := maxWait.map (now + ·)
  floor_nonneg := by
    have hcapacity : 0 ≤ s.limiter.capacity := zero_le_one.trans s.limiter.one_le_capacity
    split
    · exact mul_nonneg hcapacity (by norm_num [foregroundReserve])
    · exact le_rfl

def step (s : Limited) : ℚ × LimiterEvent → Limited
  | (now, .acquire caller priority maxWait) =>
    { s with acquiring := Function.update s.acquiring caller (some (s.begin now priority maxWait)) }
  | (now, .wake caller) => match s.acquiring caller with
    | none => s
    | some call => match s.limiter.tryAcquire now call.floor with
      | (limiter, none) => ⟨limiter, Function.update s.acquiring caller none⟩
      | (limiter, some wait) =>
        -- `RateLimitBusy` is raised where the sleep would outlast the caller's patience.
        ⟨limiter, if call.deadline.any (· < now + wait) then Function.update s.acquiring caller none
          else s.acquiring⟩
  | (now, .response h) => { s with limiter := s.limiter.onResponse now h }
  | (now, .tooMany retryAfter) =>
    { s with limiter := s.limiter.on429 now (retryAfterSeconds retryAfter) }

/-- When a request is granted. -/
def grant (s : Limited) : ℚ × LimiterEvent → Option ℚ
  | (now, .wake caller) => do
    let call ← s.acquiring caller
    if (s.limiter.tryAcquire now call.floor).2.isNone then some now else none
  | _ => none

end Limited

end PcoMirror
