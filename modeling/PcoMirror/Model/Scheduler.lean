import Mathlib.Data.Rat.Defs
import PcoMirror.Lib.RoundRobin
import PcoMirror.Model.Ingest.AuditRequest
import PcoMirror.Model.Ingest.Backfill

/-! The cold lane: one bounded unit of bulk work a tick, a backfill first, then the audits and
the walks in turn. -/

namespace PcoMirror

open Program

/-! ## Units -/

/-- `full_and_lite` -/
def fullAndLite : List Res :=
  Res.all.filter (·.info.tier ≠ .passthrough)

/-- A unit of the rotating ring. -/
inductive ColdUnit where
  | audit (r : Res)
  | walk (r : Res)
  deriving DecidableEq

/-- A key of the retry times. -/
inductive ColdKey where
  | backfill (r : Res)
  | unit (u : ColdUnit)
  deriving DecidableEq

/-- The resources that are audited. -/
def audited : List Res :=
  fullAndLite.filter (·.info.auditIntervalS.any (· ≠ 0))

/-- The resources that are walked. -/
def walked : List Res :=
  fullAndLite.filter (·.info.method = .nestedWalk)

/-- Every unit there is, in the order of the ring. -/
def coldUnits : List ColdUnit :=
  audited.map .audit ++ walked.map .walk

/-- `COLD_UNIT_BUDGET` -/
def coldUnitBudget : ℕ :=
  8

/-- `COLD_RETRY_S` -/
def coldRetryS : ℚ :=
  300

/-- `DRIFT_AUDIT_MIN_INTERVAL_S` -/
def driftAuditMinIntervalS : ℕ :=
  3600

/-! ## The lane -/

structure ColdEnv where
  env : Env
  /-- `time.monotonic()`, reading by reading. -/
  monotonic : ℕ → ℚ
  auditIntervalHours : ℤ := 24
  fuel : ℕ

structure Cold where
  world : World := {}
  ringLast : Option ColdUnit := none
  /-- A key that is not held is due at zero. -/
  retryAt : ColdKey → ℚ := fun _ => 0
  /-- Counts the readings of the monotonic clock. -/
  tick : ℕ := 0
  /-- The units of the ring that have run, newest first; no step reads it. -/
  ran : List ColdUnit := []

abbrev ColdM := EStateM Halt Cold

/-- `_guard`: runs one unit, and takes note of whether it failed. -/
def guarded (m : Proc Unit) : ColdM Bool := do
  let c ← get
  match m.run c.world with
  | .ok _ w =>
    set { c with world := w }
    return true
  | .error (.raised _) w =>
    set { c with world := w }
    return false
  | .error .stopped w =>
    set { c with world := w }
    throw .stopped

def monotonicNow (env : ColdEnv) : ColdM ℚ := do
  let c ← get
  set { c with tick := c.tick + 1 }
  return env.monotonic c.tick

/-- `_cold_ready` -/
def coldReady (env : ColdEnv) (key : ColdKey) : ColdM Bool := do
  let now ← monotonicNow env
  return (← get).retryAt key ≤ now

/-- `_cold_outcome` -/
def coldOutcome (env : ColdEnv) (key : ColdKey) (ok : Bool) : ColdM Unit := do
  let retry ← if ok then pure 0 else (· + coldRetryS) <$> monotonicNow env
  modify fun c => { c with retryAt := fun k => if k = key then retry else c.retryAt k }

/-! ## What is due -/

/-- `_audit_due` -/
def auditDue (env : ColdEnv) (r : Res) (now : String) (w : World) : Except PyError Bool := do
  let st := w.sync r
  if (st.backfillCompletedAt.getD "") = "" then return false
  let request := w.auditSource r
  if request = some AuditSource.operator.text then return true
  let hours := (max 0 env.auditIntervalHours).toNat
  if hours = 0 then return false
  -- An audit that failed waits a full interval as well.
  let last := max (st.lastAuditStartedAt.getD "") (st.lastAuditCompletedAt.getD "")
  if last = "" then return true
  let some due := Iso8601.minusSeconds now (hours * 3600) | throw .overflowError
  if last ≤ due then return true
  let some due := Iso8601.minusSeconds now driftAuditMinIntervalS | throw .overflowError
  return request.any (· ≠ "") && last ≤ due

/-- A walk whose round is under way, or whose time has come. -/
def walkDue (r : Res) (now : String) (w : World) : Bool :=
  let st := w.sync r
  st.backfillCompletedAt.isSome &&
    ((w.walkRound r).isSome || st.nextRunAt.all fun at' => at' ≠ "" && at' ≤ now)

/-- The audits and the walks that are due, in the order of the registry. -/
def coldRing (env : ColdEnv) (now : String) (w : World) : Except PyError (List ColdUnit) := do
  let audits ← audited.filterM fun r =>
    if (w.auditRound r).isSome then pure true else auditDue env r now w
  return audits.map .audit ++ (walked.filter (walkDue · now w)).map .walk

/-! ## One tick -/

/-- `_audit_step` and `_walk_step` -/
def ColdUnit.step (env : ColdEnv) : ColdUnit → Proc Unit
  | .audit r => do
    let _ ← deleteAuditStep env.env r coldUnitBudget
  | .walk r => whenSome r.info.parent fun parent => do
    let outcome ← walkRoundStep env.env r parent coldUnitBudget env.fuel
    if outcome.done then
      let next ← isoIn env.env r.info.incrIntervalS
      setState r fun st => { st with nextRunAt := next }

/-- The first resource that is not backfilled and not cooling down gets a unit. -/
def lateBackfill (env : ColdEnv) : List Res → ColdM Bool
  | [] => return false
  | r :: rest => do
    if ((← get).world.sync r).backfillCompletedAt.isSome then lateBackfill env rest
    else if !(← coldReady env (.backfill r)) then lateBackfill env rest
    else
      let ok ← guarded do
        let _ ← backfill env.env r (some coldUnitBudget) env.fuel
      coldOutcome env (.backfill r) ok
      return true

/-- The first unit that is not cooling down runs. -/
def runRing (env : ColdEnv) : List ColdUnit → ColdM Bool
  | [] => return false
  | u :: rest => do
    if !(← coldReady env (.unit u)) then runRing env rest
    else
      let ok ← guarded (u.step env)
      coldOutcome env (.unit u) ok
      modify fun c => { c with ringLast := some u, ran := u :: c.ran }
      return true

/-- The time of a call, read from the wall clock. -/
def coldNow (env : ColdEnv) : ColdM String := do
  let c ← get
  set { c with world := { c.world with tick := c.world.tick + 1 } }
  return env.env.now c.world.tick

/-- `run_cold_once` -/
def runColdOnce (env : ColdEnv) : ColdM Bool := do
  let now ← coldNow env
  if ← lateBackfill env fullAndLite then return true
  let c ← get
  match coldRing env now c.world with
  | .error e => throw (.raised e)
  | .ok ring => runRing env (RoundRobin.rotated c.ringLast ring)

/-! ## Calls -/

/-- A call of the lane, and the state that the rest of the process has left to it. -/
structure ColdCall where
  world : World
  env : ColdEnv

/-- The state as a call finds it. -/
def Cold.found (c : Cold) (call : ColdCall) : Cold :=
  { c with world := call.world }

def Cold.call (c : Cold) (call : ColdCall) : Cold :=
  final (runColdOnce call.env) (c.found call)

end PcoMirror
