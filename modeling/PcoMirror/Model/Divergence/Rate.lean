import Mathlib.Data.List.Dedup
import Mathlib.Data.List.Sort
import Mathlib.Data.Rat.Floor
import PcoMirror.Lib.Text

/-! How many divergence checks a pass makes: the rate in force, the allowance it gives, and the
requests that are due. -/

namespace PcoMirror.Divergence

/-! ## The rate -/

/-- `MAX_PER_MINUTE` -/
def maxPerMinute : ℤ := 60

/-- `effective`: the operator's choice where one is held and can be read, else the environment's. -/
def effective (default : ℤ) (held : Option String) : ℤ :=
  match held.bind fun text => Text.int? text.toList with
  | some chosen => max 0 (min maxPerMinute chosen)
  | none => max 0 default

/-- `configure`: what is held once the operator has chosen, or cleared the choice. -/
def configure (perMinute : Option ℤ) : Option String :=
  perMinute.map fun n => toString (max 0 (min maxPerMinute n))

/-! ## The corpus -/

/-- A row of `shadow_sample`, less the times that nothing decides by. -/
structure Sample where
  id : ℕ
  shape : String
  path : String := ""
  query : String := "\x7b\x7d"
  seen : ℕ := 0
  lastCheckedAt : Option String := none
  deriving DecidableEq

def Sample.touched (sample : Sample) : String :=
  sample.lastCheckedAt.getD ""

/-- When a shape was last checked. -/
def touchedOf (corpus : List Sample) (shape : String) : String :=
  ((corpus.filter fun s => s.shape = shape).map Sample.touched).foldl max ""

/-- The shapes, the least recently checked first. -/
def shapesByAge (corpus : List Sample) : List String :=
  (corpus.map Sample.shape).dedup.insertionSort fun shape shape' =>
    touchedOf corpus shape < touchedOf corpus shape' ∨
      touchedOf corpus shape = touchedOf corpus shape' ∧ shape ≤ shape'

/-- The request of a shape that was checked least recently. -/
def oldestOf (corpus : List Sample) (shape : String) : Option Sample :=
  ((corpus.filter fun s => s.shape = shape).insertionSort fun s s' =>
    s.touched < s'.touched ∨ s.touched = s'.touched ∧ s.id ≤ s'.id).head?

/-- `due`: one request of a shape, for as many shapes as the limit allows. -/
def due (corpus : List Sample) (limit : ℤ) : List Sample :=
  ((shapesByAge corpus).take limit.toNat).filterMap (oldestOf corpus)

/-! ## The checker -/

/-- `int`, of a number: what follows the point is cut off. -/
def truncate (q : ℚ) : ℤ :=
  if 0 ≤ q then ⌊q⌋ else ⌈q⌉

structure ShadowChecker where
  tokens : ℚ
  lastRefill : ℚ

/-- `__init__`: no tokens, and the time that one takes to arrive. -/
def ShadowChecker.new (perMinute : ℤ) (now : ℚ) : ShadowChecker where
  tokens := 0
  lastRefill := now - 60 / (max 1 perMinute : ℤ)

/-- `_allowance`: how many checks a pass may make, from the time that has elapsed. -/
def ShadowChecker.allowance (c : ShadowChecker) (rate : ℤ) (now : ℚ) : ShadowChecker × ℤ :=
  if rate ≤ 0 then (c, 0)
  else
    let tokens := min (rate : ℚ) (c.tokens + (now - c.lastRefill) * rate / 60)
    (⟨tokens, now⟩, truncate tokens)

/-- `_spend` -/
def ShadowChecker.spend (c : ShadowChecker) (n : ℕ) : ShadowChecker :=
  { c with tokens := max 0 (c.tokens - n) }

/-- The checker with what it stands on. -/
structure Shadow where
  /-- `shadow_per_minute` of the environment. -/
  default : ℤ
  /-- What the operator chose, as it is held. -/
  held : Option String := none
  checker : ShadowChecker
  corpus : List Sample := []

def Shadow.perMinute (s : Shadow) : ℤ :=
  effective s.default s.held

/-- The checker of a process that has just started. -/
def Shadow.start (default : ℤ) (held : Option String) (corpus : List Sample) (now : ℚ) : Shadow where
  default := default
  held := held
  checker := .new (effective default held) now
  corpus := corpus

/-- `run_once`: the checks a pass makes, marked with the time each ends at. A check that fails
counts as made. -/
def Shadow.runOnce (s : Shadow) (now : ℚ) (stamp : Sample → String) (limit : Option ℤ) : Shadow × ℕ :=
  if s.perMinute ≤ 0 then (s, 0)
  else
    let (checker, budget) := match limit with
      | none => s.checker.allowance s.perMinute now
      | some limit => (s.checker, limit)
    if budget ≤ 0 then ({ s with checker }, 0)
    else
      let picked := due s.corpus budget
      let corpus := s.corpus.map fun sample =>
        if sample ∈ picked then { sample with lastCheckedAt := some (stamp sample) } else sample
      let checker := if limit.isNone then checker.spend picked.length else checker
      ({ s with checker, corpus }, picked.length)

/-! ## Runs -/

inductive ShadowEvent where
  /-- A pass of the scheduler. -/
  | pass (stamp : Sample → String)
  /-- The operator sets the rate, off included, or clears the choice. -/
  | configure (perMinute : Option ℤ)
  /-- The reads that are served enrol requests, and crowd others out. -/
  | observe (corpus : List Sample)

def Shadow.step (s : Shadow) : ℚ × ShadowEvent → Shadow
  | (now, .pass stamp) => (s.runOnce now stamp none).1
  | (_, .configure perMinute) => { s with held := Divergence.configure perMinute }
  | (_, .observe corpus) => { s with corpus }

/-- How many checks an event makes. -/
def Shadow.checks (s : Shadow) : ℚ × ShadowEvent → ℕ
  | (now, .pass stamp) => (s.runOnce now stamp none).2
  | _ => 0

end PcoMirror.Divergence
