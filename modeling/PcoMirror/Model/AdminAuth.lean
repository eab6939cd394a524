import Mathlib.Algebra.Order.Floor.Semiring
import Mathlib.Data.NNRat.Defs
import Mathlib.Data.Rat.Floor
import PcoMirror.Lib.Text

/-! The operator's password, and the throttle on guessing it. Times are exact rational numbers, and a
section under the lock is one moment. -/

namespace PcoMirror.AdminAuth

/-! ## The throttle -/

/-- `MAX_FAILURES` -/
def maxFailures : ℕ := 5

/-- `LOCKOUT_SECONDS` -/
def lockoutSeconds : ℚ := 60

/-- `_failures` -/
structure Failures where
  count : ℕ := 0
  lockUntil : ℚ := 0

namespace Failures

variable (f : Failures) (now : ℚ)

/-- `locked_out`: the seconds that remain of a lockout, 0 if there is none. -/
def lockedOut : ℕ :=
  if 0 < f.lockUntil - now then ⌊f.lockUntil - now⌋₊ + 1 else 0

/-- One failure more begins a lockout. -/
def Locks : Prop :=
  maxFailures ≤ f.count + 1

instance : Decidable f.Locks :=
  inferInstanceAs (Decidable (_ ≤ _))

/-- `_record_failure` -/
def recordFailure : Failures :=
  if f.Locks then ⟨0, now + lockoutSeconds⟩ else { f with count := f.count + 1 }

/-- `_clear_failures` -/
def cleared : Failures :=
  {}

end Failures

/-! ## The password -/

/-- The row of `admin_account`. -/
structure Account where
  passwordHash : List UInt8
  passwordSalt : List UInt8
  iterations : ℕ

/-- What a password is tested against; `derive` is PBKDF2-HMAC-SHA256. -/
structure Credentials where
  derive : String → List UInt8 → ℕ → List UInt8
  pcoSecret : Option String
  account : Option Account

/-- The test of a password: whether it is right, and whether it is the bootstrap one. -/
def Credentials.compare (c : Credentials) (password : String) : Bool × Bool :=
  match c.account with
  | none =>
    let secret := String.ofList (Text.strip (c.pcoSecret.getD "").toList)
    let ok := secret ≠ "" && secret = password
    (ok, ok)
  | some account => (account.passwordHash = c.derive password account.passwordSalt
      account.iterations, false)

/-- What a tested password leaves of the failures. -/
def settle (f : Failures) (now : ℚ) (ok : Bool) : Failures :=
  if ok then .cleared else f.recordFailure now

/-- `verify`, of one thread alone, which looks at the lock at one time and records at another. -/
def verify (c : Credentials) (f : Failures) (checked recorded : ℚ) (password : String) :
    (Bool × Bool) × Failures :=
  if f.lockedOut checked ≠ 0 then ((false, false), f)
  else (c.compare password, settle f recorded (c.compare password).1)

/-! ## Threads -/

/-- A call of `verify` that the lock has let through: what it is to test, or what it has found and
not yet recorded. -/
inductive Call where
  | passed (password : String)
  | tested (ok usedBootstrap : Bool)
  deriving DecidableEq

def Call.isTested : Call → Bool
  | .passed _ => false
  | .tested .. => true

/-- The calls under way in the threads of the server. -/
structure Console where
  now : ℚ
  failures : Failures := {}
  calls : List Call := []
  /-- The wrong passwords tested since the last lockout began; no step reads it. -/
  tested : ℕ := 0

/-- The parts of `verify` that other threads can come between. -/
inductive Part where
  | check (password : String)
  | test (i : ℕ)
  | record (i : ℕ)

/-- A part of a call, and the time that passes before it. -/
structure Move where
  elapsed : ℚ≥0
  part : Part

variable (c : Credentials)

/-- One part of one call, taken at the time the console shows. -/
def Console.takes (s : Console) : Part → Console
  | .check password =>
    if s.failures.lockedOut s.now ≠ 0 then s
    else { s with calls := s.calls ++ [.passed password] }
  | .test i => match s.calls[i]? with
    | some (.passed password) =>
      let (ok, usedBootstrap) := c.compare password
      { s with
        calls := s.calls.set i (.tested ok usedBootstrap)
        tested := if ok then s.tested else s.tested + 1 }
    | _ => s
  | .record i => match s.calls[i]? with
    | some (.tested ok _) => { s with
        failures := settle s.failures s.now ok
        calls := s.calls.eraseIdx i
        tested := if !ok && decide s.failures.Locks then 0 else s.tested }
    | _ => s

def Console.waits (s : Console) (elapsed : ℚ≥0) : Console :=
  { s with now := s.now + elapsed }

def Console.step (s : Console) (m : Move) : Console :=
  (s.waits m.elapsed).takes c m.part

/-- What a part answers the caller of `verify`, where it is the last one of its call. -/
def Console.answer (s : Console) (m : Move) : Option (Bool × Bool) :=
  match m.part with
  | .check _ => if s.failures.lockedOut (s.now + m.elapsed) ≠ 0 then some (false, false) else none
  | .test _ => none
  | .record i => match s.calls[i]? with
    | some (.tested ok usedBootstrap) => some (ok, usedBootstrap)
    | _ => none

end PcoMirror.AdminAuth
