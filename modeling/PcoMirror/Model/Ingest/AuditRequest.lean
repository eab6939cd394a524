import PcoMirror.Model.Ingest.Audit

/-! Requests for an audit out of cadence: one key for each resource, written by the drift
probe and by operators while a round is at work, and cleared by the round at its end. -/

namespace PcoMirror

open Program

/-! ## Requests -/

/-- Who asks for an audit. -/
inductive AuditSource where
  | drift | operator
  deriving DecidableEq

def AuditSource.text : AuditSource → String
  | .drift => "drift"
  | .operator => "operator"

/-- `s.split()[0]` -/
def firstWord (s : String) : String :=
  String.ofList ((s.toList.dropWhile Char.isWhitespace).takeWhile fun c => !c.isWhitespace)

/-- `audit_request`: the source of the pending request. -/
def World.auditSource (w : World) (r : Res) : Option String :=
  (w.auditRequest r).bind fun held => if held = "" then none else some (firstWord held)

/-- Whether an operator's request is pending. -/
def World.operatorAsked (w : World) (r : Res) : Bool :=
  w.auditSource r = some AuditSource.operator.text

/-- `set_meta` of the request's key. -/
def World.ask (w : World) (r : Res) (source : AuditSource) (now : String) : World :=
  { w with auditRequest := fun u =>
      if u = r then some (source.text ++ " " ++ now) else w.auditRequest u }

/-- `request_audit`: a drift request does not take an operator's place. -/
def requestAudit (env : Env) (r : Res) (source : AuditSource) : Proc Unit := do
  if source = .drift ∧ (← get).operatorAsked r then return
  let now ← nowIso env
  modify (·.ask r source now)

/-! ## A round in pieces -/

/-- The round in progress, or a new one. -/
def beginAudit (env : Env) (r : Res) : Proc AuditRound := do
  match (← get).auditRound r with
  | some round => pure round
  | none => startAudit env r

/-- The restore phase, up to where the round ends. -/
def restoreWork (env : Env) (r : Res) : ℕ → AuditRound → Proc AuditOutcome
  | 0, round => return ⟨false, round.tombstoned, round.restored⟩
  | left + 1, round => do
    match ← nextScratch r .live with
    | some id =>
      if round.restored < auditRestoreLimit then
        let restored ← restoreOne env r id
        let round := { round with restored := round.restored + if restored then 1 else 0 }
        dropScratch r .live [id]
        saveAuditRound r round
        restoreWork env r left round
      else return ⟨true, round.tombstoned, round.restored⟩
    | none => return ⟨true, round.tombstoned, round.restored⟩

/-- One unit of a round, up to where the round ends. -/
def auditWork (env : Env) (r : Res) (budget : ℕ) (round : AuditRound) : Proc AuditOutcome := do
  let (left, round) ← if round.phase = .enumerate then do
      let mode := round.mode.getD (if r.info.supportsCatFilter then .keyset else .offset)
      let (left, round) ← enumerate env r budget { round with mode := some mode }
      saveAuditRound r round
      pure (left, round)
    else pure (budget, round)
  let (left, round) ← if round.phase = .confirm then do
      let (left, round) ← confirm env r left round
      saveAuditRound r round
      pure (left, round)
    else pure (left, round)
  if round.phase = .restore then restoreWork env r left round
  else return ⟨false, round.tombstoned, round.restored⟩

/-- `clear_audit_request` -/
def World.unask (w : World) (r : Res) : World :=
  { w with auditRequest := fun u => if u = r then none else w.auditRequest u }

/-- What a round does at its end, up to the clearing of the request. -/
def clearAudit (env : Env) (r : Res) : Proc Unit := do
  setScratch r fun _ => []
  let now ← nowIso env
  setState r fun st => { st with lastAuditCompletedAt := some now }
  modify (·.unask r)

/-- Drops the persisted round. -/
def World.endRound (w : World) (r : Res) : World :=
  { w with auditRound := fun u => if u = r then none else w.auditRound u }

theorem finishAudit_eq (env : Env) (r : Res) : finishAudit env r = (do
    clearAudit env r
    modify (·.endRound r)) := rfl

theorem restore_eq (env : Env) (r : Res) (left : ℕ) (round : AuditRound) :
    restore env r left round = (do
      let outcome ← restoreWork env r left round
      if outcome.done then finishAudit env r
      return outcome) := by
  induction left generalizing round with
  | zero => rfl
  | succ left ih =>
      rw [restore, restoreWork, bind_assoc]
      refine bind_congr fun next => ?_
      cases next with
      | none => simp
      | some id =>
          split_ifs
          · simp only [bind_assoc, ih]
          · simp

/-- A call is its pieces in order. -/
theorem deleteAuditStep_pieces (env : Env) (r : Res) (budget : ℕ) :
    deleteAuditStep env r budget = (do
      let round ← beginAudit env r
      let outcome ← auditWork env r budget round
      if outcome.done then finishAudit env r
      return outcome) := by
  simp only [deleteAuditStep, auditWork, beginAudit, restore_eq, bind_assoc]
  refine bind_congr fun w => ?_
  cases w.auditRound r with
  | some round => simp only [ite_bind, bind_assoc, pure_bind, Bool.false_eq_true, if_false]
  | none => simp only [ite_bind, bind_assoc, pure_bind, Bool.false_eq_true, if_false]

/-! ## Interleavings -/

/-- Where a call of `delete_audit_step` stands. -/
inductive AuditStage where
  | idle
  | working (round : AuditRound)
  /-- The round is done; the request is cleared next. -/
  | finishing
  | cleared

/-- What happens to the key of a request, for the record. -/
inductive AuditEvent where
  /-- A request, with what the key held when it was made. -/
  | requested (source : AuditSource) (held : Option String)
  | started
  | cleared
  deriving DecidableEq

structure AuditDesk where
  world : World := {}
  /-- The drift requests that have read the key and not written it yet. -/
  drifting : List ℕ := []
  stage : AuditStage := .idle
  /-- Newest first; no step reads it. -/
  history : List AuditEvent := []

/-- A step of some thread. -/
inductive AuditOp where
  | operator (env : Env)
  | driftRead (call : ℕ)
  | driftWrite (env : Env) (call : ℕ)
  | begin (env : Env)
  | work (env : Env) (budget : ℕ)
  | clear (env : Env)
  | finish

namespace AuditDesk

/-- The write of a request. -/
def request (d : AuditDesk) (env : Env) (r : Res) (source : AuditSource) : AuditDesk :=
  { d with
    world := { d.world with tick := d.world.tick + 1 }.ask r source (env.now d.world.tick)
    history := .requested source (d.world.auditSource r) :: d.history }

/-- A drift request reads the key; where an operator has asked, that is all it does. -/
def driftRead (d : AuditDesk) (r : Res) (call : ℕ) : AuditDesk :=
  if d.world.operatorAsked r then
    { d with history := .requested .drift none :: d.history }
  else { d with drifting := call :: d.drifting }

def driftWrite (d : AuditDesk) (env : Env) (r : Res) (call : ℕ) : AuditDesk :=
  if call ∈ d.drifting then
    { d.request env r .drift with drifting := d.drifting.erase call }
  else d

/-- A call takes up the round in progress, or starts one. -/
def begin (d : AuditDesk) (env : Env) (r : Res) : AuditDesk :=
  match d.stage with
  | .idle =>
    match d.world.auditRound r with
    | some round => { d with stage := .working round }
    | none =>
      match (startAudit env r).run d.world with
      | .ok round w => { d with
          world := w
          stage := .working round
          history := .started :: d.history }
      | .error _ w => { d with world := w }
  | _ => d

def work (d : AuditDesk) (env : Env) (r : Res) (budget : ℕ) : AuditDesk :=
  match d.stage with
  | .working round =>
    match (auditWork env r budget round).run d.world with
    | .ok outcome w => { d with
        world := w
        stage := if outcome.done then .finishing else .idle }
    | .error _ w => { d with world := w, stage := .idle }
  | _ => d

def clear (d : AuditDesk) (env : Env) (r : Res) : AuditDesk :=
  match d.stage with
  | .finishing => { d with
      world := d.world.after (clearAudit env r)
      stage := .cleared
      history := .cleared :: d.history }
  | _ => d

def finish (d : AuditDesk) (r : Res) : AuditDesk :=
  match d.stage with
  | .cleared => { d with world := d.world.endRound r, stage := .idle }
  | _ => d

def apply (r : Res) (d : AuditDesk) : AuditOp → AuditDesk
  | .operator env => d.request env r .operator
  | .driftRead call => d.driftRead r call
  | .driftWrite env call => d.driftWrite env r call
  | .begin env => d.begin env r
  | .work env budget => d.work env r budget
  | .clear env => d.clear env r
  | .finish => d.finish r

end AuditDesk

end PcoMirror
