import PcoMirror.Model.World

/-! The delete audit: a round that lists every id, confirms the missing ones one by one
and restores the unknown ones, in units of a few requests each. -/

namespace PcoMirror

open Program

structure AuditOutcome where
  done : Bool
  tombstoned : ℕ
  restored : ℕ
  deriving DecidableEq

/-- `AUDIT_RESTORE_LIMIT` -/
def auditRestoreLimit : ℕ :=
  500

/-! ## The persisted round -/

/-- `_save_audit_round` -/
def saveAuditRound (r : Res) (round : AuditRound) : Proc Unit :=
  modify fun w => { w with
    auditRound := fun u => if u = r then some round else w.auditRound u }

def setScratch (r : Res) (sets : ScratchKind → List String) : Proc Unit :=
  modify fun w => { w with scratch := fun u => if u = r then sets else w.scratch u }

/-- `INSERT OR IGNORE INTO audit_scratch`. -/
def addScratch (r : Res) (kind : ScratchKind) (id : String) : Proc Unit :=
  modify fun w => { w with
    scratch := fun u => if u = r then fun k =>
        if k = kind ∧ id ∉ w.scratch u k then w.scratch u k ++ [id] else w.scratch u k
      else w.scratch u }

def dropScratch (r : Res) (kind : ScratchKind) (gone : List String) : Proc Unit :=
  modify fun w => { w with
    scratch := fun u => if u = r then fun k =>
        if k = kind then (w.scratch u k).filter (· ∉ gone) else w.scratch u k
      else w.scratch u }

/-- The next id of a working set. -/
def nextScratch (r : Res) (kind : ScratchKind) : Proc (Option String) :=
  return (Sql.sortIds ((← get).scratch r kind)).head?

/-- The start of a round: what is live and what is known is noted before anything is
listed, so that a record created during the round is no candidate. -/
def startAudit (env : Env) (r : Res) : Proc AuditRound := do
  let now ← nowIso env
  setState r fun st => { st with lastAuditStartedAt := some now }
  let w ← get
  setScratch r fun
    | .candidate => w.db.select r fun _ row => row.live
    | .known => w.db.select r fun _ _ => true
    | .live => []
  let round : AuditRound := {}
  saveAuditRound r round
  return round

/-! ## Listing -/

/-- The request for the page a round stands at. -/
def AuditRound.query (round : AuditRound) : Query where
  order := some "created_at"
  fields := some "created_at"
  gte := if round.mode = some .keyset ∧ round.cursor ≠ "" then some ("created_at", round.cursor)
    else none
  offset := if round.mode = some .keyset then round.offset.filter (· ≠ 0)
    else some (round.offset.getD 0)

/-- Where a page with this last creation time leaves a round; `none` where the page lies
behind the cursor, so that the endpoint does not honour the filter. -/
def AuditRound.turn (round : AuditRound) (length : ℕ) (last : Json) :
    Except PyError (Option AuditRound) := do
  if round.mode = some .keyset then
    let pageMax ← pyText last
    if round.cursor ≠ "" ∧ pageMax < round.cursor then return none
    if length = 100 ∧ pageMax = round.cursor then
      return some { round with offset := some (round.offset.getD 0 + length) }
    return some { round with cursor := pageMax, offset := some 0 }
  return some { round with offset := some (round.offset.getD 0 + length) }

/-- `d["id"]`, as it is stored in a working set. -/
def scratchId (d : Json) : Except PyError String :=
  pyItem d "id" >>= fun _ => idOf d

/-- Where a page leaves a round; without records it leaves it as it is. -/
def turnPage (round : AuditRound) (items : List Json) : Except PyError (Option AuditRound) :=
  match items.getLast? with
  | none => .ok (some round)
  | some d => do
    round.turn items.length (← pyItem (← pyItem d "attributes") "created_at")

/-- What a completed listing leaves to do: the candidates PCO does not list, and the
listed ids that are not known. -/
def settleScratch (r : Res) : Proc Unit := do
  dropScratch r .candidate ((← get).scratch r .live)
  dropScratch r .live ((← get).scratch r .known)

/-- One page of the listing. -/
def enumeratePage (env : Env) (r : Res) (round : AuditRound) :
    Proc (Pass AuditRound AuditRound) := do
  let resp ← clientGet env (.collection r round.query)
  let body ← ofPy resp.document
  let items ← ofPy (pyItems (← ofPy (dataOf body)))
  forEach (fun d => do addScratch r .live (← ofPy (scratchId d))) items
  match ← ofPy (turnPage round items) with
  | none =>
    let round := { round with mode := some .offset, cursor := "", offset := some 0 }
    saveAuditRound r round
    return .again round
  | some round =>
    if items.length < 100 then
      settleScratch r
      return .leave { round with phase := .confirm }
    saveAuditRound r round
    return .again round

/-- Lists with what is left of a budget; returns what is left after. -/
def enumerate (env : Env) (r : Res) : ℕ → AuditRound → Proc (ℕ × AuditRound)
  | 0, round => return (0, round)
  | left + 1, round => do
    match ← enumeratePage env r round with
    | .again round => enumerate env r left round
    | .leave round => return (left, round)

/-! ## Confirming -/

/-- `(resp.json() or {}).get("data")`, where it is truthy. -/
def recordOf (resp : Response) : Except PyError (Option Json) := do
  return (← pyGet (← resp.document) "data").filter Json.truthy

/-- Asks for one missing record: only a `404` tombstones it. -/
def confirmCandidate (env : Env) (r : Res) (id : String) (round : AuditRound) :
    Proc AuditRound := do
  let resp ← clientGet env (.record r id [])
  if resp.status = 404 then
    tombstoneOne env r id none .auditAbsent
    return { round with tombstoned := round.tombstoned + 1 }
  if resp.ok then
    whenSome (← ofPy (recordOf resp)) fun record => confirmLiveOne env r id record .reconcile
  return round

def confirm (env : Env) (r : Res) : ℕ → AuditRound → Proc (ℕ × AuditRound)
  | 0, round => return (0, round)
  | left + 1, round => do
    match ← nextScratch r .candidate with
    | none => return (left + 1, { round with phase := .restore })
    | some id =>
      let round ← confirmCandidate env r id round
      dropScratch r .candidate [id]
      saveAuditRound r round
      confirm env r left round

/-! ## Restoring -/

/-- `_restore_one`: fetches a record with its includes; a failure is left to the next round. -/
def restoreOne (env : Env) (r : Res) (id : String) : Proc Bool := do
  let resp ← clientGet env (.record r id r.info.includes)
  if !resp.ok then return false
  match ← ofPy (recordOf resp) with
  | none => return false
  | some record =>
    let included ← ofPy (pageIncluded (← ofPy resp.document))
    let _ ← routePage env resp.status
      (.obj [("data", .arr []), ("included", .arr included)]) .reconcile
    confirmLiveOne env r id record .reconcile
    return true

/-- The end of a round, which also answers a request for one. -/
def finishAudit (env : Env) (r : Res) : Proc Unit := do
  setScratch r fun _ => []
  let now ← nowIso env
  setState r fun st => { st with lastAuditCompletedAt := some now }
  modify fun w => { w with
    auditRequest := fun u => if u = r then none else w.auditRequest u
    auditRound := fun u => if u = r then none else w.auditRound u }

def restore (env : Env) (r : Res) : ℕ → AuditRound → Proc AuditOutcome
  | 0, round => return ⟨false, round.tombstoned, round.restored⟩
  | left + 1, round => do
    match ← nextScratch r .live with
    | some id =>
      if round.restored < auditRestoreLimit then
        let restored ← restoreOne env r id
        let round := { round with restored := round.restored + if restored then 1 else 0 }
        dropScratch r .live [id]
        saveAuditRound r round
        restore env r left round
      else
        finishAudit env r
        return ⟨true, round.tombstoned, round.restored⟩
    | none =>
      finishAudit env r
      return ⟨true, round.tombstoned, round.restored⟩

/-! ## Units of a round -/

/-- `delete_audit_step`: one bounded unit of a round. -/
def deleteAuditStep (env : Env) (r : Res) (budget : ℕ) : Proc AuditOutcome := do
  let round ← match (← get).auditRound r with
    | some round => pure round
    | none => startAudit env r
  let (left, round) ← if round.phase = .enumerate then do
      let mode := round.mode.getD (if r.info.supportsCatFilter then .keyset else .offset)
      let (left, round) ← enumerate env r budget { round with mode := some mode }
      saveAuditRound r round
      pure (left, round)
    else pure (budget, round)
  let (left, round) ← if round.phase = .confirm then do
      let (left, round) ← confirm env r left round
      saveAuditRound r round
      pure (left, round)
    else pure (left, round)
  if round.phase = .restore then restore env r left round
  else return ⟨false, round.tombstoned, round.restored⟩

/-- `delete_audit`: a round run to its end. -/
def deleteAudit (env : Env) (r : Res) (fuel : ℕ) : Proc (ℕ × ℕ) :=
  whileTrue .stopped (fun _ => do
    let outcome ← deleteAuditStep env r 10000
    if outcome.done then return .leave (outcome.tombstoned, outcome.restored)
    return .again ()) fuel ()

end PcoMirror
