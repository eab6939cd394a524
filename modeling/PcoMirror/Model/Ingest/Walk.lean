import PcoMirror.Model.World

/-! Nested walks: child collections PCO serves one parent at a time, and the record
of which parents' collections are known. -/

namespace PcoMirror

open Program

/-! ## One parent -/

/-- `parent_walked`: a parent without a record has an unknown child collection. -/
def World.parentWalked (w : World) (r : Res) (parentId : String) : Bool :=
  ((w.walks r).lookup parentId).isSome

/-- `_tombstone_if_absent`: buries a record only on PCO's `404` about the record itself. -/
def tombstoneIfAbsent (env : Env) (r : Res) (id : String) : Proc Unit := do
  match ← attempt (clientGet env (.record r id [])) with
  | .ok resp => if resp.status = 404 then tombstoneOne env r id none .auditAbsent
  | .error _ => pure ()

/-- What a walk carries from page to page. -/
structure WalkPass where
  offset : ℕ
  seen : List Json

/-- One page of a parent's collection; the walk leaves with the ids seen, or with
nothing where the collection answered `404`. -/
def walkPage (env : Env) (r parent : Res) (parentId : String) (source : Source) (p : WalkPass) :
    Proc (Pass WalkPass (Option (List Json))) := do
  let resp ← clientGet env (.nested parent parentId r p.offset)
  if resp.status = 404 then
    tombstoneIfAbsent env parent parentId
    return .leave none
  if !resp.ok then
    raise (.ingestError ("walk " ++ parent.info.endpoint ++ "/" ++ parentId ++ r.info.parentPath ++
      " failed: HTTP " ++ toString resp.status))
  let body ← ofPy resp.document
  let data ← ofPy (dataOf body)
  let _ ← routePage env resp.status body source
  let items ← ofPy (pyItems data)
  let ids ← ofPy (items.mapM itemId)
  if items.length < 100 then return .leave (some (p.seen ++ ids))
  return .again ⟨p.offset + 100, p.seen ++ ids⟩

/-- The live rows that name the parent. -/
def Db.childrenOf (db : Db) (r : Res) (parentId : String) : List String :=
  db.select r fun _ row =>
    row.live && (r.info.parentFk.bind fun fk => r.column fk row.raw) == some parentId

def walkOne (env : Env) (r parent : Res) (parentId : String) (source : Source) (fuel : ℕ) :
    Proc ℕ := do
  match ← whileTrue .stopped (walkPage env r parent parentId source) fuel ⟨0, []⟩ with
  | none => return 0
  | some seen =>
    -- What the parent still has in the mirror and PCO did not return is gone.
    let stale := (← get).db.childrenOf r parentId
    forEach (fun id => tombstoneOne env r id none .destroyed)
      (stale.filter fun id => !seen.contains (.str id))
    return seen.dedup.length

/-- `walk_parent`: walks one parent and records that it was walked. -/
def walkParent (env : Env) (r parent : Res) (parentId : String) (source : Source) (fuel : ℕ) :
    Proc ℕ := do
  let n ← walkOne env r parent parentId source fuel
  let now ← nowIso env
  modify fun w => { w with
    walks := fun u => if u = r then (w.walks u).insert parentId ⟨now, n⟩ else w.walks u }
  return n

/-- `ensure_parent_walked`: fills a parent's child collection if it was never fetched. -/
def ensureParentWalked (env : Env) (r parent : Res) (parentId : String) (fuel : ℕ) : Proc Unit := do
  if (← get).parentWalked r parentId then return
  let _ ← walkParent env r parent parentId .passthrough fuel

/-! ## Rounds over every parent -/

def liveCount (r : Res) : Proc ℕ :=
  return ((← get).db.select r fun _ row => row.live).length

/-- Walks parents in turn; a parent that fails is noted and the rest still walked. -/
def walkEach (env : Env) (r parent : Res) (source : Source) (fuel applied : ℕ)
    (failed : List String) : List String → Proc (ℕ × List String)
  | [] => return (applied, failed)
  | parentId :: rest => do
    match ← attempt (walkParent env r parent parentId source fuel) with
    | .ok n => walkEach env r parent source fuel (applied + n) failed rest
    | .error e =>
      walkEach env r parent source fuel applied (failed ++ [parentId ++ ": " ++ e.text]) rest

/-- The first failure of a walk, cut to fit a message. -/
def firstFailure (failed : List String) : String :=
  Sql.left (failed.headD "") 120

/-- `nested_walk`: the full walk of a child collection. -/
def nestedWalk (env : Env) (r parent : Res) (source : Source) (fuel : ℕ) : Proc ℕ := do
  let parents := Sql.sortIds ((← get).db.select parent fun _ row => row.live)
  let (applied, failed) ← walkEach env r parent source fuel 0 [] parents
  let share := toString failed.length ++ "/" ++ toString parents.length ++ " parents failed"
  if !failed.isEmpty then
    setState r fun st => { st with
      consecutiveErrors := failed.length
      lastError := some (share ++ ": " ++ firstFailure failed) }
    raise (.ingestError ("walk of " ++ r.info.name ++ " incomplete: " ++ share))
  let now ← nowIso env
  let count ← liveCount r
  setState r fun st => { st with
    lastSweepCompletedAt := some now
    consecutiveErrors := 0
    lastError := none
    mirrorCountLast := some count }
  return applied

/-- The live parents not walked since a round began, oldest walk first. -/
def World.dueParents (w : World) (r parent : Res) (started : String) (budget : ℕ) : List String :=
  let due := w.db.select parent fun id row =>
    row.live && ((w.walks r).lookup id).all fun walk => walk.walkedAt < started
  let walkedAt (id : String) : Option String := ((w.walks r).lookup id).map (·.walkedAt)
  let earlier (a b : String) : Bool :=
    match walkedAt a, walkedAt b with
    | none, none => Sql.castInteger a ≤ Sql.castInteger b
    | none, some _ => true
    | some _, none => false
    | some x, some y => x < y || (x = y && Sql.castInteger a ≤ Sql.castInteger b)
  (due.insertionSort fun a b => earlier a b).take budget

structure WalkOutcome where
  done : Bool
  walked : ℕ
  deriving DecidableEq

/-- `walk_round_step`: one bounded unit of a walk of every live parent. -/
def walkRoundStep (env : Env) (r parent : Res) (budget fuel : ℕ) : Proc WalkOutcome := do
  let round ← match (← get).walkRound r with
    | some round => pure round
    | none => do
      let round : WalkRound := ⟨← nowIso env, 0⟩
      modify fun w => { w with walkRound := fun u => if u = r then some round else w.walkRound u }
      setState r fun st => { st with lastSweepStartedAt := some round.started }
      pure round
  let due := (← get).dueParents r parent round.started budget
  if due.isEmpty then
    let now ← nowIso env
    let count ← liveCount r
    setState r fun st => { st with
      lastSweepCompletedAt := some now
      consecutiveErrors := 0
      lastError := none
      mirrorCountLast := some count }
    modify fun w => { w with walkRound := fun u => if u = r then none else w.walkRound u }
    return ⟨true, round.walked⟩
  let (_, failed) ← walkEach env r parent .reconcile fuel 0 [] due
  let walked := round.walked + (due.length - failed.length)
  modify fun w => { w with
    walkRound := fun u => if u = r then some { round with walked := walked } else w.walkRound u }
  if failed.length = due.length then
    raise (.ingestError ("walk step of " ++ r.info.name ++ ": all " ++ toString failed.length ++
      " parents failed: " ++ firstFailure failed))
  return ⟨false, walked⟩

end PcoMirror
