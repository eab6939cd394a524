import PcoMirror.Model.Ingest.Audit
import PcoMirror.Model.Ingest.Sweep

/-! The hydration queue: records asked for a re-read, and the drain that re-reads them one
at a time while others go on asking. -/

namespace PcoMirror

open Program

/-! ## Queueing -/

/-- `includes or list(r.includes)` -/
def askedIncludes (r : Res) (includes : List String) : List String :=
  if includes = [] then r.info.includes else includes

/-- Inserts a task; on a key already queued the earlier time wins, and what was asked for
first stays. -/
def World.enqueue (w : World) (r : Res) (id reason : String) (includes : List String)
    (due : String) : World :=
  let task := match (w.hydration r).lookup id with
    | none => ⟨includes, reason, due⟩
    | some held => { held with
        reason := reason
        notBefore := if due < held.notBefore then due else held.notBefore }
  { w with hydration := fun u =>
      if u = r then (w.hydration u).insert id task else w.hydration u }

/-- `enqueue_hydration`, with includes and a delay of its own. -/
def enqueueHydrationWith (env : Env) (r : Res) (id reason : String) (includes : List String)
    (delayS : ℕ) : Proc Unit := do
  let now ← nowIso env
  modify fun w => w.enqueue r id reason (askedIncludes r includes)
    ((Iso8601.plusSeconds now delayS).getD now)

theorem enqueueHydration_eq (env : Env) (r : Res) (id reason : String) :
    enqueueHydration env r id reason = enqueueHydrationWith env r id reason [] 0 := rfl

/-- `DELETE FROM hydration_task` by key, whatever the row holds by then. -/
def World.dequeue (w : World) (r : Res) (id : String) : World :=
  { w with hydration := fun u => if u = r then (w.hydration u).erase id else w.hydration u }

/-! ## Hydrating -/

/-- Stores the record of an answer: a person by the router, any other by confirmation. -/
def storeHydrated (env : Env) (r : Res) (id : String) (status : ℕ) (record : Json) : Proc Unit :=
  if r = .person then do
    logEntry (.handed status record)
    routeOne env .reconcile none [] record
  else confirmLiveOne env r id record .reconcile

/-- What `hydrate` does with the answer to its request. -/
def hydrateAnswer (env : Env) (r : Res) (id : String) (asked : List String) (resp : Response) :
    Proc Unit :=
  if resp.status = 404 then tombstoneOne env r id none .auditAbsent
  else if resp.ok then do
    whenSome (← ofPy (recordOf resp)) fun record => do
      storeHydrated env r id resp.status record
      let included ← ofPy (resp.document >>= pageIncluded)
      let owner : Json := .obj [("type", .str r.info.type), ("id", .str id)]
      forEach (routeOne env .reconcile (some owner) []) included
      if r = .person then includeDiff env included asked record
  -- Any other status leaves hydrate as if it had done its work.
  else pure ()

/-- `hydrate` -/
def hydrate (env : Env) (r : Res) (id : String) (includes : List String) : Proc Unit := do
  let resp ← clientGet env (.record r id includes)
  hydrateAnswer env r id includes resp

/-- A row the drain has selected. -/
structure DueTask where
  r : Res
  id : String
  includes : List String
  notBefore : String
  deriving DecidableEq

/-- Every row of `hydration_task`. -/
def World.tasks (w : World) : List DueTask :=
  Res.all.flatMap fun r => (w.hydration r).entries.map fun e =>
    ⟨r, e.1, e.2.includes, e.2.notBefore⟩

/-- The rows due at a time, the earliest first. -/
def World.dueTasks (w : World) (now : String) (limit : ℕ) : List DueTask :=
  ((w.tasks.filter (·.notBefore ≤ now)).insertionSort (·.notBefore ≤ ·.notBefore)).take limit

/-- Re-reads one selected row, and drops its task. -/
def drainTask (env : Env) (task : DueTask) : Proc Unit := do
  hydrate env task.r task.id task.includes
  modify (·.dequeue task.r task.id)

/-- `drain_hydration` -/
def drainHydration (env : Env) (limit : ℕ) : Proc ℕ := do
  let now ← nowIso env
  let rows := (← get).dueTasks now limit
  forEach (drainTask env) rows
  return rows.length

/-! ## Interleavings -/

/-- Where a drain stands. -/
inductive Drain where
  | idle
  | next (rows : List DueTask)
  /-- The request for a task is on its way. -/
  | asking (task : DueTask) (rows : List DueTask)
  /-- `hydrate` has returned, and the delete follows. -/
  | hydrated (task : DueTask) (rows : List DueTask)
  deriving DecidableEq

/-- What happens to a key of the queue, for the record. -/
inductive QueueEvent where
  | requested (r : Res) (id : String) (includes : List String)
  | sent (r : Res) (id : String) (includes : List String)
  /-- An answer came, and was handled with these entries. -/
  | answered (r : Res) (id : String) (resp : Response) (entries : List Entry)
  | removed (r : Res) (id : String)

structure HydrationQueue where
  world : World := {}
  drain : Drain := .idle
  /-- Newest first; no step reads it. -/
  history : List QueueEvent := []

/-- A step of some thread: an enqueue from anywhere, or the drain's next step. -/
inductive QueueOp where
  | enqueue (env : Env) (r : Res) (id reason : String) (includes : List String) (delayS : ℕ)
  | select (env : Env) (limit : ℕ)
  | send
  | answer (env : Env)
  | delete
  /-- The drain's process ends. -/
  | stop

namespace HydrationQueue

/-- The drain selects the rows that are due. -/
def select (q : HydrationQueue) (env : Env) (limit : ℕ) : HydrationQueue :=
  match q.drain with
  | .idle => { q with
      world := { q.world with tick := q.world.tick + 1 }
      drain := .next (q.world.dueTasks (env.now q.world.tick) limit) }
  | _ => q

def send (q : HydrationQueue) : HydrationQueue :=
  match q.drain with
  | .next (task :: rows) => { q with
      drain := .asking task rows
      history := .sent task.r task.id task.includes :: q.history }
  | .next [] => { q with drain := .idle }
  | _ => q

/-- The answer arrives and is handled; an exception ends the drain. -/
def answer (q : HydrationQueue) (env : Env) : HydrationQueue :=
  match q.drain with
  | .asking task rows =>
    let request := Request.record task.r task.id task.includes
    let asked : World := { q.world with
      tick := q.world.tick + 1
      log := .exchange request (env.respond q.world.tick request) :: q.world.log }
    match env.respond q.world.tick request with
    | .error _ => { q with world := asked, drain := .idle }
    | .ok resp =>
      match (hydrateAnswer env task.r task.id task.includes resp).run asked with
      | .ok _ w => { q with
          world := w
          drain := .hydrated task rows
          history := .answered task.r task.id resp (w.log.take (w.log.length - asked.log.length))
            :: q.history }
      | .error _ w => { q with world := w, drain := .idle }
  | _ => q

def delete (q : HydrationQueue) : HydrationQueue :=
  match q.drain with
  | .hydrated task rows => { q with
      world := q.world.dequeue task.r task.id
      drain := .next rows
      history := if ((q.world.hydration task.r).lookup task.id).isSome then
          .removed task.r task.id :: q.history else q.history }
  | _ => q

def apply (q : HydrationQueue) : QueueOp → HydrationQueue
  | .enqueue env r id reason includes delayS => { q with
      world := q.world.after (enqueueHydrationWith env r id reason includes delayS)
      history := .requested r id (askedIncludes r includes) :: q.history }
  | .select env limit => q.select env limit
  | .send => q.send
  | .answer env => q.answer env
  | .delete => q.delete
  | .stop => { q with drain := .idle }

end HydrationQueue

end PcoMirror
