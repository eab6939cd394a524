import PcoMirror.Model.Writer

/-! The process around the tables: what PCO answers, the sync state, the work
queues, and the programs that run over them. -/

namespace PcoMirror

open Program

/-! ## Exchanges with PCO -/

/-- The parameters of a collection request; every page asks for 100 records. -/
structure Query where
  order : Option String := none
  /-- `where[field][gte]` -/
  gte : Option (String × String) := none
  /-- `where[field][lt]` -/
  lt : Option (String × String) := none
  offset : Option ℕ := none
  includes : List String := []
  /-- `fields[Type]` -/
  fields : Option String := none
  deriving DecidableEq

inductive Request where
  | collection (r : Res) (query : Query)
  /-- The child collection of one parent, under the parent's path. -/
  | nested (parent : Res) (parentId : String) (child : Res) (offset : ℕ)
  | record (r : Res) (id : String) (includes : List String)
  deriving DecidableEq

inductive Body where
  | empty
  | invalid
  | json (document : Json)
  deriving DecidableEq

structure Response where
  status : ℕ
  body : Body
  deriving DecidableEq

def Response.ok (resp : Response) : Bool :=
  200 ≤ resp.status && resp.status < 300

/-- `resp.json() or {}`. -/
def Response.document (resp : Response) : Except PyError Json :=
  match resp.body with
  | .empty => .ok (.obj [])
  | .invalid => .error .jsonDecodeError
  | .json j => .ok (orEmptyObj (some j))

/-- What the process cannot choose: PCO's answer to each request (after the
client's own retries), the clock, and the pinned API version. -/
structure Env where
  respond : ℕ → Request → Except PyError Response
  now : ℕ → String
  apiVersion : String

/-! ## State -/

/-- A row of `mirror_sync_state`. -/
structure SyncState where
  phase : String := "idle"
  backfillCursorTs : Option String := none
  backfillSeenIds : List Json := []
  backfillCompletedAt : Option String := none
  reconcileWatermark : String := ""
  reconcileCursor : String := ""
  lastSweepStartedAt : Option String := none
  lastSweepCompletedAt : Option String := none
  mergerWatermark : String := ""
  lastAuditStartedAt : Option String := none
  lastAuditCompletedAt : Option String := none
  mirrorCountLast : Option ℕ := none
  consecutiveErrors : ℕ := 0
  lastError : Option String := none
  /-- `none` stands for the default, the time the row was first inserted. -/
  nextRunAt : Option String := none
  deriving DecidableEq

/-- A row of `nested_walk_state`: this parent's collection has been walked. -/
structure WalkState where
  walkedAt : String
  rowCount : ℕ
  deriving DecidableEq

structure HydrationTask where
  includes : List String
  reason : String
  notBefore : String
  deriving DecidableEq

/-- A row of `webhook_event`, less the columns no step reads. -/
structure WebhookEvent where
  eventName : String
  resourceType : String
  action : String
  payload : Body
  status : String := "pending"
  processAttempts : ℕ := 0
  nextAttemptAt : Option String := none
  receivedAt : String := ""
  processedAt : Option String := none
  lastError : Option String := none
  deriving DecidableEq

/-- A row of `webhook_subscription`, less the columns only the settings page reads. -/
structure Subscription where
  id : String
  eventName : String
  urlToken : String
  secret : String
  active : Bool := true
  lastEventAt : Option String := none

/-- A row of `webhook_delivery`. -/
structure Delivery where
  subscriptionId : String
  signature : String
  rawBody : String
  attempt : Option String

/-- The persisted state of a walk round. -/
structure WalkRound where
  started : String
  walked : ℕ
  deriving DecidableEq

inductive AuditPhase where
  | enumerate | confirm | restore
  deriving DecidableEq

inductive AuditMode where
  | keyset | offset
  deriving DecidableEq

/-- The persisted state of an audit round. -/
structure AuditRound where
  phase : AuditPhase := .enumerate
  mode : Option AuditMode := none
  cursor : String := ""
  offset : Option ℕ := none
  tombstoned : ℕ := 0
  restored : ℕ := 0
  deriving DecidableEq

/-- The working sets of an audit, rows of `audit_scratch`. -/
inductive ScratchKind where
  | candidate | known | live
  deriving DecidableEq

/-- What a run leaves in the record of its exchanges and writes. -/
inductive Entry where
  | exchange (request : Request) (answer : Except PyError Response)
  /-- A primary resource of an answer with this status went to the router. -/
  | handed (status : ℕ) (resource : Json)
  | tombstoned (t : Res) (id : String) (reason : Reason)
  | confirmed (t : Res) (id : String)

structure World where
  db : Db := .empty
  sync : Res → SyncState := fun _ => {}
  walks : Res → Sql.Table WalkState := fun _ => ∅
  hydration : Res → Sql.Table HydrationTask := fun _ => ∅
  subscriptions : List Subscription := []
  deliveries : Sql.Table Delivery := ∅
  inbox : Sql.Table WebhookEvent := ∅
  /-- The rows of `webhook_event` whose id is NULL: no statement that asks for an id finds them. -/
  nameless : List WebhookEvent := []
  deadLetters : Sql.Table WebhookEvent := ∅
  namelessDead : List WebhookEvent := []
  walkRound : Res → Option WalkRound := fun _ => none
  auditRound : Res → Option AuditRound := fun _ => none
  auditRequest : Res → Option String := fun _ => none
  scratch : Res → ScratchKind → List String := fun _ _ => []
  organizationId : Option String := none
  /-- Counts the requests and the readings of the clock. -/
  tick : ℕ := 0
  /-- Newest first; no step reads it. -/
  log : List Entry := []

/-- The requests made so far and what each was answered, newest first. -/
def World.exchanges (w : World) : List (Request × Except PyError Response) :=
  w.log.filterMap fun
    | .exchange request answer => some (request, answer)
    | _ => none

/-! ## Programs -/

/-- A program ends on an exception it raised, or where the process was stopped. -/
inductive Halt where
  | raised (e : PyError)
  | stopped
  deriving DecidableEq

abbrev Proc := EStateM Halt World

def raise {α : Type} (e : PyError) : Proc α :=
  throw (.raised e)

/-- `try … except Exception`. -/
def catching {α : Type} (m : Proc α) (handler : PyError → Proc α) : Proc α :=
  tryCatch m fun
    | .raised e => handler e
    | .stopped => throw .stopped

/-- Runs a program for its result or the exception it raised. -/
def attempt {α : Type} (m : Proc α) : Proc (Except PyError α) :=
  catching (Except.ok <$> m) fun e => pure (.error e)

def ofPy {α : Type} (e : Except PyError α) : Proc α :=
  match e with
  | .ok a => pure a
  | .error e => raise e

/-- Runs a program and keeps the state it ends in, however it ends. -/
def World.after {α : Type} (w : World) (m : Proc α) : World :=
  match m.run w with
  | .ok _ w' => w'
  | .error _ w' => w'

/-- Statements on the mirrored tables. -/
def onDb (m : DbM Unit) : Proc Unit := do
  let w ← get
  match m.run w.db with
  | .ok _ db => set { w with db := db }
  | .error e db =>
    set { w with db := db }
    raise e

def logEntry (entry : Entry) : Proc Unit :=
  modify fun w => { w with log := entry :: w.log }

def nowIso (env : Env) : Proc String := do
  let w ← get
  set { w with tick := w.tick + 1 }
  return env.now w.tick

def clientGet (env : Env) (request : Request) : Proc Response := do
  let w ← get
  let answer := env.respond w.tick request
  set { w with tick := w.tick + 1, log := .exchange request answer :: w.log }
  ofPy answer

/-- `_set`: assigns columns of a resource's sync state. -/
def setState (r : Res) (f : SyncState → SyncState) : Proc Unit :=
  modify fun w => { w with sync := fun u => if u = r then f (w.sync u) else w.sync u }

def state (r : Res) : Proc SyncState :=
  return (← get).sync r

/-! ## The writer's calls -/

def stampNow (env : Env) (source : Source) : Proc Stamp :=
  return ⟨source, env.apiVersion, ← nowIso env⟩

def routeOne (env : Env) (source : Source) (ownerHint : Option Json) (synthesized : List String)
    (resource : Json) : Proc Unit := do
  let w ← stampNow env source
  onDb (route resource w ownerHint synthesized)

/-- Applies a document: `included[]` first, so that the primary copy lands last. -/
def routePage (env : Env) (status : ℕ) (body : Json) (source : Source)
    (synthesized : List String := []) (dataOwnerHint : Option Json := none) : Proc ℕ := do
  let items ← ofPy (pageData body)
  modify fun w => { w with log := items.map (.handed status) ++ w.log }
  forEach (routeOne env source none synthesized) (← ofPy (pageIncluded body))
  forEach (routeOne env source dataOwnerHint synthesized) items
  return items.length

def tombstoneOne (env : Env) (t : Res) (id : String) (evidence : Option Json) (reason : Reason)
    (mergedInto : Option String := none) : Proc Unit := do
  let now ← nowIso env
  logEntry (.tombstoned t id reason)
  modify fun w => { w with db := tombstone t id evidence reason mergedInto now w.db }

def confirmLiveOne (env : Env) (t : Res) (id : String) (raw : Json) (source : Source) :
    Proc Unit := do
  let stamp ← stampNow env source
  logEntry (.confirmed t id)
  modify fun w => { w with db := confirmLive t id raw stamp w.db }

/-- Queues one record for a re-read; on a collision the earlier time stays. -/
def enqueueHydration (env : Env) (r : Res) (id reason : String) : Proc Unit := do
  let now ← nowIso env
  modify fun w =>
    let task := match (w.hydration r).lookup id with
      | none => ⟨r.info.includes, reason, now⟩
      | some held => { held with
          reason := reason
          notBefore := if now < held.notBefore then now else held.notBefore }
    { w with hydration := fun u =>
        if u = r then (w.hydration u).insert id task else w.hydration u }

/-! ## Reading a page -/

/-- What Python iterates over in a decoded value; a number or null has no items. -/
def pyItems (j : Json) : Except PyError (List Json) :=
  match j with
  | .arr items => .ok items
  | .obj members => .ok (members.map (.str ·.1))
  | .str s => .ok (s.toList.map fun c => .str c.toString)
  | _ => .error .typeError

/-- `body.get("data", [])`. -/
def dataOf (body : Json) : Except PyError Json :=
  return (← pyGet body "data").getD (.arr [])

/-- `d[key]`. -/
def pyItem (d : Json) (key : String) : Except PyError Json :=
  match d with
  | .obj members =>
    match members.lookup key with
    | some v => .ok v
    | none => .error (.keyError key)
  | _ => .error .typeError

/-- `d["id"]`, as an element of a set. -/
def itemId (d : Json) : Except PyError Json := do
  match ← pyItem d "id" with
  | .arr _ | .obj _ => throw .typeError
  | v => return v

/-- A value used as text. -/
def pyText : Json → Except PyError String
  | .str s => .ok s
  | _ => .error .typeError

/-- `d["attributes"][key]`, where it is text. -/
def itemTime (key : String) (d : Json) : Except PyError String := do
  match ← pyItem (← pyItem d "attributes") key with
  | .str s => return s
  | _ => throw .typeError

end PcoMirror
