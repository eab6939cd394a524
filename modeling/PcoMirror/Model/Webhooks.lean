import PcoMirror.Lib.Iso8601
import PcoMirror.Model.Ingest.Merger

/-! The webhook inbox: applying one captured event. -/

namespace PcoMirror

open Program

/-- Pending re-reads above which a resource is deferred to its sweep. -/
def burstThreshold : ℕ := 200

/-- `_unwrap`: the resource inside a payload that is a whole document. -/
def unwrap (payload : Json) : Except PyError Json := do
  match ← pyGet payload "data" with
  | some (.obj members) => return .obj members
  | _ => return payload

/-- `UPDATE webhook_event … WHERE event_id=?`; NULL is equal to no id. -/
def setEvent (eventId : Option String) (f : WebhookEvent → WebhookEvent) : Proc Unit :=
  modify fun w => { w with
    inbox := w.inbox.update fun id ev => if some id = eventId then f ev else ev }

def ignoreEvent (env : Env) (eventId : Option String) (why : String) : Proc Unit := do
  let now ← nowIso env
  setEvent eventId fun ev =>
    { ev with status := "ignored", processedAt := some now, lastError := some why }

def deadEvent (eventId : Option String) (ev : WebhookEvent) (error : String) : Proc Unit := do
  let dead := { ev with lastError := some error, processAttempts := ev.processAttempts + 1 }
  modify fun w => match eventId with
    | some id => { w with deadLetters := w.deadLetters.insert id dead }
    | none => { w with namelessDead := w.namelessDead ++ [dead] }
  setEvent eventId fun ev => { ev with status := "dead", lastError := some error }

/-- `_retry_or_dead`: the eighth failure buries the event, an earlier one delays it. -/
def retryOrDead (env : Env) (eventId : Option String) (ev : WebhookEvent) (error : String) :
    Proc Unit := do
  let attempts := ev.processAttempts + 1
  if attempts ≥ 8 then deadEvent eventId ev error
  else
    let delay := min 3600 (5 * 2 ^ attempts)
    let now ← nowIso env
    setEvent eventId fun ev => { ev with
      processAttempts := attempts
      lastError := some error
      nextAttemptAt := Iso8601.plusSeconds now delay }

/-- `_is_thin`: a webhook payload embeds none of the includes a resource is fetched with. -/
def isThin (r : Res) : Bool :=
  !r.info.includes.isEmpty

def enqueueOrDefer (env : Env) (r : Res) (id : String) : Proc Unit := do
  if ((← get).hydration r).entries.length ≥ burstThreshold then
    let now ← nowIso env
    setState r fun st => { st with nextRunAt := some now }
  else enqueueHydration env r id "thin_webhook"

/-- `_forget_child_walks`: the contents of this parent changed, so its walks are unknown. -/
def forgetChildWalks (r : Res) (id : String) : Proc Unit :=
  modify fun w => { w with
    walks := fun u =>
      if u.info.method = .nestedWalk ∧ u.info.parent = some r then (w.walks u).erase id
      else w.walks u }

/-- What an event does to the mirror, before it is marked done. -/
def applyEvent (env : Env) (r : Option Res) (ev : WebhookEvent) (payload : Json) : Proc Unit := do
  if ev.resourceType = "person_merger" then handleMerge env payload
  else match r with
    | none => pure ()
    | some r =>
      if ev.action = "destroyed" then
        let attributes := orEmptyObj (← ofPy (pyGet payload "attributes"))
        let uat ← ofPy (pyGet attributes "updated_at")
        tombstoneOne env r (← ofPy (idOf payload)) uat .destroyed
      else
        routeOne env .webhook none [] payload
        if isThin r then enqueueOrDefer env r (← ofPy (idOf payload))
        if ev.action = "refreshed" then forgetChildWalks r (← ofPy (idOf payload))

def processEvent (env : Env) (eventId : Option String) (ev : WebhookEvent) : Proc Unit := do
  let r := byEventResource ev.resourceType
  let decoded : Option Json := match ev.payload with
    | .empty => some (.obj [])
    | .invalid => none
    | .json j => some j
  match decoded with
  | none => deadEvent eventId ev "unparseable payload"
  | some decoded =>
    let payload ← ofPy (unwrap decoded)
    if r.isNone ∧ ev.resourceType ≠ "person_merger" then
      ignoreEvent env eventId ("no table for " ++ ev.resourceType)
    else
      catching (do
        applyEvent env r ev payload
        let now ← nowIso env
        setEvent eventId fun ev => { ev with status := "done", processedAt := some now })
        fun e => retryOrDead env eventId ev e.text

/-! ## The inbox -/

/-- The rows of `webhook_event`, with their ids. -/
def World.events (w : World) : List (Option String × WebhookEvent) :=
  w.inbox.entries.map (fun e => (some e.1, e.2)) ++ w.nameless.map (none, ·)

/-- An event that is to be processed, or processed again. -/
def WebhookEvent.due (now : String) (ev : WebhookEvent) : Bool :=
  ev.status = "pending" && ev.nextAttemptAt.all (· ≤ now)

/-- The events one drain selects, in the order they were received. -/
def World.selected (w : World) (now : String) (limit : ℕ) : List (Option String × WebhookEvent) :=
  ((w.events.filter fun row => row.2.due now).insertionSort fun row row' =>
    row.2.receivedAt ≤ row'.2.receivedAt).take limit

def drain (env : Env) (limit : ℕ) : Proc ℕ := do
  let now ← nowIso env
  let rows := (← get).selected now limit
  forEach (fun row => processEvent env row.1 row.2) rows
  return rows.length

/-- One dead letter goes back to the inbox. -/
def retryOne (eventId : Option String) : Proc Unit := do
  setEvent eventId fun ev => { ev with
    status := "pending"
    processAttempts := 0
    nextAttemptAt := none
    lastError := none }
  whenSome eventId fun id => modify fun w => { w with deadLetters := w.deadLetters.erase id }

def retryDeadLetters : Proc ℕ := do
  let w ← get
  let rows := w.deadLetters.keys.map some ++ w.namelessDead.map fun _ => none
  forEach retryOne rows
  return rows.length

end PcoMirror
