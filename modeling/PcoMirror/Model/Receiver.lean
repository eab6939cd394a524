import PcoMirror.Lib.Text
import PcoMirror.Model.Webhooks

/-! The webhook edge: verifying a delivery, capturing its events, acknowledging it. -/

namespace PcoMirror

open Program

/-- What the edge makes of bytes: whether a signature is theirs, and `json.loads` of a text. -/
structure Edge where
  verify : (secret raw : String) → (signature : Option String) → Bool
  loads : String → Except PyError Json

/-! ## Signatures -/

def hexDigest (digest : List UInt8) : List Char :=
  digest.flatMap fun b => [Nat.digitChar (b.toNat / 16), Nat.digitChar (b.toNat % 16)]

def base64Digit (n : ℕ) : Char :=
  ("ABCDEFGHIJKLMNOPQRSTUVWXYZabcdefghijklmnopqrstuvwxyz0123456789+/".toList)[n]?.getD '='

/-- `b64encode`: three bytes are four digits of six bits. -/
def base64 : List UInt8 → List Char
  | [] => []
  | [a] => [base64Digit (a.toNat / 4), base64Digit (a.toNat % 4 * 16), '=', '=']
  | [a, b] => [base64Digit (a.toNat / 4), base64Digit (a.toNat % 4 * 16 + b.toNat / 16),
      base64Digit (b.toNat % 16 * 4), '=']
  | a :: b :: c :: rest => base64Digit (a.toNat / 4) ::
      base64Digit (a.toNat % 4 * 16 + b.toNat / 16) ::
      base64Digit (b.toNat % 16 * 4 + c.toNat / 64) :: base64Digit (c.toNat % 64) :: base64 rest

example : base64 [0x4d, 0x61, 0x6e, 0x4d, 0x61] = "TWFuTWE=".toList := by decide

/-- `verify`, over the digest `hmac` makes of a body under a secret. -/
def verify (hmac : (secret raw : String) → List UInt8) (secret raw : String)
    (signature : Option String) : Bool :=
  match signature with
  | none | some "" => false
  | some signature =>
    let supplied := Text.strip signature.toList
    supplied = hexDigest (hmac secret raw) || supplied = base64 (hmac secret raw)

/-- The edge, over Python's `hmac` and `json.loads`. -/
def Edge.over (hmac : (secret raw : String) → List UInt8) (loads : String → Except PyError Json) :
    Edge :=
  ⟨PcoMirror.verify hmac, loads⟩

/-! ## Subscriptions -/

/-- `is_unverified`: a blank secret is not checked at all. -/
def Subscription.unverified (sub : Subscription) : Bool :=
  (Text.strip sub.secret.toList).isEmpty

/-- The active subscriptions of a token, by event name. -/
def World.subscriptionsOf (w : World) (urlToken : String) : List Subscription :=
  (w.subscriptions.filter fun s => s.urlToken = urlToken && s.active).mergeSort fun s s' =>
    s.eventName < s'.eventName || (s.eventName = s'.eventName && s.id ≤ s'.id)

/-- `x.get(key) or {}`. -/
def getOrEmpty (j : Json) (key : String) : Except PyError Json :=
  return orEmptyObj (← pyGet j key)

/-- `_by_event_name`: the subscription whose event the delivery claims to be, else the first. -/
def byEventName (first : Subscription) (subs : List Subscription) (body : Json) :
    Except PyError Subscription := do
  let data := ((← pyGet body "data").filter Json.truthy).getD (.arr [])
  let name ← match data with
    | .arr [] => pure none
    | .arr (item :: _) => pyGet (← getOrEmpty item "attributes") "name"
    | .str _ => throw .attributeError
    | .obj _ => throw (.keyError "0")
    | _ => throw .typeError
  return (subs.find? fun s => name = some (.str s.eventName)).getD first

/-- `matched or _by_event_name(open_subs, env)` -/
def attributed (matched : Option Subscription) (first : Subscription)
    (unchecked : List Subscription) (body : Json) : Except PyError Subscription :=
  match matched with
  | some sub => return sub
  | none => byEventName first unchecked body

/-! ## Capture -/

/-- `parse_event_name`: the resource and the action an event's name ends in. -/
def parseEventName (name : String) : String × String :=
  match ((name.toList.splitOn '.').map String.ofList).reverse with
  | action :: resource :: _ => (resource, action)
  | _ => (name, "")

/-- A name that has a `split`, which only a text has. -/
def splittable : Json → Except PyError String
  | .str name => return name
  | _ => throw .attributeError

/-- A value bound to a TEXT column; NULL is `none`. -/
def bindText : Json → Except PyError (Option String)
  | .null => return none
  | .arr _ | .obj _ => throw .typeError
  | .int n => if -2 ^ 63 ≤ n ∧ n < 2 ^ 63 then return some (toString n) else throw .overflowError
  | v => return v.text?

/-- The payload an event is captured with, as it will be read back: a text is kept as it is, and
anything else is dumped. -/
def Edge.payloadOf (edge : Edge) (payload : Option Json) : Except PyError Body :=
  match payload with
  | some (.str "") => return .empty
  | some (.str text) => return .json (← edge.loads text)
  | some v => return .json v
  | none => return .json .null

/-- The id in a captured payload. -/
def payloadId (payload : Body) : Except PyError (Option Json) := do
  match payload with
  | .json document => pyGet (← unwrap document) "id"
  | _ => return none

/-- The row one item of a delivery is captured as, under its id; an id that is null is NULL. -/
def Edge.readEvent (edge : Edge) (fallback : String) (item : Json) :
    Except PyError (Option String × WebhookEvent) := do
  let attributes := (← pyGet item "attributes").getD (.obj [])
  let name ← splittable ((← pyGet attributes "name").getD (.str fallback))
  let (resource, action) := parseEventName name
  let payload ← pyGet attributes "payload"
  let id ← pyItem item "id"
  let payload ← edge.payloadOf payload
  let pcoId ← payloadId payload
  let id ← bindText id
  let _ ← bindText (pcoId.getD .null)
  return (id, {
    eventName := name
    resourceType := resource
    action := action
    payload := payload })

/-- `INSERT OR IGNORE INTO webhook_event`: an id is there once, and NULL is not an id. -/
def World.received (w : World) (id : Option String) (ev : WebhookEvent) : World :=
  match id with
  | some id => if (w.inbox.lookup id).isSome then w else { w with inbox := w.inbox.insert id ev }
  | none => { w with nameless := w.nameless ++ [ev] }

def captureOne (edge : Edge) (env : Env) (fallback : String) (item : Json) : Proc Unit := do
  let (id, ev) ← ofPy (edge.readEvent fallback item)
  let now ← nowIso env
  modify (·.received id { ev with receivedAt := now })

/-- A delivery as it was posted: its bytes and what its headers say. -/
structure Post where
  urlToken : String
  raw : String
  signature : Option String
  deliveryId : Option String
  attempt : Option String

/-- The value of a header, as an operand of `or`. -/
def headerText (header : Option String) : Option String :=
  header.filter (· ≠ "")

/-- The key a delivery is filed under: its own id, else its header's, else the time. -/
def fileAs (env : Env) (post : Post) (body : Json) : Proc (Except PyError (Option String)) := do
  match (← ofPy (pyGet body "id")).filter Json.truthy with
  | some id => return bindText id
  | none => match headerText post.deliveryId with
    | some id => return .ok (some id)
    | none => return .ok (some ("nodelivery-" ++ (← nowIso env)))

/-- `body.get("attempt") or attempt`. -/
def attemptOf (post : Post) (body : Json) : Except PyError (Option String) := do
  match (← pyGet body "attempt").filter Json.truthy with
  | some attempt => bindText attempt
  | none => return post.attempt

/-- What is written of a delivery: the delivery, then its events one by one. -/
def capture (edge : Edge) (env : Env) (post : Post) (sub : Subscription) (body : Json)
    (deliveryId : Except PyError (Option String)) : Proc Unit := do
  let attempt ← ofPy (attemptOf post body)
  let deliveryId ← ofPy deliveryId
  whenSome deliveryId fun id => modify fun w =>
    if (w.deliveries.lookup id).isSome then w
    else { w with
      deliveries := w.deliveries.insert id {
        subscriptionId := sub.id
        signature := post.signature.getD ""
        rawBody := post.raw
        attempt := attempt } }
  forEach (captureOne edge env sub.eventName) (← ofPy (pyItems (← ofPy (dataOf body))))
  let now ← nowIso env
  modify fun w => { w with subscriptions := w.subscriptions.map fun s =>
    if s.id = sub.id then { s with lastEventAt := some now } else s }

def receive (edge : Edge) (env : Env) (post : Post) : Proc (ℕ × String) := do
  let subs := (← get).subscriptionsOf post.urlToken
  if subs.isEmpty then return (404, "unknown token")
  let matched := subs.find? fun s => !s.unverified && edge.verify s.secret post.raw post.signature
  let unchecked := subs.filter Subscription.unverified
  match matched.or unchecked.head? with
  | none => return (401, "bad signature")
  | some first =>
    match edge.loads post.raw with
    | .error .jsonDecodeError => return (503, "unparseable")
    | .error e => raise e
    | .ok body =>
      let sub ← ofPy (attributed matched first unchecked body)
      let deliveryId ← fileAs env post body
      catching (do
        capture edge env post sub body deliveryId
        return (204, "ok"))
        fun _ => return (503, "capture failed")

end PcoMirror
