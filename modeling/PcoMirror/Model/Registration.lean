import PcoMirror.Lib.JsonText
import PcoMirror.Model.CorsOverride
import PcoMirror.Model.Subscriptions

/-! The list of webhook subscriptions and who keeps it: the environment, at every start, or the
operator, on the page. -/

namespace PcoMirror.Registration

open Cors (MirrorMeta)

/-! ## The environment's list -/

/-- `SubscriptionSpec` -/
structure Spec where
  subscriptionId : String
  event : String
  secret : String
  urlToken : String := ""
  deriving DecidableEq

/-- `split(sep, n)`: at most so many parts are taken off the front. -/
def splitAtMost (c : Char) : ℕ → List Char → List (List Char)
  | 0, s => [s]
  | n + 1, s =>
    if c ∈ s then s.takeWhile (· ≠ c) :: splitAtMost c n ((s.dropWhile (· ≠ c)).drop 1) else [s]

/-- One entry of the compact form. -/
def compactEntry (entry : String) : Except String Spec :=
  match (splitAtMost ':' 3 entry.toList).map fun part => String.ofList (Text.strip part) with
  | [id, event, token, secret] =>
    if id = "" ∨ event = "" then
      throw ("bad PCOMIRROR_SUBSCRIPTIONS entry " ++ Cors.repr entry ++ ": id and event are required " ++
        "(token may be empty; an empty secret turns the signature check off)")
    else return ⟨id, event, secret, token⟩
  | _ => throw ("bad PCOMIRROR_SUBSCRIPTIONS entry " ++ Cors.repr entry ++
      ": expected id:event:token:secret")

/-- `str(e.get(key) or "")` -/
def textOr (members : List (String × Json)) (key : String) : String :=
  match members.lookup key with
  | some v => if v.truthy then v.pyStr else ""
  | none => ""

/-- One entry of the JSON form, at its place in the list. -/
def jsonEntry (i : ℕ) : Json → Except String Spec
  | .obj members =>
    let lacking := ["id", "event"].filter fun key => !((members.lookup key).any Json.truthy)
    if lacking = [] then
      return ⟨textOr members "id", textOr members "event", textOr members "secret",
        textOr members "token"⟩
    else throw ("PCOMIRROR_SUBSCRIPTIONS[" ++ toString i ++ "] missing " ++ Http.join lacking)
  | _ => throw ("PCOMIRROR_SUBSCRIPTIONS[" ++ toString i ++ "] is not an object")

/-- `parse_subscriptions`, in either form. -/
def parseSubscriptions (value : Option String) : Except String (List Spec) :=
  let value := Http.trim (value.getD "")
  if value = "" then return []
  else if value.toList.head? = some '[' then
    match Json.loads value with
    | none => throw "PCOMIRROR_SUBSCRIPTIONS is not valid JSON"
    | some (.arr entries) => (entries.zipIdx).mapM fun e => jsonEntry e.2 e.1
    | some _ => throw "PCOMIRROR_SUBSCRIPTIONS JSON must be a list of objects"
  else (Http.items value).mapM compactEntry

/-! ## Tokens -/

def isTokenChar (c : Char) : Bool :=
  c.isAlphanum || c = '_' || c = '-'

/-- `TOKEN_RE.match`; what `$` matches may be followed by one line feed. -/
def tokenMatches (token : String) : Bool :=
  let body := if token.toList.getLast? = some '\n' then token.toList.dropLast else token.toList
  8 ≤ body.length && body.length ≤ 64 && body.all isTokenChar

/-- `secrets.token_urlsafe` -/
def tokenUrlsafe {n : ℕ} (bytes : Vector UInt8 n) : String :=
  String.ofList (((base64 bytes.toList).filter (· ≠ '=')).map fun c =>
    if c = '+' then '-' else if c = '/' then '_' else c)

/-- `mint_token`, of the bytes `secrets` draws. -/
def mintToken (drawn : Vector UInt8 24) : String :=
  tokenUrlsafe drawn

/-! ## Rows -/

/-- Who wrote a row. -/
inductive Manager where
  | env | admin
  deriving DecidableEq

/-- A row of `webhook_subscription`. -/
structure Registered extends Subscription where
  resource : String
  action : String
  managed : Manager

/-- The arguments of `upsert_subscription`, and the bytes it may mint a token of. -/
structure Upsert where
  id : String
  event : String
  secret : String
  token : Option String := none
  managed : Manager
  drawn : Vector UInt8 24

/-- What `upsert_subscription` refuses. -/
def Upsert.refused (u : Upsert) : Option String :=
  match u.token.filter fun token => !tokenMatches token with
  | some token =>
    some ("invalid url_token " ++ Cors.repr token ++ ": expected 8-64 chars of [A-Za-z0-9_-]")
  | none =>
    if Http.trim u.id = "" then some "a subscription needs an id"
    else if Http.trim u.event = "" then some "a subscription needs an event name"
    else none

/-- The token a subscription gets: the one named, else the one it has, else a new one. -/
def Upsert.tokenAmong (u : Upsert) (rows : List Registered) : String :=
  u.token.getD (((rows.find? (·.id = u.id)).map (·.urlToken)).getD (mintToken u.drawn))

/-- The row as it is inserted. -/
def Upsert.fresh (u : Upsert) (token : String) : Registered where
  id := u.id
  eventName := u.event
  urlToken := token
  secret := u.secret
  resource := (parseEventName u.event).1
  action := (parseEventName u.event).2
  managed := u.managed

/-- The row as it is updated where there is one: the time of its last event stays. -/
def Upsert.onto (u : Upsert) (token : String) (row : Registered) : Registered :=
  { u.fresh token with lastEventAt := row.lastEventAt }

/-- `INSERT INTO webhook_subscription … ON CONFLICT DO UPDATE` -/
def Upsert.written (u : Upsert) (rows : List Registered) : List Registered :=
  let token := u.tokenAmong rows
  if rows.any (·.id = u.id) then rows.map fun row => if row.id = u.id then u.onto token row else row
  else rows ++ [u.fresh token]

/-- `upsert_subscription`: the token, whether the row is new, and the rows. -/
def upsertSubscription (u : Upsert) (rows : List Registered) :
    Except String ((String × Bool) × List Registered) :=
  match u.refused with
  | some text => throw text
  | none => return ((u.tokenAmong rows, !rows.any (·.id = u.id)), u.written rows)

/-- `upsert_subscription` one after the other, until one is refused: the rows written so far stay. -/
def upsertAll : List Upsert → List Registered → Except String (List (String × Bool)) × List Registered
  | [], rows => (return [], rows)
  | u :: us, rows => match upsertSubscription u rows with
    | .error text => (throw text, rows)
    | .ok (out, rows) =>
      let (rest, rows) := upsertAll us rows
      (rest.map (out :: ·), rows)

/-- `delete_subscription` -/
def deleteSubscription (id : String) (rows : List Registered) : Bool × List Registered :=
  (rows.any (·.id = id), rows.filter (·.id ≠ id))

/-- `set_active` -/
def setActive (id : String) (active : Bool) (rows : List Registered) : Bool × List Registered :=
  (rows.any (·.id = id), rows.map fun row => if row.id = id then { row with active := active } else row)

/-! ## Receivers -/

/-- What `receivers` says of one receiver URL. -/
structure Bucket where
  urlToken : String
  subscriptions : List Registered := []
  active : ℕ := 0
  inactive : ℕ := 0
  lastEventAt : Option String := none
  managed : List Manager := []

/-- The later of two times, as `receivers` keeps it. -/
def laterOf (held : Option String) (row : Registered) : Option String :=
  match row.lastEventAt.filter (· ≠ "") with
  | some last => if (held.getD "") < last then some last else held
  | none => held

/-- One row more of a receiver. -/
def Bucket.add (b : Bucket) (row : Registered) : Bucket :=
  { b with
    subscriptions := b.subscriptions ++ [row]
    active := if row.active then b.active + 1 else b.active
    inactive := if row.active then b.inactive else b.inactive + 1
    lastEventAt := laterOf b.lastEventAt row
    managed := if b.managed.contains row.managed then b.managed else b.managed ++ [row.managed] }

/-- `grouped.setdefault(token, …)`, and the row added there. -/
def fold (row : Registered) : List Bucket → List Bucket
  | [] => [Bucket.add { urlToken := row.urlToken } row]
  | b :: rest => if b.urlToken = row.urlToken then b.add row :: rest else b :: fold row rest

/-- `ORDER BY url_token, event_name` -/
def inOrder (rows : List Registered) : List Registered :=
  rows.mergeSort fun row row' =>
    row.urlToken < row'.urlToken || (row.urlToken = row'.urlToken && row.eventName ≤ row'.eventName)

/-- `receivers`: the rows, by the URLs they share. -/
def receivers (rows : List Registered) : List Bucket :=
  ((inOrder rows).foldl (fun buckets row => fold row buckets) []).mergeSort fun b b' =>
    b.urlToken ≤ b'.urlToken

/-! ## Who keeps the list -/

/-- `OVERRIDE_KEY` -/
def overrideKey : String := "subscriptions_managed_here"

/-- `env_is_authoritative` -/
def envIsAuthoritative (db : MirrorMeta) : Bool :=
  db overrideKey ≠ some "1"

/-- `take_over` -/
def takeOver (db : MirrorMeta) : MirrorMeta :=
  Function.update db overrideKey (some "1")

/-- `hand_back` -/
def handBack (db : MirrorMeta) : MirrorMeta :=
  Function.update db overrideKey none

/-- The upserts `apply_env` makes. -/
def fromEnv (specs : List Spec) (drawn : ℕ → Vector UInt8 24) : List Upsert :=
  specs.zipIdx.map fun (spec, i) => {
    id := spec.subscriptionId
    event := spec.event
    secret := spec.secret
    token := if spec.urlToken = "" then none else some spec.urlToken
    managed := .env
    drawn := drawn i }

/-- What became of one entry of the environment. -/
inductive Outcome where
  | skipped
  | registered (token : String)
  | updated (token : String)

/-- `apply_env` -/
def applyEnv (db : MirrorMeta) (specs : List Spec) (drawn : ℕ → Vector UInt8 24)
    (rows : List Registered) : Except String (List (Spec × Outcome)) × List Registered :=
  if specs = [] then (return [], rows)
  else if envIsAuthoritative db then
    let (done, rows) := upsertAll (fromEnv specs drawn) rows
    (done.map fun out => specs.zip (out.map fun (token, created) =>
      if created then .registered token else .updated token), rows)
  else (return specs.map fun spec => (spec, .skipped), rows)

/-! ## The list over time -/

/-- The list, and what `mirror_meta` says of it. -/
structure Listed where
  rows : List Registered := []
  db : MirrorMeta := fun _ => none

/-- What happens to the list. -/
inductive Move where
  /-- `serve` starts, with this list in its environment. -/
  | start (specs : List Spec) (drawn : ℕ → Vector UInt8 24)
  /-- The page adds or imports subscriptions. -/
  | save (us : List Upsert)
  | remove (id : String)
  | toggle (id : String) (active : Bool)
  | keepHere
  | handBack
  /-- `add-subscription`, on the command line. -/
  | add (us : List Upsert)
  /-- An event is captured: `UPDATE webhook_subscription SET last_event_at=?` -/
  | delivered (id now : String)

def Listed.step (s : Listed) : Move → Listed
  | .start specs drawn => { s with rows := (applyEnv s.db specs drawn s.rows).2 }
  | .save us => match upsertAll us s.rows with
    | (.ok _, rows) => ⟨rows, takeOver s.db⟩
    | (.error _, rows) => { s with rows := rows }
  | .remove id => ⟨(deleteSubscription id s.rows).2, takeOver s.db⟩
  | .toggle id active => ⟨(setActive id active s.rows).2, takeOver s.db⟩
  | .keepHere => { s with db := takeOver s.db }
  | .handBack => { s with db := Registration.handBack s.db }
  | .add us => { s with rows := (upsertAll us s.rows).2 }
  | .delivered id now => { s with rows := s.rows.map fun row =>
      if row.id = id then { row with lastEventAt := some now } else row }

end PcoMirror.Registration
