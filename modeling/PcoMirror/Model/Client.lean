import PcoMirror.Model.World

/-! The client's loop around the transport: what is sent again, and what is handed back. -/

namespace PcoMirror

open Program

inductive Verb where
  | get | post | patch | delete
  deriving DecidableEq, Repr

def Verb.name : Verb → String
  | .get => "GET"
  | .post => "POST"
  | .patch => "PATCH"
  | .delete => "DELETE"

def Verb.idempotent (method : Verb) : Bool :=
  method = .get

/-- What the transport hands back. -/
structure Answer extends Response where
  headers : List (String × String) := []
  deriving DecidableEq

/-- What comes of one send: an answer, or an exception. -/
abbrev Outcome := Except PyError Answer

/-- What comes of each send of one request. -/
abbrev Transport := ℕ → Outcome

/-- The process while one request is served. -/
structure Exchange where
  world : World
  /-- What came of the sends so far, newest first. -/
  sends : List Outcome := []

/-- `sqlite3.OperationalError` -/
inductive SqlError where
  | malformedJson
  deriving DecidableEq

/-- How the serving of a request ends short of an answer. -/
inductive Fault where
  | raised (e : PyError)
  | sqlite (e : SqlError)
  /-- `_HttpError` -/
  | http (status : ℕ) (detail : String) (info : Option Json)
  | stopped
  deriving DecidableEq

abbrev Serving := EStateM Fault Exchange

/-- A program of the process, run while a request is served. -/
def onMirror {α : Type} (m : Proc α) : Serving α := do
  let x ← get
  match m.run x.world with
  | .ok a w =>
    set { x with world := w }
    return a
  | .error halt w =>
    set { x with world := w }
    match halt with
    | .raised e => throw (.raised e)
    | .stopped => throw .stopped

def serveSql {α : Type} (e : Except SqlError α) : Serving α :=
  match e with
  | .ok a => pure a
  | .error e => throw (.sqlite e)

def servePy {α : Type} (e : Except PyError α) : Serving α :=
  match e with
  | .ok a => pure a
  | .error e => throw (.raised e)

/-- `self.transport.send` -/
def send (transport : Transport) : Serving Outcome := do
  let x ← get
  let outcome := transport x.sends.length
  set { x with sends := outcome :: x.sends }
  return outcome

/-- Whether the loop goes round again, where an attempt is left: after a `429` always, after an
exception or a gateway's failure only for what can be sent twice. -/
def retries (method : Verb) : Outcome → Bool
  | .error _ => method.idempotent
  | .ok resp => resp.status = 429 || resp.status ∈ [500, 502, 503, 504] && method.idempotent

/-- The loop of `request`, with so many attempts left after the next. -/
def attempts (transport : Transport) (method : Verb) : ℕ → Serving Answer
  | 0 => do servePy (← send transport)
  | left + 1 => do
    let outcome ← send transport
    if retries method outcome then attempts transport method left
    else servePy outcome

/-- `PcoClient.request`, with its six attempts. -/
def request (transport : Transport) (method : Verb) : Serving Answer :=
  attempts transport method 5

end PcoMirror
