import PcoMirror.Model.World

/-! The connection below the tables: statements one at a time, each committed where it is
issued, and the transactions put around a page of them. -/

namespace PcoMirror

open Program

/-! ## The connection -/

structure Conn where
  /-- What the connection reads and writes. -/
  working : Db
  /-- What a rollback goes back to. -/
  durable : Db
  /-- Counts the statements issued. -/
  issued : ℕ := 0
  /-- Counts the commits. -/
  commits : ℕ := 0
  /-- Counts the readings of the clock. -/
  tick : ℕ := 0

abbrev ConnM := EStateM PyError Conn

/-- Which statement fails, counted from the start, and how. -/
abbrev Faults := ℕ → Option PyError

def Conn.commit (c : Conn) : Conn :=
  { c with durable := c.working, commits := c.commits + 1 }

/-- `Database.execute`: a statement, and the commit that follows it. -/
def execute (faults : Faults) (statement : Db → Db) : ConnM Unit := do
  let c ← get
  set { c with issued := c.issued + 1 }
  match faults c.issued with
  | some e => throw e
  | none => modify fun c => Conn.commit { c with working := statement c.working }

namespace Statements

/-- `_uncascade`: an update of each child table. -/
def uncascade (faults : Faults) (t : Res) (id now : String) : ConnM Unit :=
  forEach (fun e => execute faults fun db =>
    if db.isLive t id then db.updateAll e.1 (Row.uncascade e.1 id now e.2) else db)
    (ownedChildren t)

/-- `_project_field_datum`: an update where the row is there. -/
def projectFieldDatum (faults : Faults) (id : String) : ConnM Unit := do
  let c ← get
  if (c.working.row? .fieldDatum id).isSome then
    execute faults (PcoMirror.projectFieldDatum id)

/-- The insert or update of a row, and what follows a write that may have revived it. -/
def store (faults : Faults) (t : Res) (id now : String) (write : Db → Db) : ConnM Unit := do
  execute faults write
  uncascade faults t id now
  if t = .fieldDatum then projectFieldDatum faults id

def upsert (faults : Faults) (t : Res) (id : String) (raw : Json) (w : Stamp) : ConnM Unit :=
  store faults t id w.now fun db => match db.row? t id with
    | none => db.put t id (Row.fresh raw w)
    | some row => db.put t id (row.upsert raw w)

def upsertUntimed (faults : Faults) (t : Res) (id : String) (raw : Json) (w : Stamp) : ConnM Unit :=
  execute faults (PcoMirror.upsertUntimed t id raw w)

def confirmLive (faults : Faults) (t : Res) (id : String) (raw : Json) (w : Stamp) : ConnM Unit :=
  store faults t id w.now fun db => match db.row? t id with
    | none => db.put t id (Row.fresh raw w)
    | some row => db.put t id (row.confirmLive raw w)

/-- `now_iso()`, in the stamp of a write. -/
def stampNow (env : Env) (source : Source) : ConnM Stamp := do
  let c ← get
  set { c with tick := c.tick + 1 }
  return ⟨source, env.apiVersion, env.now c.tick⟩

def ofPy {α : Type} (e : Except PyError α) : ConnM α :=
  match e with
  | .ok a => pure a
  | .error e => throw e

/-- `route` -/
def route (env : Env) (faults : Faults) (source : Source) (ownerHint : Option Json)
    (synthesized : List String) (resource : Json) : ConnM Unit := do
  let w ← stampNow env source
  match ← ofPy (routeTarget resource ownerHint synthesized) with
  | none => pure ()
  | some (r, id, stored) =>
    if r.info.timestamped then upsert faults r id stored w
    else upsertUntimed faults r id stored w

/-- `route_page` -/
def routePage (env : Env) (faults : Faults) (body : Json) (source : Source)
    (synthesized : List String := []) (dataOwnerHint : Option Json := none) : ConnM ℕ := do
  forEach (route env faults source none synthesized) (← ofPy (pageIncluded body))
  let items ← ofPy (pageData body)
  forEach (route env faults source dataOwnerHint synthesized) items
  return items.length

end Statements

/-! ## Blocks -/

/-- A block under `with db.transaction()`. -/
inductive Block where
  /-- `incremental_sweep`: one page. -/
  | page (document : Json)
  /-- `_restore_one`: what was sideloaded, and the record. -/
  | restore (r : Res) (id : String) (record included : Json)

/-- The page a restored record's sideload is routed as. -/
def sideloadPage (included : Json) : Json :=
  .obj [("data", .arr []), ("included", included)]

def Block.run (env : Env) (faults : Faults) : Block → ConnM Unit
  | .page document => do
    let _ ← Statements.routePage env faults document .reconcile
  | .restore r id record included => do
    let _ ← Statements.routePage env faults (sideloadPage included) .reconcile
    let w ← Statements.stampNow env .reconcile
    Statements.confirmLive faults r id record w

end PcoMirror
