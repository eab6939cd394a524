import PcoMirror.Lib.Iso8601
import PcoMirror.Model.Ingest.Hydration

/-! The repair passes: records whose stored relationships no other check looks at again are
queued for a re-read. -/

namespace PcoMirror

open Program

/-! ## Edges kept as arrays -/

/-- `json_each(raw, '$.relationships.<name>.data')`, each value's `'$.id'`: the ids a
relationship lists. -/
def linkedIds (raw : Json) (name : String) : List String :=
  match raw.at? ["relationships", name, "data"] with
  | some (.arr items) => items.filterMap fun item => (item.member? "id").bind Json.text?
  | _ => []

/-- `strftime('%Y-%m-%dT%H:%M:%SZ','now','-N seconds')` -/
def secondsAgo (env : Env) (seconds : ℕ) : Proc (Option String) :=
  return Iso8601.minusSeconds (← nowIso env) seconds

/-! ## The two copies of a household edge -/

/-- The live rows of a table, last written no later than a time, that a live row of the other
table lists without being listed by them. -/
def Db.lacking (db : Db) (t other : Res) (name otherName : String) (cutoff : Option String) :
    List String :=
  Sql.sortIds <| db.select t fun id row =>
    row.live && Sql.ge cutoff (some row.lastSyncedAt) &&
      !(db.select other fun otherId otherRow => otherRow.live &&
        (linkedIds otherRow.raw otherName).contains id &&
          !(linkedIds row.raw name).contains otherId).isEmpty

/-- People whose copy lacks a household that lists them. -/
def Db.splitPeople (db : Db) (cutoff : Option String) : List String :=
  db.lacking .person .household "households" "people" cutoff

/-- Households whose copy lacks a person who lists them. -/
def Db.splitHouseholds (db : Db) (cutoff : Option String) : List String :=
  db.lacking .household .person "people" "households" cutoff

/-- `repair_split_edges`: the record that lacks the edge is the one re-read. -/
def repairSplitEdges (env : Env) (limit minAgeSeconds : ℕ) : Proc ℕ := do
  let cutoff ← secondsAgo env minAgeSeconds
  let people := ((← get).db.splitPeople cutoff).take limit
  forEach (fun id => enqueueHydration env .person id "split_edge") people
  let cutoff ← secondsAgo env minAgeSeconds
  let households := ((← get).db.splitHouseholds cutoff).take limit
  forEach (fun id => enqueueHydration env .household id "split_edge") households
  return people.length + households.length

/-! ## Edges that lead nowhere -/

/-- The declared includes whose ids a copy keeps as an array. -/
def danglingEdges (r : Res) : List (String × Rel) :=
  r.info.includes.filterMap fun name => (r.info.relationships.lookup name).bind fun rel =>
    if rel.kind = .many ∨ rel.kind = .json then some (name, rel) else none

/-- The live rows, last written no later than a time, that list an id without a live row. -/
def Db.dangling (db : Db) (r : Res) (cutoff : Option String) : List String :=
  Sql.sortIds <| db.select r fun _ row =>
    row.live && Sql.ge cutoff (some row.lastSyncedAt) &&
      (danglingEdges r).any fun e =>
        (linkedIds row.raw e.1).any fun id => !db.isLive e.2.target id

/-- The ids under a relationship, as the pass reads them off a decoded copy. -/
def danglingIds (resource : Json) (name : String) : Except PyError (List String) := do
  let rels := orEmptyObj (← pyGet resource "relationships")
  let rel := orEmptyObj (← pyGet rels name)
  let items := match (← pyGet rel "data").filter Json.truthy with
    | none => []
    | some (.arr items) => items
    | some item => [item]
  return items.filterMap fun item => ((item.member? "id").filter Json.truthy).map Json.pyStr

/-- `_queue_dangling_targets` -/
def queueDanglingTargets (env : Env) (resource : Json) : List (String × Rel) → Proc ℕ
  | [] => return 0
  | (name, rel) :: edges => do
    -- A child without an address of its own is repaired by the walk of its parent.
    if rel.target.info.method = .nestedWalk ∨ rel.target.info.method = .passthroughOnly then
      queueDanglingTargets env resource edges
    else do
      let ids ← ofPy (danglingIds resource name)
      let db := (← get).db
      let missing := ids.filter fun id => !db.isLive rel.target id
      forEach (fun id => enqueueHydration env rel.target id "dangling") missing
      let more ← queueDanglingTargets env resource edges
      return missing.length + more

/-- Queues the holders found, and what each of them names in vain. -/
def queueDangling (env : Env) (r : Res) : List (String × Json) → Proc ℕ
  | [] => return 0
  | (id, raw) :: rows => do
    enqueueHydration env r id "dangling"
    let targets ← queueDanglingTargets env raw (danglingEdges r)
    let more ← queueDangling env r rows
    return 1 + targets + more

/-- `repair_dangling`: both ends of an edge that leads nowhere are re-read. -/
def repairDangling (env : Env) (r : Res) (limit minAgeSeconds : ℕ) : Proc ℕ :=
  if (danglingEdges r).isEmpty then return 0
  else do
    let cutoff ← secondsAgo env minAgeSeconds
    let db := (← get).db
    queueDangling env r <| ((db.dangling r cutoff).take limit).filterMap fun id =>
      (db.row? r id).map fun row => (id, row.raw)

end PcoMirror
