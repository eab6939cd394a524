import PcoMirror.Model.Serving.Filter

/-! The relationships of stored rows, and the walks a read asks for before it follows one: a
collection that was never read is unknown, and unknown is not empty. -/

namespace PcoMirror

open Program

/-! ## Edges -/

/-- What a path of keys leads to; nothing, where it leads to null. -/
def jsonNode (j : Json) : List String → Option Json
  | [] => if j = .null then none else some j
  | key :: path => match j with
    | .obj members => (members.lookup key).bind (jsonNode · path)
    | _ => none

/-- `_json_ids` -/
def jsonIds (raw : Json) (path : List String) : Except PyError (List String) :=
  match jsonNode raw path with
  | none => .ok []
  | some (.obj members) => .ok ([Json.obj members].filterMap peerId)
  | some (.arr items) => .ok (items.filterMap peerId)
  | some (.str _) => .ok []
  | some _ => .error .typeError

/-- The id a to-one relationship holds, where it holds one. -/
def Rel.localId (r : Res) (rel : Rel) (held : Held) : Option String :=
  (rel.localFk.bind fun fk => r.column fk held.2.raw).filter (· ≠ "")

/-- `_rel_target_ids` -/
def Db.relTargetIds (db : Db) (r : Res) (rel : Rel) (held : Held) : Except PyError (List String) :=
  match rel.kind with
  | .json => jsonIds held.2.raw rel.jsonPath
  | .one => .ok (rel.localId r held).toList
  | .many => .ok ((db.pointingAt rel.target rel.childFk held.1).map (·.1))

/-- `_related_rows` -/
def Db.relatedRows (db : Db) (r : Res) (rel : Rel) (rows : List Held) :
    Except PyError (List Held) :=
  match rel.kind with
  | .json => do
    let targets ← rows.mapM fun held => jsonIds held.2.raw rel.jsonPath
    return targets.flatten.eraseDups.filterMap (db.live? rel.target)
  | .many =>
    .ok ((db.liveRows rel.target).filter fun x =>
      (rel.childFk.bind fun fk => rel.target.column fk x.2.raw).any ((rows.map (·.1)).contains ·))
  | .one =>
    .ok ((db.liveRows rel.target).filter fun x => (rows.filterMap (rel.localId r)).contains x.1)

/-- `_rel_restriction`: the rows of the target on this row's side of the relationship. -/
def Rel.restriction (r : Res) (rel : Rel) (held : Held) : Except PyError (Held → Bool) :=
  match rel.kind with
  | .json => do
    let ids ← jsonIds held.2.raw rel.jsonPath
    return fun x => ids.contains x.1
  | .one => .ok fun x => rel.localId r held = some x.1
  | .many => .ok fun x =>
      (rel.childFk.bind fun fk => rel.target.column fk x.2.raw) == some held.1

/-! ## Reads -/

/-- A walked collection that an answer shows or filters on. -/
structure Presented where
  child : Res
  parentId : String
  /-- `_ensure_walked` has seen to the collection in the same read. -/
  ensured : Bool
  /-- What `parent_walked` says of the parent when the collection is read. -/
  known : Bool
  /-- The record of the mirror up to there. -/
  record : List Entry

/-- The process while a read is served. -/
structure Reading extends Exchange where
  /-- The collections `_ensure_walked` has found walked, or had walked; no step reads it. -/
  ensured : List (Res × String) := []
  /-- What the answer presents so far, newest first; no step reads it. -/
  presented : List Presented := []

abbrev Read := EStateM Fault Reading

/-- A program of the service, run while a read is served. -/
def onExchange {α : Type} (m : Serving α) : Read α := do
  let x ← get
  match m.run x.toExchange with
  | .ok a e =>
    set { x with toExchange := e }
    return a
  | .error fault e =>
    set { x with toExchange := e }
    throw fault

def readPy {α : Type} (e : Except PyError α) : Read α :=
  match e with
  | .ok a => pure a
  | .error e => throw (.raised e)

def readSql {α : Type} (e : Except SqlError α) : Read α :=
  match e with
  | .ok a => pure a
  | .error e => throw (.sqlite e)

def ofFault {α : Type} (e : Except Fault α) : Read α :=
  match e with
  | .ok a => pure a
  | .error fault => throw fault

def database : Read Db :=
  return (← get).world.db

/-! ## The collections a relationship is read from -/

/-- The first relationship that leads to a resource. -/
def edgeTo (r target : Res) : Option Rel :=
  (r.info.relationships.find? fun e => e.2.target = target).map (·.2)

/-- The walked parents a row names: itself, or those on its edge to them. -/
def Db.parentIds (db : Db) (r parent : Res) (held : Held) : Except PyError (List String) :=
  if r = parent then .ok [held.1]
  else match edgeTo r parent with
    | none => .ok []
    | some hop => db.relTargetIds r hop held

/-- The parent under which a relationship's rows are walked, where they are walked. -/
def Rel.walkedUnder (rel : Rel) : Option Res :=
  if rel.target.info.method = .nestedWalk ∧ rel.kind = .many then rel.target.info.parent else none

/-- The live parents whose collections a relationship of these rows is read from: those the rows
name, and those the rows found there name. -/
def Db.presents (db : Db) (r : Res) (rel : Rel) (rows : List Held) : List (Res × String) :=
  match rel.walkedUnder with
  | none => []
  | some parent =>
    let of (held : Held) : List String :=
      let found := (db.pointingAt rel.target rel.childFk held.1).filterMap fun child =>
        rel.target.info.parentFk.bind fun fk => rel.target.column fk child.2.raw
      (db.parentIds r parent held).toOption.getD [] ++ found
    ((rows.flatMap of).filter (db.isLive parent)).map (rel.target, ·)

/-- The collections a filter goes through, from these rows on. -/
def Clause.presents (site : Site) (db : Db) (r : Res) (rows : List Held) :
    Clause → List (Res × String)
  | .through rel inner =>
    db.presents r rel rows ++ inner.presents site db rel.target (rows.flatMap fun held =>
      (site.hop db r rel held).filterMap fun x => x.toOption.join)
  | _ => []

def Reading.present (x : Reading) (collections : List (Res × String)) : Reading :=
  { x with presented := collections.map (fun c =>
      ⟨c.1, c.2, x.ensured.contains c, x.world.parentWalked c.1 c.2, x.world.log⟩) ++ x.presented }

/-- Notes the collections the answer presents. -/
def present (collections : Db → List (Res × String)) : Read Unit :=
  modify fun x => x.present (collections x.world.db)

/-! ## Before a walked collection is read -/

def notWalkedDetail (c parent : Res) : String :=
  c.info.type ++ " has not been walked for every " ++ parent.info.type ++
    " on this page yet — retry once the walk has run, or read one " ++ parent.info.type ++
    " at a time"

def notFetchedDetail (c parent : Res) (parentId : String) (e : PyError) : String :=
  c.info.type ++ " for " ++ parent.info.type ++ " " ++ parentId ++
    " is not mirrored yet and could not be fetched: " ++ e.text

def noteEnsured (c : Res) (parentId : String) : Read Unit :=
  modify fun x => { x with ensured := (c, parentId) :: x.ensured }

/-- Walks one parent that was never walked, within what is left of the budget. -/
def fillParent (env : Env) (fuel : ℕ) (c parent : Res) (budget : ℕ) (parentId : String) :
    Read ℕ := do
  let x ← get
  if x.world.parentWalked c parentId then
    noteEnsured c parentId
    return budget
  -- The parent itself is not mirrored: nothing to walk.
  if !x.world.db.isLive parent parentId then return budget
  if budget = 0 then throw (.http 503 (notWalkedDetail c parent) none)
  match ← onExchange (onMirror (attempt (ensureParentWalked env c parent parentId fuel))) with
  | .ok _ =>
    noteEnsured c parentId
    return budget - 1
  | .error e => throw (.http 503 (notFetchedDetail c parent parentId e) none)

def fillRow (env : Env) (fuel : ℕ) (r c parent : Res) (budget : ℕ) (held : Held) : Read ℕ := do
  let ids ← readPy ((← database).parentIds r parent held)
  ids.foldlM (fillParent env fuel c parent) budget

/-- `_ensure_walked`, with its budget of 25 parents. -/
def ensureWalked (env : Env) (fuel : ℕ) (r : Res) (rel : Rel) (rows : List Held) : Read Unit :=
  match rel.walkedUnder with
  | none => pure ()
  | some parent => do
    let _ ← rows.foldlM (fillRow env fuel r rel.target parent) 25

/-- The rows a relationship leads to, of walked collections as of any other. -/
def readRelated (r : Res) (rel : Rel) (rows : List Held) : Read (List Held) := do
  present fun db => db.presents r rel rows
  readPy ((← database).relatedRows r rel rows)

end PcoMirror
