import PcoMirror.Model.Ingest.Backfill

/-! The incremental sweep: from the watermark by keyset, or newest first where an
endpoint has no timestamp filter. -/

namespace PcoMirror

open Program

/-! ## Children a person no longer has -/

/-- `_related_ids`: every type and id a resource's own relationships name. -/
def relatedIds (resource : Json) : Except PyError (List (Option Json × String)) := do
  match orEmptyObj (← pyGet resource "relationships") with
  | .obj rels =>
    let nodes := rels.flatMap fun (_, node) => match node.member? "data" with
      | some (.arr items) => items
      | some data => [data]
      | none => []
    return nodes.filterMap fun item => match item.member? "id" with
      | some id => if id.truthy then some (item.member? "type", id.pyStr) else none
      | none => none
  | _ => throw .attributeError

/-- The child resources a person was fetched with, by the names asked for. -/
def askedChildren (requested : List String) : List Res :=
  let asked := requested.filterMap fun name =>
    (Res.person.info.relationships.lookup name).bind fun rel =>
      if rel.kind = .many then some rel.target else none
  Res.all.filter fun child => child.info.ownerRel = some "person" && asked.contains child

/-- The sideloaded children of people: each resource with its id. -/
def presentChildren (included : List Json) : Except PyError (List (Res × Json)) := do
  let found ← included.mapM fun inc => do
    match ← resourceOf inc with
    | some child =>
      if child.info.ownerRel = some "person" then return some (child, ← itemId inc) else return none
    | none => return none
  return found.filterMap id

/-- `_include_diff`: tombstones a person's children that were asked for, and that
neither the sideload nor the person's own relationships name. -/
def includeDiff (env : Env) (included : List Json) (requested : List String) (person : Json) :
    Proc Unit := do
  let pid ← ofPy (idOf person)
  let present ← ofPy (presentChildren included)
  let claimed ← ofPy (relatedIds person)
  forEach (fun child => do
    let held := (← get).db.select child fun _ row =>
      row.live && child.column "person_pco_id" row.raw == some pid
    forEach (fun id => tombstoneOne env child id none .absent) <| held.filter fun id =>
      !present.contains (child, .str id) && !claimed.contains (some (.str child.info.type), id))
    (askedChildren requested)

/-- What a sweep of people adds to a page: the children each person no longer has. -/
def diffPeople (env : Env) (r : Res) (body : Json) (items : List Json) : Proc Unit :=
  if r = .person then do
    let included ← ofPy (pageIncluded body)
    forEach (includeDiff env included r.info.includes) items
  else pure ()

/-! ## By keyset -/

structure SweepPass where
  cursor : String
  applied : ℕ := 0

def saveSweep (env : Env) (r : Res) (cursor : String) : Proc Unit := do
  let now ← nowIso env
  setState r fun st => { st with
    reconcileWatermark := cursor
    reconcileCursor := cursor
    lastSweepCompletedAt := some now }

/-- One page of the sweep; the status of the answer is not looked at. -/
def sweepPage (env : Env) (r : Res) (fuel : ℕ) (p : SweepPass) :
    Proc (Pass SweepPass SweepPass) := do
  let resp ← clientGet env (.collection r {
    order := some "updated_at"
    includes := r.info.includes
    gte := if p.cursor = "" then none else some ("updated_at", p.cursor) })
  let body ← ofPy resp.document
  let data ← ofPy (dataOf body)
  if !data.truthy then return .leave p
  let applied := p.applied + (← routePage env resp.status body .reconcile)
  let items ← ofPy (pyItems data)
  diffPeople env r body items
  let uats ← ofPy (items.mapM (itemTime "updated_at"))
  let maxTs := (maxText uats).getD ""
  if maxTs = p.cursor ∧ items.length = 100 then
    drainSecond env r p.cursor fuel
    let cursor ← ofPy (plusOneSecond p.cursor)
    saveSweep env r cursor
    return .again ⟨cursor, applied⟩
  if uats.all (· = p.cursor) ∧ items.length < 100 then return .leave ⟨p.cursor, applied⟩
  if items.length < 100 then return .leave ⟨maxTs, applied⟩
  saveSweep env r maxTs
  return .again ⟨maxTs, applied⟩

def keysetSweep (env : Env) (r : Res) (fuel : ℕ) : Proc ℕ := do
  let st ← state r
  let swept ← whileTrue .stopped (sweepPage env r fuel) fuel ⟨st.reconcileWatermark, 0⟩
  saveSweep env r swept.cursor
  return swept.applied

/-! ## Newest first -/

/-- `wm0 and uat <= wm0` -/
def meetsWatermark (wm : String) (uat : Json) : Except PyError Bool :=
  if wm = "" then .ok false else do return decide ((← pyText uat) ≤ wm)

/-- How far a descending sweep has come. -/
structure DescendPass where
  off : ℕ
  applied : ℕ := 0
  hi : String

/-- Routes the records of one page down to the old watermark; tells whether it was met. -/
def descendItems (env : Env) (status : ℕ) (wm : String) (p : DescendPass) :
    List Json → Proc (Bool × DescendPass)
  | [] => return (false, p)
  | d :: rest => do
    let uat ← ofPy (pyItem (← ofPy (pyItem d "attributes")) "updated_at")
    if ← ofPy (meetsWatermark wm uat) then return (true, p)
    logEntry (.handed status d)
    routeOne env .reconcile none [] d
    let time ← ofPy (pyText uat)
    descendItems env status wm
      { p with applied := p.applied + 1, hi := if p.hi < time then time else p.hi } rest

/-- One page of a descending sweep; the status of the answer is not looked at. -/
def descendPage (env : Env) (r : Res) (wm : String) (p : DescendPass) :
    Proc (Pass DescendPass DescendPass) := do
  let resp ← clientGet env (.collection r { order := some "-updated_at", offset := some p.off })
  let body ← ofPy resp.document
  let items ← ofPy (pyItems (← ofPy (dataOf body)))
  let (stop, p) ← descendItems env resp.status wm p items
  if items.length < 100 ∨ stop then return .leave p
  return .again { p with off := p.off + 100 }

/-- `_descending_sweep` -/
def descendingSweep (env : Env) (r : Res) (fuel : ℕ) : Proc ℕ := do
  let st ← state r
  let swept ← whileTrue .stopped (descendPage env r st.reconcileWatermark) fuel
    { off := 0, hi := st.reconcileWatermark }
  saveSweep env r swept.hi
  return swept.applied

/-- `incremental_sweep` -/
def incrementalSweep (env : Env) (r : Res) (fuel : ℕ) : Proc ℕ :=
  match r.info.method, r.info.parent with
  | .nestedWalk, some parent => nestedWalk env r parent .reconcile fuel
  | .referencePeriodic, _ => referenceRefresh env r fuel
  | _, _ =>
    if r.info.supportsUatFilter then keysetSweep env r fuel else descendingSweep env r fuel

end PcoMirror
