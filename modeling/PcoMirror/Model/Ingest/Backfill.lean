import PcoMirror.Lib.Iso8601
import PcoMirror.Model.Ingest.Walk

/-! Backfill: the updated-at keyset with its same-second drain, and plain offset
paging where an endpoint has no timestamp filter. -/

namespace PcoMirror

open Program

/-! ## Pages -/

/-- The organization a collection response names in `meta.parent`. -/
def organizationOf (body : Json) : Except PyError (Option String) := do
  let metaObj := orEmptyObj (← pyGet body "meta")
  let parent := orEmptyObj (← pyGet metaObj "parent")
  let type ← pyGet parent "type"
  let id ← pyGet parent "id"
  match id with
  | some v => return if type = some (.str "Organization") ∧ v.truthy then some v.pyStr else none
  | none => return none

/-- `note_parent`: learns the organization id. -/
def noteParent (body : Json) : Proc Unit := do
  match ← ofPy (organizationOf body) with
  | some id => modify fun w => { w with organizationId := some id }
  | none => pure ()

/-- `_plus_one_second`, which raises on a text it cannot read. -/
def plusOneSecond (second : String) : Except PyError String :=
  match Iso8601.plusOneSecond second with
  | some next => .ok next
  | none => .error .valueError

/-- `max` of some texts. -/
def maxText : List String → Option String
  | [] => none
  | x :: xs => some (xs.foldl (fun m y => if m < y then y else m) x)

/-! ## One second, by offset -/

/-- One page of the records of one second; the status of the answer is not looked at. -/
def drainPage (env : Env) (r : Res) (second : String) (off : ℕ) : Proc (Pass ℕ Unit) := do
  let next ← ofPy (plusOneSecond second)
  let resp ← clientGet env (.collection r {
    order := some "updated_at"
    offset := some off
    includes := r.info.includes
    gte := some ("updated_at", second)
    lt := some ("updated_at", next) })
  let body ← ofPy resp.document
  let data ← ofPy (dataOf body)
  let _ ← routePage env resp.status body .backfill
  let items ← ofPy (pyItems data)
  let _ ← ofPy (items.mapM itemId)
  if items.length < 100 then return .leave ()
  return .again (off + 100)

/-- `_drain_second` -/
def drainSecond (env : Env) (r : Res) (second : String) (fuel : ℕ) : Proc Unit :=
  whileTrue .stopped (drainPage env r second) fuel 0

/-! ## The keyset -/

/-- Where a backfill stands: its second, and the ids seen in that second. -/
structure BackfillCursor where
  ts : String
  seen : List Json

/-- What a backfill carries from page to page. -/
structure BackfillPass where
  cursor : BackfillCursor
  applied : List Json := []
  pages : ℕ := 0

/-- How a backfill unit ended: its budget spent, or the listing read to its end. -/
inductive BackfillEnd where
  | unfinished (applied : List Json)
  | finished (ts : String) (applied : List Json)

def saveBackfill (r : Res) (cursor : BackfillCursor) : Proc Unit :=
  setState r fun st => { st with
    phase := "backfilling"
    backfillCursorTs := some cursor.ts
    backfillSeenIds := cursor.seen }

/-- One page of the keyset: where it leaves the cursor, and the ids it brought. -/
def backfillStep (env : Env) (r : Res) (fuel : ℕ) (cursor : BackfillCursor) :
    Proc (Pass BackfillCursor String × List Json) := do
  let resp ← clientGet env (.collection r {
    order := some "updated_at"
    includes := r.info.includes
    gte := if cursor.ts = "" then none else some ("updated_at", cursor.ts) })
  if !resp.ok then
    raise (.ingestError ("backfill " ++ r.info.endpoint ++ " failed: HTTP " ++
      toString resp.status))
  let body ← ofPy resp.document
  noteParent body
  let data ← ofPy (dataOf body)
  if !data.truthy then return (.leave cursor.ts, [])
  let _ ← routePage env resp.status body .backfill
  let items ← ofPy (pyItems data)
  let ids ← ofPy (items.mapM itemId)
  let uats ← ofPy (items.mapM (itemTime "updated_at"))
  let maxTs := (maxText uats).getD ""
  if maxTs = cursor.ts ∧ items.length = 100 then
    drainSecond env r cursor.ts fuel
    let next : BackfillCursor := ⟨← ofPy (plusOneSecond cursor.ts), []⟩
    saveBackfill r next
    return (.again next, ids)
  if ids.all cursor.seen.contains ∧ items.length < 100 then return (.leave maxTs, ids)
  let next : BackfillCursor := ⟨maxTs, ((ids.zip uats).filter fun e => e.2 = maxTs).map (·.1)⟩
  saveBackfill r next
  return (.again next, ids)

def backfillPage (env : Env) (r : Res) (maxPages : Option ℕ) (fuel : ℕ) (p : BackfillPass) :
    Proc (Pass BackfillPass BackfillEnd) := do
  if maxPages.any (· ≤ p.pages) then
    saveBackfill r p.cursor
    return .leave (.unfinished p.applied)
  match ← backfillStep env r fuel p.cursor with
  | (.again next, ids) => return .again ⟨next, p.applied ++ ids, p.pages + 1⟩
  | (.leave ts, ids) => return .leave (.finished ts (p.applied ++ ids))

/-- The end of a keyset backfill, which hands its cursor to the sweep. -/
def finishKeyset (env : Env) (r : Res) (ts : String) : Proc Unit := do
  let now ← nowIso env
  setState r fun st => { st with
    phase := "streaming"
    backfillCompletedAt := some now
    backfillCursorTs := some ts
    reconcileWatermark := ts
    reconcileCursor := ts }

def backfillKeyset (env : Env) (r : Res) (maxPages : Option ℕ) (fuel : ℕ) : Proc ℕ := do
  let st ← state r
  let start : BackfillPass := { cursor := ⟨st.backfillCursorTs.getD "", st.backfillSeenIds⟩ }
  match ← whileTrue .stopped (backfillPage env r maxPages fuel) fuel start with
  | .unfinished applied => return applied.dedup.length
  | .finished ts applied =>
    finishKeyset env r ts
    return applied.dedup.length

/-! ## Plain offset paging -/

/-- `int(text) if text.isdigit() else 0` -/
def digitsOrZero (text : String) : ℕ :=
  if text ≠ "" ∧ text.toList.all Char.isDigit then Nat.ofDigitChars 10 text.toList 0 else 0

structure OffsetPass where
  off : ℕ
  total : ℕ := 0
  pages : ℕ := 0

/-- One page of an offset walk; the status of the answer is not looked at. -/
def offsetStep (env : Env) (r : Res) (source : Source) (off : ℕ) : Proc (Pass ℕ Unit × ℕ) := do
  let resp ← clientGet env (.collection r {
    offset := some off
    includes := r.info.includes })
  let body ← ofPy resp.document
  let data ← ofPy (dataOf body)
  let n ← routePage env resp.status body source
  let items ← ofPy (pyItems data)
  if items.length < 100 then
    setState r fun st => { st with reconcileCursor := "" }
    return (.leave (), n)
  return (.again (off + 100), n)

def offsetPage (env : Env) (r : Res) (source : Source) (maxPages : Option ℕ) (p : OffsetPass) :
    Proc (Pass OffsetPass (Bool × ℕ)) := do
  if maxPages.any (· ≤ p.pages) then
    setState r fun st => { st with reconcileCursor := toString p.off }
    return .leave (false, p.total)
  match ← offsetStep env r source p.off with
  | (.again off, n) => return .again ⟨off, p.total + n, p.pages + 1⟩
  | (.leave (), n) => return .leave (true, p.total + n)

/-- `_offset_page_all` -/
def offsetPageAll (env : Env) (r : Res) (source : Source) (maxPages : Option ℕ) (fuel : ℕ) :
    Proc (Bool × ℕ) := do
  let st ← state r
  whileTrue .stopped (offsetPage env r source maxPages) fuel ⟨digitsOrZero st.reconcileCursor, 0, 0⟩

/-- `_max_uat`: the newest timestamp a table holds, tombstoned rows included. -/
def maxUat (r : Res) : Proc (Option String) :=
  return maxText (((← get).db.tables r).entries.filterMap fun e => e.2.uat)

/-- The end of an offset backfill: the sweep starts from the newest row held. -/
def finishOffset (env : Env) (r : Res) : Proc Unit := do
  let hi := (← maxUat r).getD ""
  let now ← nowIso env
  setState r fun st => { st with
    phase := "streaming"
    backfillCompletedAt := some now
    reconcileWatermark := hi
    reconcileCursor := hi }

def backfillOffset (env : Env) (r : Res) (maxPages : Option ℕ) (fuel : ℕ) : Proc ℕ := do
  let (done, n) ← offsetPageAll env r .backfill maxPages fuel
  if !done then
    setState r fun st => { st with phase := "backfilling" }
    return n
  finishOffset env r
  return n

/-! ## Reference lists -/

structure ReferencePass where
  off : ℕ
  fetched : List Json

def refreshOne (env : Env) (r : Res) (d : Json) : Proc Unit := do
  let id ← ofPy (pyItem d "id" >>= fun _ => idOf d)
  confirmLiveOne env r id d .reconcile
  if r = .fieldDefinition then
    modify fun w => { w with db := reprojectFieldData id w.db }

def referencePage (env : Env) (r : Res) (p : ReferencePass) :
    Proc (Pass ReferencePass (List Json)) := do
  let resp ← clientGet env (.collection r { offset := some p.off })
  let body ← ofPy resp.document
  let data ← ofPy (dataOf body)
  let items ← ofPy (pyItems data)
  forEach (refreshOne env r) items
  let ids ← ofPy (items.mapM itemId)
  if items.length < 100 then return .leave (p.fetched ++ ids)
  return .again ⟨p.off + 100, p.fetched ++ ids⟩

/-- `reference_refresh`: list and replace. -/
def referenceRefresh (env : Env) (r : Res) (fuel : ℕ) : Proc ℕ := do
  let fetched ← whileTrue .stopped (referencePage env r) fuel ⟨0, []⟩
  let held := (← get).db.select r fun _ row => row.live
  forEach (fun id => tombstoneOne env r id none .absent)
    (held.filter fun id => !fetched.contains (.str id))
  return fetched.dedup.length

/-! ## Dispatch -/

def isoIn (env : Env) (seconds : ℕ) : Proc (Option String) :=
  return Iso8601.plusSeconds (← nowIso env) seconds

/-- A nested walk stands in for a backfill of a collection PCO does not list. -/
def backfillWalk (env : Env) (r parent : Res) (maxPages : Option ℕ) (fuel : ℕ) : Proc ℕ := do
  let finish : Proc Unit := do
    let now ← nowIso env
    let next ← isoIn env r.info.incrIntervalS
    setState r fun st => { st with
      phase := "streaming"
      backfillCompletedAt := some now
      nextRunAt := next }
  match maxPages with
  | some budget =>
    let step ← walkRoundStep env r parent budget fuel
    if !step.done then
      setState r fun st => { st with phase := "backfilling" }
      return step.walked
    finish
    return step.walked
  | none =>
    let n ← nestedWalk env r parent .backfill fuel
    finish
    return n

def backfillReference (env : Env) (r : Res) (fuel : ℕ) : Proc ℕ := do
  let n ← referenceRefresh env r fuel
  let now ← nowIso env
  setState r fun st => { st with phase := "streaming", backfillCompletedAt := some now }
  return n

/-- `backfill`: one resource, or one bounded unit of it. -/
def backfill (env : Env) (r : Res) (maxPages : Option ℕ) (fuel : ℕ) : Proc ℕ :=
  match r.info.method, r.info.parent with
  | .nestedWalk, some parent => backfillWalk env r parent maxPages fuel
  | .referencePeriodic, _ => backfillReference env r fuel
  | _, _ =>
    if r.info.supportsUatFilter then backfillKeyset env r maxPages fuel
    else backfillOffset env r maxPages fuel

end PcoMirror
