import PcoMirror.Model.World

/-! The merger log: applying a merge once, from the poll or from a webhook. -/

namespace PcoMirror

open Program

/-- `_merger_is_new` -/
def mergerIsNew (id : String) : Proc Bool :=
  return ((← get).db.row? .personMerger id).isNone

/-- `_record_merger`: `INSERT OR IGNORE`. -/
def recordMerger (env : Env) (id : String) (raw : Json) (source : Source) : Proc Unit := do
  let stamp ← stampNow env source
  modify fun w =>
    if (w.db.row? .personMerger id).isSome then w
    else { w with db := w.db.put .personMerger id (Row.fresh raw stamp) }

/-- One row of a page of mergers; `wm` and `fresh` are the running watermark and
the number of mergers applied. -/
def pollOne (env : Env) (wm : String) (fresh : ℕ) (m : Json) : Proc (String × ℕ) := do
  let a ← ofPy (pyItem m "attributes")
  let createdAt ← ofPy (itemTime "created_at" m)
  let wm := if wm < createdAt then createdAt else wm
  let id ← ofPy (idOf m)
  if !(← mergerIsNew id) then return (wm, fresh)
  let keep := (← ofPy (pyItem a "person_to_keep_id")).pyStr
  let gone := (← ofPy (pyItem a "person_to_remove_id")).pyStr
  tombstoneOne env .person gone none .merged (some keep)
  enqueueHydration env .person keep "merge_survivor"
  -- Recorded last: a crash before this leaves the merge looking new.
  recordMerger env id m .reconcile
  return (wm, fresh + 1)

def pollPage (env : Env) (wm : String) (fresh : ℕ) : List Json → Proc (String × ℕ)
  | [] => return (wm, fresh)
  | m :: ms => do
    let (wm, fresh) ← pollOne env wm fresh m
    pollPage env wm fresh ms

/-- The cursor and the count a poll carries from page to page. -/
structure PollPass where
  wm : String
  applied : ℕ

def pollRound (env : Env) (p : PollPass) : Proc (Pass PollPass ℕ) := do
  let resp ← clientGet env (.collection .personMerger {
    order := some "created_at"
    gte := if p.wm = "" then none else some ("created_at", p.wm) })
  let body ← ofPy resp.document
  let data ← ofPy (dataOf body)
  if !data.truthy then return .leave p.applied
  let items ← ofPy (pyItems data)
  let (wm, fresh) ← pollPage env p.wm 0 items
  setState .personMerger fun st => { st with mergerWatermark := wm }
  -- A full page of known mergers at the watermark would come back for ever.
  if items.length < 100 ∨ (fresh = 0 ∧ wm = p.wm) then return .leave (p.applied + fresh)
  return .again ⟨wm, p.applied + fresh⟩

def mergerPoll (env : Env) (fuel : ℕ) : Proc ℕ := do
  let st ← state .personMerger
  whileTrue .stopped (pollRound env) fuel ⟨st.mergerWatermark, 0⟩

/-- `str(a[key]) if a.get(key) else None`, of the attributes of a webhook payload. -/
def mergePerson (a : Json) (key : String) : Except PyError (Option String) := do
  match ← pyGet a key with
  | some v => return if v.truthy then some v.pyStr else none
  | none => return none

/-- The id of a merger payload, else one made of the two people it names. -/
def mergerId (payload : Json) (keep gone : Option String) : Except PyError String := do
  match ← pyGet payload "id" with
  | some v =>
    if v.truthy then idOf payload
    else return "merge-" ++ keep.getD "None" ++ "-" ++ gone.getD "None"
  | none => return "merge-" ++ keep.getD "None" ++ "-" ++ gone.getD "None"

def handleMerge (env : Env) (payload : Json) : Proc Unit := do
  let a := (← ofPy (pyGet payload "attributes")).getD (.obj [])
  let keep ← ofPy (mergePerson a "person_to_keep_id")
  let gone ← ofPy (mergePerson a "person_to_remove_id")
  let id ← ofPy (mergerId payload keep gone)
  if !(← mergerIsNew id) then return
  whenSome gone fun gone => tombstoneOne env .person gone none .merged keep
  whenSome keep fun keep => enqueueHydration env .person keep "merge_survivor"
  recordMerger env id payload .webhook

/-! ## A merge in pieces -/

/-- A merge to apply, and the document it is recorded with. -/
structure Merge where
  id : String
  keep : String
  gone : String
  raw : Json
  source : Source

/-- The statements that apply a merge, in order. -/
def Merge.steps (env : Env) (m : Merge) : List (Proc Unit) :=
  [tombstoneOne env .person m.gone none .merged (some m.keep),
    enqueueHydration env .person m.keep "merge_survivor",
    recordMerger env m.id m.raw m.source]

/-- An application that is stopped after so many statements. -/
def Merge.upTo (env : Env) (m : Merge) (k : ℕ) : Proc Unit :=
  forEach (fun statement => statement) ((m.steps env).take k)

def Merge.apply (env : Env) (m : Merge) : Proc Unit :=
  forEach (fun statement => statement) (m.steps env)

/-- When a row of a page was created, and its id. -/
def readMerger (d : Json) : Except PyError (String × String) := do
  let _ ← pyItem d "attributes"
  return (← itemTime "created_at" d, ← idOf d)

/-- The merge a row of a page stands for. -/
def polledMerge (id : String) (d : Json) : Except PyError Merge := do
  let a ← pyItem d "attributes"
  return ⟨id, (← pyItem a "person_to_keep_id").pyStr, (← pyItem a "person_to_remove_id").pyStr, d,
    .reconcile⟩

end PcoMirror
