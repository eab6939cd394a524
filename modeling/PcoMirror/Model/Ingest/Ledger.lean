import PcoMirror.Model.Ingest.Walk

/-! The record of walks, as a start of the mirror finds it. -/

namespace PcoMirror

open Program

/-- The parents that the rows of a child collection name, tombstoned rows and all. -/
def Db.namedParents (db : Db) (r : Res) : List String :=
  (db.tables r).entries.filterMap fun e => r.info.parentFk.bind fun fk => r.column fk e.2.raw

/-- Credits every parent a row names, where no parent of the resource is on record. -/
def World.seedLedger (now : String) (w : World) (r : Res) : World :=
  if (w.walks r).entries = [] then
    let named := w.db.namedParents r
    { w with walks := fun u =>
        if u = r then named.eraseDups.foldl (fun t p => t.insert p ⟨now, named.count p⟩) ∅
        else w.walks u }
  else w

/-- The resources whose walks are seeded. -/
def seededResources : List Res :=
  Res.all.filter fun r =>
    r.info.tier ≠ .passthrough && r.info.method = .nestedWalk && r.info.parentFk.isSome

/-- `_seed_walk_ledger` -/
def seedWalkLedger (env : Env) : Proc Unit := do
  let now ← nowIso env
  modify fun w => seededResources.foldl (World.seedLedger now) w

example : seededResources = [.householdMembership, .listResult, .formSubmission] := by decide

end PcoMirror
