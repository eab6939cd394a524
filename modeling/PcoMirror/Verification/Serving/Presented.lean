import PcoMirror.Lib.Run
import PcoMirror.Verification.Serving.Earning
import PcoMirror.Verification.Serving.Edges

/-! Unknown is not empty: which walked collections an answer may present, over every run of the
mirror's operations. -/

namespace PcoMirror

open Program

/-! ## Starts -/

theorem seedLedger_db (now : String) (w : World) (r : Res) : (w.seedLedger now r).db = w.db := by
  unfold World.seedLedger
  split_ifs <;> rfl

theorem seedLedger_log (now : String) (w : World) (r : Res) :
    (w.seedLedger now r).log = w.log := by
  unfold World.seedLedger
  split_ifs <;> rfl

/-- What the mirror is called to do. -/
inductive MirrorCall where
  | start (env : Env)
  | backfill (env : Env) (r : Res) (maxPages : Option ℕ) (fuel : ℕ)
  | sweep (env : Env) (r : Res) (fuel : ℕ)
  | walkRound (env : Env) (r : Res) (budget fuel : ℕ)
  | audit (env : Env) (r : Res) (budget : ℕ)
  | askAudit (env : Env) (r : Res) (source : AuditSource)
  | hydrate (env : Env) (r : Res) (id : String) (includes : List String)
  | hydrations (env : Env) (limit : ℕ)
  | repairSplit (env : Env) (limit minAgeSeconds : ℕ)
  | repairDangling (env : Env) (r : Res) (limit minAgeSeconds : ℕ)
  | poll (env : Env) (fuel : ℕ)
  | receive (edge : Edge) (env : Env) (post : Post)
  | drain (env : Env) (limit : ℕ)
  | retryDead
  | write (env : Env) (transport : Transport) (site : Site) (fuel : ℕ)
      (scopes : Except String (List String)) (method : Mutation) (path : String) (body : Body)
  | read (env : Env) (transport : Transport) (site : Site) (u : Unicode) (fuel : ℕ)
      (scopes : Except String (List String)) (path : String) (qs : Qs) (body : Body)

namespace MirrorCall

def perform (w : World) : MirrorCall → World
  | .start env => w.after (seedWalkLedger env)
  | .backfill env r maxPages fuel => w.after (PcoMirror.backfill env r maxPages fuel)
  | .sweep env r fuel => w.after (incrementalSweep env r fuel)
  | .walkRound env r budget fuel => match r.info.parent with
    | some parent => w.after (walkRoundStep env r parent budget fuel)
    | none => w
  | .audit env r budget => w.after (deleteAuditStep env r budget)
  | .askAudit env r source => w.after (requestAudit env r source)
  | .hydrate env r id includes => w.after (PcoMirror.hydrate env r id includes)
  | .hydrations env limit => w.after (drainHydration env limit)
  | .repairSplit env limit minAgeSeconds => w.after (repairSplitEdges env limit minAgeSeconds)
  | .repairDangling env r limit minAgeSeconds =>
    w.after (PcoMirror.repairDangling env r limit minAgeSeconds)
  | .poll env fuel => w.after (mergerPoll env fuel)
  | .receive edge env post => w.after (PcoMirror.receive edge env post)
  | .drain env limit => w.after (PcoMirror.drain env limit)
  | .retryDead => w.after retryDeadLetters
  | .write env transport site fuel scopes method path body =>
    (final (serveWrite env transport site fuel scopes method path body) { world := w }).world
  | .read env transport site u fuel scopes path qs body =>
    (final (serveRead env transport site u fuel scopes path qs body) { world := w }).world

/-- The walked collections of live parents that the call's answer presents, where it is a read that
is answered with `200`. -/
def presents (w : World) : MirrorCall → List Presented
  | .read env transport site u fuel scopes path qs body =>
    match (serveRead env transport site u fuel scopes path qs body).run { world := w } with
    | .ok reply x => if reply.status = 200 then x.presented else []
    | .error _ _ => []
  | _ => []

end MirrorCall

theorem Earns.after {α : Type} {m : Proc α} (h : Earns m) {w : World} (hw : w.Credited []) :
    (w.after m).Credited [] := by
  have hkept := h [] w hw
  unfold World.after
  split at hkept <;> simp_all [EStateM.run]

/-- An answer of `404`. -/
def Entry.missing : Entry → Bool
  | .exchange _ (.ok resp) => resp.status = 404
  | _ => false

end PcoMirror
