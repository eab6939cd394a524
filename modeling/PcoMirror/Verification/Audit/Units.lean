import Mathlib.Data.Prod.Lex
import PcoMirror.Lib.Agreement
import PcoMirror.Verification.Audit.Round

/-! Units of an audit: begun from what the last one saved, with any budgets, they bring the
round to its end. -/

namespace PcoMirror

open Program

variable {d : Directory} {r : Res} {start : Db} {env : Env} {b : World}

/-! ## Between two units -/

/-- A saved round stands where its phase says. -/
def AuditRound.Stands (d : Directory) (r : Res) (start : Db) (round : AuditRound) (w : World) :
    Prop :=
  match round.phase with
  | .enumerate => Enumerating d r start (round.withMode r) w
  | .confirm => Working d r start round.restored w
  | .restore => Working d r start round.restored w ∧ w.scratch r .candidate = []

/-- What is left of a round, by what is saved of it: its phase, and what is left there. -/
def Directory.remaining (d : Directory) (r : Res) (w : World) : ℕ ×ₗ ℕ :=
  match w.auditRound r with
  | none => toLex (3, 0)
  | some round => match round.phase with
    | .enumerate => toLex (2, d.left (round.withMode r))
    | .confirm => toLex (1, (w.scratch r .candidate).length)
    | .restore => toLex (0, (w.scratch r .live).length)

/-- A unit has ended its round, or has left less of it to the next. -/
structure UnitEnd (d : Directory) (r : Res) (start : Db) (b : World) (bound : ℕ ×ₗ ℕ)
    (outcome : AuditOutcome) (w : World) : Prop where
  rows : RowsSince d r start b w
  ended : outcome.done = true → Audited d r start outcome.restored w ∧ w.auditRound r = none
  saved : outcome.done = false → (∃ round, w.auditRound r = some round ∧
    round.Stands d r start w) ∧ d.remaining r w < bound

theorem UnitEnd.mono {bound bound' : ℕ ×ₗ ℕ} {outcome : AuditOutcome} {w : World}
    (h : UnitEnd d r start b bound outcome w) (hle : bound ≤ bound') :
    UnitEnd d r start b bound' outcome w :=
  ⟨h.rows, h.ended, fun hnot => ⟨(h.saved hnot).1, (h.saved hnot).2.trans_le hle⟩⟩

/-- `phase == "restore"`: the last part of a unit. -/
def restorePart (env : Env) (r : Res) (q : ℕ × AuditRound) : Proc AuditOutcome :=
  if q.2.phase = .restore then restore env r q.1 q.2
  else return ⟨false, q.2.tombstoned, q.2.restored⟩

/-- `phase == "confirm"`, and what follows. -/
def confirmPart (env : Env) (r : Res) (q : ℕ × AuditRound) : Proc AuditOutcome := do
  let q ← if q.2.phase = .confirm then do
      let q ← confirm env r q.1 q.2
      saveAuditRound r q.2
      pure q
    else pure q
  restorePart env r q

/-- `phase == "enumerate"`, and what follows. -/
def enumeratePart (env : Env) (r : Res) (budget : ℕ) (round : AuditRound) : Proc AuditOutcome := do
  let q ← if round.phase = .enumerate then do
      let q ← enumerate env r budget (round.withMode r)
      saveAuditRound r q.2
      pure q
    else pure (budget, round)
  confirmPart env r q

theorem deleteAuditStep_eq (env : Env) (r : Res) (budget : ℕ) :
    deleteAuditStep env r budget = (do
      let round ← match (← get).auditRound r with
        | some round => pure round
        | none => startAudit env r
      enumeratePart env r budget round) := rfl

/-! ## One unit -/

theorem toLex_lt_of_lt {i j m n : ℕ} (h : i < j) : (toLex (i, m) : ℕ ×ₗ ℕ) < toLex (j, n) :=
  Prod.Lex.toLex_lt_toLex.mpr (.inl h)

theorem toLex_lt_of_eq {i m n : ℕ} (h : m < n) : (toLex (i, m) : ℕ ×ₗ ℕ) < toLex (i, n) :=
  Prod.Lex.toLex_lt_toLex.mpr (.inr ⟨rfl, h⟩)

theorem spec_restorePart (hserves : d.Serves env r) {m : ℕ} {q : ℕ × AuditRound}
    (hphase : q.2.phase = .restore) :
    Spec (fun w => Restoring d r start b q.2.restored w ∧ w.auditRound r = some q.2 ∧
        (w.scratch r .live).length < m + q.1)
      (restorePart env r q) (UnitEnd d r start b (toLex (0, m))) fun _ _ => False := by
  rw [restorePart, if_pos hphase]
  refine (spec_restore hserves hphase rfl).conseq (fun _ hw => hw) (fun outcome w hw => ?_)
    fun _ _ hw => hw
  rcases hw with ⟨hdone, haudited, hrows, hnone⟩ | ⟨hdone, round, hsaved, hphase', hw, hless⟩
  · exact ⟨hrows, fun _ => ⟨haudited, hnone⟩, fun hnot => absurd (hdone.symm.trans hnot) nofun⟩
  · refine ⟨hw.1.2, fun hended => absurd (hdone.symm.trans hended) nofun, fun _ =>
      ⟨⟨round, hsaved, ?_⟩, ?_⟩⟩
    · rw [AuditRound.Stands, hphase']
      exact ⟨hw.1.1, hw.2⟩
    · rw [Directory.remaining, hsaved]
      simp only [hphase']
      exact toLex_lt_of_eq hless

theorem spec_confirmPart (hserves : d.Serves env r) {m : ℕ} {q : ℕ × AuditRound}
    (hphase : q.2.phase = .confirm) :
    Spec (fun w => Underway d r start b q.2.restored w ∧
        (w.scratch r .candidate).length < m + q.1)
      (confirmPart env r q) (UnitEnd d r start b (toLex (1, m))) fun _ _ => False := by
  rw [confirmPart, if_pos hphase]
  have hsave : ∀ q' : ℕ × AuditRound, Spec (Confirmed d r start b q.2.restored m q')
      (saveAuditRound r q'.2)
      (fun _ w => Confirmed d r start b q.2.restored m q' w ∧ w.auditRound r = some q'.2)
      fun _ _ => False := fun q' =>
    Spec.modify fun w hw => ⟨⟨hw.1.saved q'.2, hw.2.1, hw.2.2⟩, if_pos rfl⟩
  refine Spec.bind (spec_confirm hserves q.2.restored hphase rfl) fun q' =>
    Spec.bind (hsave q') fun _ => ?_
  simp only [pure_bind]
  intro w hw
  obtain ⟨⟨hunderway, hrestored, hcases⟩, hsaved⟩ := hw
  rw [← hrestored] at hunderway
  rcases hcases with ⟨hphase', hcandidate⟩ | ⟨hphase', hless⟩
  · refine ((spec_restorePart hserves hphase').conseq (fun _ hw => hw) (fun _ _ hw => ?_)
      fun _ _ hw => hw) w ⟨⟨hunderway, hcandidate⟩, hsaved, Nat.lt_add_right _ (Nat.lt_succ_self _)⟩
    exact hw.mono (toLex_lt_of_lt Nat.zero_lt_one).le
  · have hnot : ¬ q'.2.phase = .restore := by
      rw [hphase']
      nofun
    rw [restorePart, if_neg hnot]
    refine ⟨hunderway.2, nofun, fun _ => ⟨⟨q'.2, hsaved, ?_⟩, ?_⟩⟩
    · rw [AuditRound.Stands, hphase']
      exact hunderway.1
    · rw [Directory.remaining, hsaved]
      simp only [hphase']
      exact toLex_lt_of_eq hless

theorem spec_enumeratePart (hserves : d.Serves env r) {m budget : ℕ} {round : AuditRound}
    (hphase : round.phase = .enumerate) (hleft : d.left (round.withMode r) < m + budget) :
    Spec (Listing d r start b (round.withMode r)) (enumeratePart env r budget round)
      (UnitEnd d r start b (toLex (2, m))) fun _ _ => False := by
  rw [enumeratePart, if_pos hphase]
  have hsave : ∀ q : ℕ × AuditRound, Spec (Enumerated d r start b m q) (saveAuditRound r q.2)
      (fun _ w => Enumerated d r start b m q w ∧ w.auditRound r = some q.2) fun _ _ => False := by
    refine fun q => Spec.modify fun w hw => ⟨?_, if_pos rfl⟩
    rcases hw with ⟨hunderway, hphase', hrestored⟩ | ⟨hmode, hlisting, hless⟩
    · exact .inl ⟨hunderway.saved q.2, hphase', hrestored⟩
    · exact .inr ⟨hmode, hlisting.saved q.2, hless⟩
  refine Spec.bind (spec_enumerate hserves rfl hleft) fun q => Spec.bind (hsave q) fun _ => ?_
  simp only [pure_bind]
  intro w hw
  obtain ⟨hcases, hsaved⟩ := hw
  rcases hcases with ⟨hunderway, hphase', hrestored⟩ | ⟨hmode, hlisting, hless⟩
  · rw [← hrestored] at hunderway
    refine ((spec_confirmPart hserves hphase').conseq (fun _ hw => hw) (fun _ _ hw => ?_)
      fun _ _ hw => hw) w ⟨hunderway, Nat.lt_add_right _ (Nat.lt_succ_self _)⟩
    exact hw.mono (toLex_lt_of_lt (by decide)).le
  · have hphase' : q.2.phase = .enumerate := hlisting.1.phase
    have hconfirm : ¬ q.2.phase = .confirm := by
      rw [hphase']
      nofun
    have hrestore : ¬ q.2.phase = .restore := by
      rw [hphase']
      nofun
    simp only [confirmPart, if_neg hconfirm, pure_bind, restorePart, if_neg hrestore]
    refine ⟨hlisting.2, nofun, fun _ => ⟨⟨q.2, hsaved, ?_⟩, ?_⟩⟩
    · rw [AuditRound.Stands, hphase', AuditRound.withMode_of_some hmode]
      exact hlisting.1
    · rw [Directory.remaining, hsaved]
      simp only [hphase', AuditRound.withMode_of_some hmode]
      exact toLex_lt_of_eq hless

/-- A round that has not begun, or that stands where it has been saved. -/
def Due (d : Directory) (r : Res) (start : Db) (w : World) : Prop :=
  (w.auditRound r = none ∧ w.db = start ∧ w.tombstones = [] ∧ w.confirmations = []) ∨
    ∃ round, w.auditRound r = some round ∧ round.Stands d r start w

theorem spec_startAudit (d : Directory) :
    Spec (fun w => w = b ∧ w.db = start ∧ w.tombstones = [] ∧ w.confirmations = [])
      (startAudit env r)
      (fun round w => round = {} ∧ Listing d r start b (({} : AuditRound).withMode r) w)
      fun _ _ => False := by
  rintro w ⟨rfl, rfl, htombstones, hconfirmations⟩
  refine ⟨rfl, ⟨rfl, rfl, ?_, ?_, passed_start ?_ ?_ ?_, htombstones, hconfirmations⟩,
    fun _ => .inl rfl, fun _ h hnot => absurd h hnot, fun _ h hnot => absurd h hnot⟩
  · exact congrFun (if_pos rfl) _
  · exact congrFun (if_pos rfl) _
  · intro id hid
    change id ∈ (if r = r then _ else _ : ScratchKind → List String) .live at hid
    rw [if_pos rfl] at hid
    cases hid
  · simp [AuditRound.query, AuditRound.withMode]
  · simp [AuditRound.position_eq, AuditRound.withMode]

/-- A unit goes on with a saved round in its phase. -/
theorem spec_resume (hserves : d.Serves env r) {budget : ℕ} (hbudget : 1 ≤ budget)
    {round : AuditRound} (hround : b.auditRound r = some round)
    (hstands : round.Stands d r start b) :
    Spec (fun w => w = b) (enumeratePart env r budget round)
      (UnitEnd d r start b (d.remaining r b)) fun _ _ => False := by
  rintro w rfl
  have hrefl : RowsSince d r start w w := .refl w
  cases hphase : round.phase with
  | enumerate =>
      rw [AuditRound.Stands, hphase] at hstands
      have hremaining : d.remaining r w = toLex (2, d.left (round.withMode r)) := by
        simp only [Directory.remaining, hround, hphase]
      rw [hremaining]
      exact spec_enumeratePart hserves hphase (Nat.lt_add_of_pos_right hbudget) w ⟨hstands, hrefl⟩
  | confirm =>
      rw [AuditRound.Stands, hphase] at hstands
      have hremaining : d.remaining r w = toLex (1, (w.scratch r .candidate).length) := by
        simp only [Directory.remaining, hround, hphase]
      have hnot : ¬ round.phase = .enumerate := by
        rw [hphase]
        nofun
      rw [hremaining]
      simp only [enumeratePart, if_neg hnot, pure_bind]
      exact spec_confirmPart hserves (q := (budget, round)) hphase w
        ⟨⟨hstands, hrefl⟩, Nat.lt_add_of_pos_right hbudget⟩
  | restore =>
      rw [AuditRound.Stands, hphase] at hstands
      have hremaining : d.remaining r w = toLex (0, (w.scratch r .live).length) := by
        simp only [Directory.remaining, hround, hphase]
      have hnot : ¬ round.phase = .enumerate := by
        rw [hphase]
        nofun
      have hnot' : ¬ round.phase = .confirm := by
        rw [hphase]
        nofun
      rw [hremaining]
      simp only [enumeratePart, if_neg hnot, pure_bind, confirmPart, if_neg hnot']
      exact spec_restorePart hserves (q := (budget, round)) hphase w
        ⟨⟨⟨hstands.1, hrefl⟩, hstands.2⟩, hround, Nat.lt_add_of_pos_right hbudget⟩

/-- One unit begins a round, or goes on with it from wherever it stands. -/
theorem spec_deleteAuditStep (hserves : d.Serves env r) {budget : ℕ} (hbudget : 1 ≤ budget)
    (hdue : Due d r start b) :
    Spec (fun w => w = b) (deleteAuditStep env r budget)
      (UnitEnd d r start b (d.remaining r b)) fun _ _ => False := by
  rw [deleteAuditStep_eq]
  refine Spec.bind (R := fun w' w => w' = b ∧ w = b) (Spec.get fun w hw => ⟨hw, hw⟩) fun w' => ?_
  rintro w ⟨rfl, rfl⟩
  rcases hdue with ⟨hnone, hstart⟩ | ⟨round, hround, hstands⟩
  · rw [hnone]
    refine Spec.bind (spec_startAudit d) (fun round => ?_) w ⟨rfl, hstart⟩
    rintro w' ⟨rfl, hw'⟩
    refine ((spec_enumeratePart hserves rfl (Nat.lt_add_right _ (Nat.lt_succ_self _))).conseq
      (fun _ hw => hw) (fun _ _ hw => hw.mono ?_) fun _ _ hw => hw) w' hw'
    rw [Directory.remaining, hnone]
    exact (toLex_lt_of_lt (by decide)).le
  · rw [hround]
    simp only [pure_bind]
    exact spec_resume hserves hbudget hround hstands w rfl

/-! ## Any sequence of units -/

/-- One call of the audit, and what the rest of the process does before the next. -/
structure AuditCall where
  budget : ℕ
  meanwhile : World → World

/-- The rest of the process leaves the saved state of the audit to the audit. -/
def AuditCall.Leaves (call : AuditCall) (r : Res) : Prop :=
  ∀ w, (call.meanwhile w).auditRound r = w.auditRound r ∧ (call.meanwhile w).scratch r = w.scratch r

/-- One unit and what follows it; the record keeps what the audit does alone. -/
def auditUnit (env : Env) (r : Res) (w : World) (call : AuditCall) : World :=
  let after := w.after (deleteAuditStep env r call.budget)
  { call.meanwhile after with log := after.log }

/-- The state a sequence of calls has reached before one of them. -/
def auditAt (env : Env) (r : Res) (w : World) (calls : ℕ → AuditCall) (j : ℕ) : World :=
  Run.exec (auditUnit env r) w ((List.range j).map calls)

theorem AuditRound.Stands.carry {round : AuditRound} {w w' : World}
    (hw : round.Stands d r start w) (h : SameAccount r w w') : round.Stands d r start w' := by
  cases hphase : round.phase with
  | enumerate =>
      rw [AuditRound.Stands, hphase] at hw ⊢
      exact hw.carry h
  | confirm =>
      rw [AuditRound.Stands, hphase] at hw ⊢
      exact hw.carry h
  | restore =>
      rw [AuditRound.Stands, hphase] at hw ⊢
      exact ⟨hw.1.carry h, by rw [h.scratch, hw.2]⟩

/-- What a call of the audit brings about in the state it finds. -/
structure Answered (d : Directory) (env : Env) (r : Res) (start : Db) (w : World)
    (call : AuditCall) (outcome : AuditOutcome) (after : World) : Prop where
  run : (deleteAuditStep env r call.budget).run w = .ok outcome after
  rows : RowsSince d r start w after
  untouched : ∀ id row, start.row? r id = some row → row.live = false →
    after.db.row? r id = w.db.row? r id
  spared : ∀ id, start.row? r id = none → w.db.isLive r id = true → after.db.isLive r id = true

/-- A call that ends the round, with all it owed. -/
def Ends (d : Directory) (env : Env) (r : Res) (start : Db) (w : World) (call : AuditCall) : Prop :=
  ∃ outcome after, Answered d env r start w call outcome after ∧ outcome.done = true ∧
    Audited d r start outcome.restored after

/-- A call that leaves the round to the next. -/
def Goes (d : Directory) (env : Env) (r : Res) (start : Db) (w : World) (call : AuditCall) : Prop :=
  ∃ outcome after, Answered d env r start w call outcome after ∧ outcome.done = false

theorem Due.call (hserves : d.Serves env r) {w : World} (hdue : Due d r start w) {call : AuditCall}
    (hbudget : 1 ≤ call.budget) (hleaves : call.Leaves r) :
    Ends d env r start w call ∨ Goes d env r start w call ∧
      Due d r start (auditUnit env r w call) ∧
      d.remaining r (auditUnit env r w call) < d.remaining r w := by
  obtain ⟨outcome, after, hrun, hend⟩ := (spec_deleteAuditStep hserves hbudget hdue).returns rfl
  have hanswered : Answered d env r start w call outcome after :=
    ⟨hrun, hend.rows, fun _ _ => hend.rows.untouched, fun _ => hend.rows.spared⟩
  cases hdone : outcome.done with
  | true => exact .inl ⟨outcome, after, hanswered, hdone, (hend.ended hdone).1⟩
  | false =>
      obtain ⟨⟨round, hround, hstands⟩, hless⟩ := hend.saved hdone
      obtain ⟨hround', hscratch⟩ := hleaves after
      rw [auditUnit, World.after_of_run hrun]
      refine .inr ⟨⟨outcome, after, hanswered, hdone⟩,
        .inr ⟨round, hround'.trans hround, hstands.carry ⟨rfl, rfl, hscratch⟩⟩, ?_⟩
      have hsame : d.remaining r { call.meanwhile after with log := after.log } =
          d.remaining r after := by
        simp only [Directory.remaining, hround', hscratch]
      rw [hsame]
      exact hless

/-- However its units are cut, and whatever the process does between them, an audit of a
collection that stands still comes to its end; it has tombstoned the records that were live,
are not listed and answer `404`, restored unknown ones up to the limit, and left every row
that was tombstoned before as it found it. -/
theorem audit_correct (r : Res) (d : Directory) (env : Env) (hserves : d.Serves env r) (w : World)
    (hnone : w.auditRound r = none) (hlog : w.log = []) (calls : ℕ → AuditCall)
    (hcalls : ∀ i, 1 ≤ (calls i).budget ∧ (calls i).Leaves r) :
    ∃ k, Ends d env r w.db (auditAt env r w calls k) (calls k) ∧
      ∀ j < k, Goes d env r w.db (auditAt env r w calls j) (calls j) := by
  have hstart : Due d r w.db w := by
    refine .inl ⟨hnone, rfl, ?_, ?_⟩
    · rw [World.tombstones, hlog]
      rfl
    · rw [World.confirmations, hlog]
      rfl
  have hstep : ∀ n v call, (Due d r w.db v ∧ d.remaining r v = n) →
      (1 ≤ call.budget ∧ call.Leaves r) →
      Ends d env r w.db v call ∨ Goes d env r w.db v call ∧ ∃ m < n,
        Due d r w.db (auditUnit env r v call) ∧ d.remaining r (auditUnit env r v call) = m := by
    rintro n v call ⟨hdue, rfl⟩ hcall
    exact (hdue.call hserves hcall.1 hcall.2).imp id fun hgoes =>
      ⟨hgoes.1, _, hgoes.2.2, hgoes.2.1, rfl⟩
  exact Run.exists_ends_of_descent _ _ hstep ⟨hstart, rfl⟩ calls hcalls

/-! A directory that lists one person, to a mirror that holds another. -/

def Directory.document (e : String × String) : Json :=
  .obj [("id", .str e.1), ("attributes", .obj [("created_at", .str e.2)])]

/-- A PCO that serves a directory, and each of its records without includes. -/
def Directory.serve (d : Directory) : Env where
  respond := fun _ request => match request with
    | .collection _ q => .ok ⟨200, .json (.obj [("data", .arr ((d.page q).map document))])⟩
    | .record _ id _ =>
      if d.absent id then .ok ⟨404, .empty⟩
      else .ok ⟨200, .json (.obj [("data", document (id, ""))])⟩
    | .nested .. => .error .transportError
  now := fun _ => "2024-03-02T00:00:00Z"
  apiVersion := "2024-01-31"

theorem Directory.serve_serves (d : Directory) (r : Res) : d.Serves d.serve r where
  listing := fun _ q _ => ⟨200, _, _, rfl, by decide, by decide, rfl,
    List.forall₂_map_left_iff.mpr (List.forall₂_same.mpr fun _ _ => ⟨rfl, rfl⟩)⟩
  absent := fun _ _ _ habsent => ⟨.empty, if_pos habsent⟩
  present := fun _ _ _ hpresent =>
    ⟨_, _, [], if_neg (by rw [hpresent]; nofun), rfl, rfl, rfl, nofun⟩

/-- One person is listed; everybody else is gone. -/
def onlyFirst : Directory where
  entries := [("1", "2024-03-01T00:00:00Z")]
  honours := true
  sorted := List.pairwise_singleton _ _
  absent := fun id => id ≠ "1"

/-- A mirror that holds a person who is not listed. -/
def holdsSecond : World where
  db := Db.empty.put .person "2" (Row.fresh (.obj [("id", .str "2")])
    ⟨.backfill, "2024-01-31", "2024-03-01T00:00:00Z"⟩)

theorem audit_correct_onlyFirst :
    ∃ k outcome after, (deleteAuditStep onlyFirst.serve .person 1).run
        (auditAt onlyFirst.serve .person holdsSecond (fun _ => ⟨1, id⟩) k) = .ok outcome after ∧
      outcome.done = true ∧ (.person, "2", .auditAbsent) ∈ after.tombstones := by
  obtain ⟨k, ⟨outcome, after, hanswered, hdone, haudited⟩, -⟩ :=
    audit_correct .person onlyFirst onlyFirst.serve (onlyFirst.serve_serves .person) holdsSecond rfl
      rfl (fun _ => ⟨1, id⟩) fun _ => ⟨le_rfl, fun _ => ⟨rfl, rfl⟩⟩
  have hlost : Lost onlyFirst .person holdsSecond.db "2" := by
    refine ⟨?_, by decide⟩
    rw [Db.isLive_iff]
    exact ⟨_, Db.row?_put_self _ _ _ _, rfl⟩
  exact ⟨k, outcome, after, hanswered.run, hdone,
    (haudited.tombstones .person "2" .auditAbsent).mpr ⟨rfl, rfl, hlost, rfl⟩⟩

end PcoMirror
