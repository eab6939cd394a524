import PcoMirror.Lib.Run
import PcoMirror.Model.Ingest.AuditRequest
import PcoMirror.Verification.Writer.Frame

/-! Requests for an audit: which round clears them, and what takes their place. -/

namespace PcoMirror

open Program

/-! ## What a request is owed -/

/-- Nothing has been asked for since the last round started, or since the last was cleared. -/
def NoneAsked : List AuditEvent → Prop
  | [] | .started :: _ | .cleared :: _ => True
  | .requested .. :: _ => False

/-- Whatever a round has cleared was asked for before it started. -/
def NotLost (history : List AuditEvent) : Prop :=
  ∀ newer older, history = newer ++ .cleared :: older → NoneAsked older

/-- No drift request was written over an operator's. -/
def NotDemoted (history : List AuditEvent) : Prop :=
  .requested .drift (some AuditSource.operator.text) ∉ history

variable {r : Res} {history : List AuditEvent} {e : AuditEvent}

theorem NotLost.cons (h : NotLost history) (he : e = .cleared → NoneAsked history) :
    NotLost (e :: history) := by
  intro newer older heq
  cases newer with
  | nil =>
      obtain ⟨rfl, rfl⟩ := List.cons.inj heq
      exact he rfl
  | cons e' newer => exact h newer older (List.cons.inj heq).2

theorem NotDemoted.cons (h : NotDemoted history)
    (he : e ≠ .requested .drift (some AuditSource.operator.text)) : NotDemoted (e :: history) := by
  intro hmem
  rcases List.mem_cons.mp hmem with heq | hmem
  · exact he heq.symm
  · exact h hmem

/-! ## The key -/

theorem firstWord_text (source : AuditSource) (now : String) :
    firstWord (source.text ++ " " ++ now) = source.text := by
  cases source <;> simp [firstWord, AuditSource.text, String.toList_append]

/-- What is read of a request that has been written. -/
theorem auditSource_ask (w : World) (r : Res) (source : AuditSource) (now : String) :
    (w.ask r source now).auditSource r = some source.text := by
  have hne : source.text ++ " " ++ now ≠ "" := by
    cases source <;> simp [AuditSource.text, String.append_eq_empty_iff]
  simp [World.auditSource, World.ask, hne, firstWord_text]

theorem operatorAsked_ask_drift (w : World) (r : Res) (now : String) :
    (w.ask r .drift now).operatorAsked r = false := by
  rw [World.operatorAsked, auditSource_ask]
  decide

/-- What is pending depends on the key alone. -/
theorem operatorAsked_congr {w w' : World} (h : w'.auditRequest = w.auditRequest) :
    w'.operatorAsked r = w.operatorAsked r := by
  rw [World.operatorAsked, World.operatorAsked, World.auditSource, World.auditSource, h]

/-! ## A round at work -/

/-- However the program ends, no request has been written or cleared. -/
def LeavesRequests {α : Type} (m : Proc α) : Prop :=
  ∀ requests, Keeps (fun w => w.auditRequest = requests) m

variable {α β : Type}

theorem Writing.leavesRequests {m : Proc α} (h : Writing m) : LeavesRequests m := by
  intro requests
  refine h.keeps ?_
  rintro w w' ⟨db, tick, entries, rfl⟩ hw
  exact hw

theorem LeavesRequests.bind {m : Proc α} {f : α → Proc β} (hm : LeavesRequests m)
    (hf : ∀ a, LeavesRequests (f a)) : LeavesRequests (m >>= f) :=
  fun requests => Keeps.bind (hm requests) fun a => hf a requests

theorem leavesRequests_pure (a : α) : LeavesRequests (pure a : Proc α) :=
  (writing_pure a).leavesRequests

theorem LeavesRequests.ite {c : Prop} [Decidable c] {m m' : Proc α} (h : LeavesRequests m)
    (h' : LeavesRequests m') : LeavesRequests (if c then m else m') :=
  fun requests => Spec.ite (fun _ => h requests) fun _ => h' requests

theorem leavesRequests_modify {f : World → World} (h : ∀ w, (f w).auditRequest = w.auditRequest) :
    LeavesRequests (modify f : Proc PUnit) :=
  fun _ => Keeps.modify fun w hw => (h w).trans hw

theorem leavesRequests_saveAuditRound (r : Res) (round : AuditRound) :
    LeavesRequests (saveAuditRound r round) :=
  leavesRequests_modify fun _ => rfl

theorem leavesRequests_addScratch (r : Res) (kind : ScratchKind) (id : String) :
    LeavesRequests (addScratch r kind id) :=
  leavesRequests_modify fun _ => rfl

theorem leavesRequests_dropScratch (r : Res) (kind : ScratchKind) (gone : List String) :
    LeavesRequests (dropScratch r kind gone) :=
  leavesRequests_modify fun _ => rfl

theorem leavesRequests_enumeratePage (env : Env) (r : Res) (round : AuditRound) :
    LeavesRequests (enumeratePage env r round) := by
  refine (writing_clientGet env _).leavesRequests.bind fun resp =>
    (writing_ofPy _).leavesRequests.bind fun body =>
    (writing_ofPy _).leavesRequests.bind fun data =>
    (writing_ofPy _).leavesRequests.bind fun items => ?_
  refine LeavesRequests.bind (fun requests => Keeps.forEach items fun d _ => ?_) fun _ => ?_
  · exact ((writing_ofPy _).leavesRequests.bind fun id => leavesRequests_addScratch r .live id)
      requests
  · refine (writing_ofPy _).leavesRequests.bind fun turned => ?_
    cases turned with
    | none => exact (leavesRequests_saveAuditRound r _).bind fun _ => leavesRequests_pure _
    | some round =>
        refine LeavesRequests.ite ?_ ?_
        · refine LeavesRequests.bind ?_ fun _ => leavesRequests_pure _
          exact writing_get.leavesRequests.bind fun _ =>
            (leavesRequests_dropScratch r _ _).bind fun _ =>
              writing_get.leavesRequests.bind fun _ => leavesRequests_dropScratch r _ _
        · exact (leavesRequests_saveAuditRound r _).bind fun _ => leavesRequests_pure _

theorem leavesRequests_enumerate (env : Env) (r : Res) (left : ℕ) (round : AuditRound) :
    LeavesRequests (enumerate env r left round) := by
  induction left generalizing round with
  | zero => exact leavesRequests_pure _
  | succ left ih =>
      refine (leavesRequests_enumeratePage env r round).bind fun pass => ?_
      cases pass with
      | again round => exact ih round
      | leave round => exact leavesRequests_pure _

theorem writing_confirmCandidate (env : Env) (r : Res) (id : String) (round : AuditRound) :
    Writing (confirmCandidate env r id round) := by
  refine (writing_clientGet env _).bind fun resp => Writing.ite (fun _ => ?_) fun _ => ?_
  · exact (writing_tombstoneOne env r id _ _ _).bind fun _ => writing_pure _
  · refine Writing.ite (fun _ => ?_) fun _ => writing_pure _
    exact (writing_ofPy _).bind fun record =>
      (Writing.whenSome (fun record => writing_confirmLiveOne env r id record _) record).bind
        fun _ => writing_pure _

theorem leavesRequests_confirm (env : Env) (r : Res) (left : ℕ) (round : AuditRound) :
    LeavesRequests (confirm env r left round) := by
  induction left generalizing round with
  | zero => exact leavesRequests_pure _
  | succ left ih =>
      refine (writing_get.bind fun _ => writing_pure _).leavesRequests.bind fun next => ?_
      cases next with
      | none => exact leavesRequests_pure _
      | some id =>
          exact (writing_confirmCandidate env r id round).leavesRequests.bind fun round =>
            (leavesRequests_dropScratch r _ _).bind fun _ =>
              (leavesRequests_saveAuditRound r _).bind fun _ => ih round

theorem writing_restoreOne (env : Env) (r : Res) (id : String) : Writing (restoreOne env r id) := by
  refine (writing_clientGet env _).bind fun resp => Writing.ite (fun _ => writing_pure _) fun _ => ?_
  refine (writing_ofPy _).bind fun record => ?_
  cases record with
  | none => exact writing_pure _
  | some record =>
      exact (writing_ofPy _).bind fun body => (writing_ofPy _).bind fun included =>
        (writing_routePage env _ _ _ _ _).bind fun _ =>
          (writing_confirmLiveOne env r id record _).bind fun _ => writing_pure _

theorem leavesRequests_restoreWork (env : Env) (r : Res) (left : ℕ) (round : AuditRound) :
    LeavesRequests (restoreWork env r left round) := by
  induction left generalizing round with
  | zero => exact leavesRequests_pure _
  | succ left ih =>
      refine (writing_get.bind fun _ => writing_pure _).leavesRequests.bind fun next => ?_
      cases next with
      | none => exact leavesRequests_pure _
      | some id =>
          refine LeavesRequests.ite ?_ (leavesRequests_pure _)
          exact (writing_restoreOne env r id).leavesRequests.bind fun restored =>
            (leavesRequests_dropScratch r _ _).bind fun _ =>
              (leavesRequests_saveAuditRound r _).bind fun _ => ih _

/-- A round at work leaves the requests alone. -/
theorem leavesRequests_auditWork (env : Env) (r : Res) (budget : ℕ) (round : AuditRound) :
    LeavesRequests (auditWork env r budget round) := by
  have hrestore : ∀ left round, LeavesRequests (if round.phase = .restore then
      restoreWork env r left round else pure ⟨false, round.tombstoned, round.restored⟩) :=
    fun left round => LeavesRequests.ite (leavesRequests_restoreWork env r left round)
      (leavesRequests_pure _)
  unfold auditWork
  simp only [pure_bind]
  refine LeavesRequests.ite ?_ (LeavesRequests.ite ?_ (hrestore _ _))
  · refine (leavesRequests_enumerate env r _ _).bind fun p =>
      (leavesRequests_saveAuditRound r _).bind fun _ => LeavesRequests.ite ?_ (hrestore _ _)
    exact (leavesRequests_confirm env r _ _).bind fun q =>
      (leavesRequests_saveAuditRound r _).bind fun _ => hrestore _ _
  · exact (leavesRequests_confirm env r _ _).bind fun q =>
      (leavesRequests_saveAuditRound r _).bind fun _ => hrestore _ _

/-! ## Steps -/

/-- A round has started, and has not cleared the request yet. -/
def AuditDesk.InRound (d : AuditDesk) (r : Res) : Prop :=
  match d.stage with
  | .idle => (d.world.auditRound r).isSome = true
  | .working _ | .finishing => True
  | .cleared => False

/-- The condition on a step: no request is made between the start of a round and its
clearing, and no operator asks between a drift request's reading and its writing. -/
def AuditOp.Heeded (r : Res) (d : AuditDesk) : AuditOp → Prop
  | .operator _ => ¬ d.InRound r ∧ d.drifting = []
  | .driftRead _ => d.world.operatorAsked r = true → ¬ d.InRound r
  | .driftWrite _ call => call ∈ d.drifting → ¬ d.InRound r
  | .begin _ | .work .. | .clear _ | .finish => True

structure AuditDesk.Safe (d : AuditDesk) (r : Res) : Prop where
  notLost : NotLost d.history
  notDemoted : NotDemoted d.history
  answered : d.InRound r → NoneAsked d.history
  drifting : d.drifting ≠ [] → d.world.operatorAsked r = false

variable {d : AuditDesk} {env : Env}

theorem AuditDesk.Safe.operator (h : d.Safe r) (hheeded : (AuditOp.operator env).Heeded r d) :
    (d.request env r .operator).Safe r where
  notLost := h.notLost.cons nofun
  notDemoted := h.notDemoted.cons (by simp)
  answered := fun hround => absurd hround hheeded.1
  drifting := fun hdrifting => absurd hheeded.2 hdrifting

theorem AuditDesk.Safe.driftRead (h : d.Safe r) {call : ℕ}
    (hheeded : (AuditOp.driftRead call).Heeded r d) : (d.driftRead r call).Safe r := by
  unfold AuditDesk.driftRead
  split_ifs with hasked
  · exact ⟨h.notLost.cons nofun, h.notDemoted.cons (by simp),
      fun hround => absurd hround (hheeded hasked), h.drifting⟩
  · exact ⟨h.notLost, h.notDemoted, h.answered, fun _ => by simpa using hasked⟩

theorem AuditDesk.Safe.driftWrite (h : d.Safe r) {call : ℕ}
    (hheeded : (AuditOp.driftWrite env call).Heeded r d) : (d.driftWrite env r call).Safe r := by
  unfold AuditDesk.driftWrite
  split_ifs with hcall
  · refine ⟨h.notLost.cons nofun, h.notDemoted.cons ?_, fun hround => absurd hround (hheeded hcall),
      fun _ => operatorAsked_ask_drift ..⟩
    intro heq
    have hnot := h.drifting (List.ne_nil_of_mem hcall)
    simp [World.operatorAsked, (AuditEvent.requested.inj heq).2] at hnot
  · exact h

theorem AuditDesk.Safe.begin (h : d.Safe r) (env : Env) : (d.begin env r).Safe r := by
  unfold AuditDesk.begin
  cases hstage : d.stage with
  | idle =>
      cases hround : d.world.auditRound r with
      | some round =>
          refine ⟨h.notLost, h.notDemoted, fun _ => h.answered ?_, h.drifting⟩
          simp [AuditDesk.InRound, hstage, hround]
      | none => exact ⟨h.notLost.cons nofun, h.notDemoted.cons nofun, fun _ => trivial, h.drifting⟩
  | _ => exact h

theorem AuditDesk.Safe.work (h : d.Safe r) (env : Env) (budget : ℕ) :
    (d.work env r budget).Safe r := by
  unfold AuditDesk.work
  cases hstage : d.stage with
  | working round =>
      have hanswered : NoneAsked d.history := h.answered (by simp [AuditDesk.InRound, hstage])
      have hkept := leavesRequests_auditWork env r budget round d.world.auditRequest d.world rfl
      simp only
      cases hrun : (auditWork env r budget round).run d.world with
      | ok outcome w =>
          rw [hrun] at hkept
          exact ⟨h.notLost, h.notDemoted, fun _ => hanswered,
            fun hdrifting => (operatorAsked_congr hkept).trans (h.drifting hdrifting)⟩
      | error e w =>
          rw [hrun] at hkept
          exact ⟨h.notLost, h.notDemoted, fun _ => hanswered,
            fun hdrifting => (operatorAsked_congr hkept).trans (h.drifting hdrifting)⟩
  | _ => exact h

theorem AuditDesk.Safe.clear (h : d.Safe r) (env : Env) : (d.clear env r).Safe r := by
  unfold AuditDesk.clear
  cases hstage : d.stage with
  | finishing =>
      have hanswered : NoneAsked d.history := h.answered (by simp [AuditDesk.InRound, hstage])
      refine ⟨h.notLost.cons fun _ => hanswered, h.notDemoted.cons nofun, fun _ => trivial, fun _ => ?_⟩
      have hnone : (d.world.after (clearAudit env r)).auditRequest r = none := by
        change (if r = r then none else _) = none
        rw [if_pos rfl]
      simp [World.operatorAsked, World.auditSource, hnone]
  | _ => exact h

theorem AuditDesk.Safe.finish (h : d.Safe r) : (d.finish r).Safe r := by
  unfold AuditDesk.finish
  cases hstage : d.stage with
  | cleared =>
      refine ⟨h.notLost, h.notDemoted, fun hround => ?_, h.drifting⟩
      simp [AuditDesk.InRound, World.endRound] at hround
  | _ => exact h

/-- A step under the condition keeps the requests safe. -/
theorem AuditDesk.Safe.apply (h : d.Safe r) {op : AuditOp} (hheeded : op.Heeded r d) :
    (d.apply r op).Safe r := by
  cases op with
  | operator env => exact h.operator hheeded
  | driftRead call => exact h.driftRead hheeded
  | driftWrite env call => exact h.driftWrite hheeded
  | begin env => exact h.begin env
  | work env budget => exact h.work env budget
  | clear env => exact h.clear env
  | finish => exact h.finish

/-! ## Calls as runs -/

/-- `request_audit` with nothing in between is a run of its steps. -/
theorem requestAudit_exec (env : Env) (source : AuditSource) (d : AuditDesk) (call : ℕ)
    (hfree : call ∉ d.drifting) : ∃ ops : List AuditOp,
      ops ⊆ [.operator env, .driftRead call, .driftWrite env call] ∧
      (Run.exec (AuditDesk.apply r) d ops).world = d.world.after (requestAudit env r source) := by
  cases source with
  | operator => exact ⟨[.operator env], by simp, rfl⟩
  | drift =>
      refine ⟨[.driftRead call, .driftWrite env call], by simp, ?_⟩
      have hrun : (requestAudit env r .drift).run d.world =
          (if .drift = AuditSource.drift ∧ d.world.operatorAsked r = true then pure ()
            else nowIso env >>= fun now => modify (·.ask r .drift now) : Proc Unit).run d.world := rfl
      by_cases hasked : d.world.operatorAsked r = true
      · rw [if_pos ⟨rfl, hasked⟩] at hrun
        rw [World.after, hrun]
        simp [AuditDesk.apply, AuditDesk.driftRead, AuditDesk.driftWrite, hasked, hfree]
      · rw [if_neg fun h => hasked h.2] at hrun
        rw [World.after, hrun]
        simp [AuditDesk.apply, AuditDesk.driftRead, AuditDesk.driftWrite, hasked, AuditDesk.request]
        rfl

/-- `delete_audit_step` with nothing in between is a run of its steps. -/
theorem deleteAuditStep_exec (env : Env) (budget : ℕ) (d : AuditDesk) (hidle : d.stage = .idle) :
    (Run.exec (AuditDesk.apply r) d [.begin env, .work env budget, .clear env, .finish]).world =
      d.world.after (deleteAuditStep env r budget) := by
  have hbegin : ∃ round w history, (beginAudit env r).run d.world = .ok round w ∧
      d.begin env r = ⟨w, d.drifting, .working round, history⟩ := by
    have hget : (get : Proc World).run d.world = .ok d.world d.world := rfl
    rw [beginAudit, run_bind_of_ok hget, AuditDesk.begin, hidle]
    cases d.world.auditRound r with
    | some round => exact ⟨round, d.world, d.history, rfl, rfl⟩
    | none => exact ⟨_, _, .started :: d.history, rfl, rfl⟩
  obtain ⟨round, w, history, hround, hdesk⟩ := hbegin
  rw [World.after, deleteAuditStep_pieces, EStateM.run_bind, hround, Run.exec_cons]
  change (Run.exec (AuditDesk.apply r) (d.begin env r) _).world = _
  rw [hdesk, Run.exec_cons]
  simp only [AuditDesk.apply, AuditDesk.work]
  rw [EStateM.run_bind]
  cases (auditWork env r budget round).run w with
  | error e w' => rfl
  | ok outcome w' =>
      obtain ⟨done, tombstoned, restored⟩ := outcome
      cases done <;> rfl

/-! ## Runs -/

/-- In a run whose steps all meet the condition, a round clears only what was asked for before
it started, and no drift request takes the place of an operator's. -/
theorem requests_safe (r : Res) (w : World) (ops : List AuditOp)
    (h : Run.Each (AuditDesk.apply r) (AuditOp.Heeded r) { world := w } ops) (n : ℕ) :
    NotLost (Run.exec (AuditDesk.apply r) { world := w } (ops.take n)).history ∧
      NotDemoted (Run.exec (AuditDesk.apply r) { world := w } (ops.take n)).history := by
  have hstart : AuditDesk.Safe { world := w } r := by
    refine ⟨?_, nofun, fun _ => trivial, fun hdrifting => absurd rfl hdrifting⟩
    intro newer older heq
    simp at heq
  have hsafe := (h.take n).invariant (I := fun d => d.Safe r) hstart
    fun d op hd hheeded => hd.apply hheeded
  exact ⟨hsafe.notLost, hsafe.notDemoted⟩

/-- PCO lists nobody. -/
def nobodyEnv : Env :=
  { quietEnv with respond := fun _ _ => .ok ⟨200, .json (.obj [("data", .arr [])])⟩ }

/-- An operator asks, and a round is run to its end. -/
def askedRound : List AuditOp :=
  [.operator nobodyEnv, .begin nobodyEnv, .work nobodyEnv 20, .clear nobodyEnv, .finish]

theorem requests_safe_nobody :
    NotLost (Run.exec (AuditDesk.apply .person) { world := {} } (askedRound.take 5)).history ∧
      NotDemoted (Run.exec (AuditDesk.apply .person) { world := {} } (askedRound.take 5)).history := by
  refine requests_safe .person {} askedRound ⟨⟨fun hround => ?_, rfl⟩, trivial, trivial, trivial,
    trivial, trivial⟩ 5
  cases hround

/-- An operator asks while a round is at work, which clears the request at its end. -/
theorem requests_not_safe : ¬ ∀ (r : Res) (w : World) (ops : List AuditOp) (n : ℕ),
    NotLost (Run.exec (AuditDesk.apply r) { world := w } (ops.take n)).history ∧
      NotDemoted (Run.exec (AuditDesk.apply r) { world := w } (ops.take n)).history := by
  intro h
  obtain ⟨hkept, -⟩ := h .person {}
    [.begin nobodyEnv, .operator nobodyEnv, .work nobodyEnv 20, .clear nobodyEnv] 4
  have hhistory : (Run.exec (AuditDesk.apply .person) { world := {} } (List.take 4
      [.begin nobodyEnv, .operator nobodyEnv, .work nobodyEnv 20, .clear nobodyEnv])).history =
      [.cleared, .requested .operator none, .started] := by decide
  exact hkept [] [.requested .operator none, .started] hhistory

end PcoMirror
