import PcoMirror.Model.Ingest.AuditRequest
import PcoMirror.Model.Ingest.Repair
import PcoMirror.Verification.Audit.Requests
import PcoMirror.Verification.System.Sourcing

/-! The passes of the mirror write from known documents: walks, backfills, sweeps, audits,
hydrations, repairs and the merger poll. -/

namespace PcoMirror

open Program

variable {env : Env} {posted known : Json → Prop} {α : Type}

/-! ## Walks -/

theorem sources_tombstoneIfAbsent (r : Res) (id : String) :
    Sources posted known (tombstoneIfAbsent env r id) := by
  refine (sources_clientGet _).attempt.bind fun answer => ?_
  cases answer with
  | ok resp => exact .ite (sources_tombstoneOne env r id _ _ _) (sources_pure _)
  | error e => exact sources_pure _

theorem sources_walkPage (r parent : Res) (parentId : String) (source : Source) (p : WalkPass) :
    Sources posted known (walkPage env r parent parentId source p) := by
  refine sources_clientGet_bind fun resp => .ite ?_ ?_
  · exact (sources_tombstoneIfAbsent parent parentId).bind fun _ => sources_pure _
  · refine .ite ((sources_raise _).bind fun _ => ?_) ?_
    all_goals
      refine sources_ofPy_bind fun body hbody => (sources_ofPy _).bind fun data => ?_
      exact (sources_routeAnswer hbody env _ _ _ _).bind fun _ => (sources_ofPy _).bind fun _ =>
        (sources_ofPy _).bind fun _ => .ite (sources_pure _) (sources_pure _)

theorem sources_walkParent (r parent : Res) (parentId : String) (source : Source) (fuel : ℕ) :
    Sources posted known (walkParent env r parent parentId source fuel) := by
  have hone : Sources posted known (walkOne env r parent parentId source fuel) := by
    refine (Sources.whileTrue (sources_walkPage r parent parentId source) fuel _).bind
      fun seen => ?_
    cases seen with
    | none => exact sources_pure _
    | some seen =>
        exact sources_get.bind fun w => (Sources.forEach fun id _ =>
          sources_tombstoneOne env r id _ _ _).bind fun _ => sources_pure _
  exact hone.bind fun n => (sources_nowIso env).bind fun now =>
    .bind (sources_apart (fun _ => rfl) (fun _ => rfl) fun _ => rfl) fun _ => sources_pure _

theorem sources_ensureParentWalked (r parent : Res) (parentId : String) (fuel : ℕ) :
    Sources posted known (ensureParentWalked env r parent parentId fuel) :=
  sources_get.bind fun _ => .ite (sources_pure _)
    ((sources_walkParent r parent parentId _ fuel).bind fun _ => sources_pure _)

theorem sources_walkEach (r parent : Res) (source : Source) (fuel applied : ℕ)
    (failed parents : List String) :
    Sources posted known (walkEach env r parent source fuel applied failed parents) := by
  induction parents generalizing applied failed with
  | nil => exact sources_pure _
  | cons parentId rest ih =>
      refine (sources_walkParent r parent parentId source fuel).attempt.bind fun answer => ?_
      cases answer with
      | ok n => exact ih _ _
      | error e => exact ih _ _

theorem sources_liveCount (r : Res) : Sources posted known (liveCount r) :=
  sources_get.bind fun _ => sources_pure _

theorem sources_nestedWalk (r parent : Res) (source : Source) (fuel : ℕ) :
    Sources posted known (nestedWalk env r parent source fuel) := by
  refine sources_get.bind fun w => (sources_walkEach r parent source fuel _ _ _).bind
    fun walked => ?_
  refine .ite ((sources_setState r _).bind fun _ => (sources_raise _).bind fun _ => ?_) ?_ <;>
    exact (sources_nowIso env).bind fun _ => (sources_liveCount r).bind fun _ =>
      (sources_setState r _).bind fun _ => sources_pure _

theorem sources_walkRoundStep (r parent : Res) (budget fuel : ℕ) :
    Sources posted known (walkRoundStep env r parent budget fuel) := by
  intro base w hw
  have hcomplete (n : ℕ) : Sources posted known (completeRound env r n) :=
    (sources_nowIso env).bind fun _ => (sources_liveCount r).bind fun _ =>
      (sources_setState r _).bind fun _ => .bind
        (sources_apart (fun _ => rfl) (fun _ => rfl) fun _ => rfl) fun _ => sources_pure _
  have hbatch (round : WalkRound) (due : List String) :
      Sources posted known (walkBatch env r parent fuel round due) :=
    (sources_walkEach r parent .reconcile fuel 0 [] due).bind fun _ => .bind
      (sources_apart (fun _ => rfl) (fun _ => rfl) fun _ => rfl) fun _ =>
        .ite ((sources_raise _).bind fun _ => sources_pure _) (sources_pure _)
  have hbegun : (w.begun env r).AtHand posted known base := by
    unfold World.begun
    cases w.walkRound r with
    | some round => exact hw
    | none => exact hw.aside rfl List.suffix_rfl rfl
  obtain ⟨n, hrun⟩ := walkRoundStep_run env r parent budget fuel w
  rw [hrun]
  exact Sources.ite (hcomplete n) (hbatch _ _) base _ hbegun

/-! ## Backfills -/

theorem sources_noteParent (body : Json) : Sources posted known (noteParent body) := by
  refine (sources_ofPy _).bind fun organization => ?_
  cases organization with
  | none => exact sources_pure _
  | some id => exact sources_apart (fun _ => rfl) (fun _ => rfl) fun _ => rfl

theorem sources_drainSecond (r : Res) (second : String) (fuel : ℕ) :
    Sources posted known (drainSecond env r second fuel) :=
  .whileTrue (fun _ => (sources_ofPy _).bind fun _ => sources_clientGet_bind fun _ =>
    sources_ofPy_bind fun _ hbody => (sources_ofPy _).bind fun _ =>
      (sources_routeAnswer hbody env _ _ _ _).bind fun _ => (sources_ofPy _).bind fun _ =>
        (sources_ofPy _).bind fun _ => .ite (sources_pure _) (sources_pure _)) fuel 0

theorem sources_backfillStep (r : Res) (fuel : ℕ) (cursor : BackfillCursor) :
    Sources posted known (backfillStep env r fuel cursor) := by
  refine sources_clientGet_bind fun resp => .ite ((sources_raise _).bind fun _ => ?_) ?_
  all_goals
    refine sources_ofPy_bind fun body hbody => (sources_noteParent body).bind fun _ =>
      (sources_ofPy _).bind fun data => .ite (sources_pure _) ?_
    refine (sources_routeAnswer hbody env _ _ _ _).bind fun _ => (sources_ofPy _).bind fun items =>
      (sources_ofPy _).bind fun ids => (sources_ofPy _).bind fun uats => .ite ?_
        (.ite (sources_pure _) ((sources_setState r _).bind fun _ => sources_pure _))
    exact (sources_drainSecond r _ fuel).bind fun _ => (sources_ofPy _).bind fun _ =>
      (sources_setState r _).bind fun _ => sources_pure _

theorem sources_backfillKeyset (r : Res) (maxPages : Option ℕ) (fuel : ℕ) :
    Sources posted known (backfillKeyset env r maxPages fuel) := by
  have hpage (p : BackfillPass) : Sources posted known (backfillPage env r maxPages fuel p) := by
    refine .ite ((sources_setState r _).bind fun _ => sources_pure _) ?_
    refine (sources_backfillStep r fuel p.cursor).bind fun step => ?_
    rcases step with ⟨_ | _, ids⟩ <;> exact sources_pure _
  refine (sources_state r).bind fun st => (Sources.whileTrue hpage fuel _).bind fun reached => ?_
  cases reached with
  | unfinished applied => exact sources_pure _
  | finished ts applied =>
      exact ((sources_nowIso env).bind fun _ => sources_setState r _).bind fun _ => sources_pure _

theorem sources_backfillOffset (r : Res) (maxPages : Option ℕ) (fuel : ℕ) :
    Sources posted known (backfillOffset env r maxPages fuel) := by
  have hstep (off : ℕ) : Sources posted known (offsetStep env r .backfill off) :=
    sources_clientGet_bind fun _ => sources_ofPy_bind fun _ hbody => (sources_ofPy _).bind fun _ =>
      (sources_routeAnswer hbody env _ _ _ _).bind fun _ => (sources_ofPy _).bind fun _ =>
        .ite ((sources_setState r _).bind fun _ => sources_pure _) (sources_pure _)
  have hpage (p : OffsetPass) : Sources posted known (offsetPage env r .backfill maxPages p) := by
    refine .ite ((sources_setState r _).bind fun _ => sources_pure _) ?_
    refine (hstep p.off).bind fun step => ?_
    rcases step with ⟨_ | _, n⟩ <;> exact sources_pure _
  have hfinish : Sources posted known (finishOffset env r) :=
    (sources_get.bind fun _ => sources_pure _).bind fun _ => (sources_nowIso env).bind fun _ =>
      sources_setState r _
  refine ((sources_state r).bind fun st => Sources.whileTrue hpage fuel _).bind fun reached => ?_
  exact .ite ((sources_setState r _).bind fun _ => sources_pure _)
    (hfinish.bind fun _ => sources_pure _)

/-- A record of a reference list is confirmed and its field data projected again in one write. -/
theorem sources_refreshOne (r : Res) {d : Json} (hdoc : ∀ v, pyItem d "id" = .ok v → known d) :
    Sources posted known (refreshOne env r d) := by
  refine sources_ofPy_bind fun id hid => fun base w hw => ?_
  obtain ⟨v, hv, -⟩ := except_bind_eq_ok.mp hid
  have hwrite : ∀ w' : World, w'.db = (TableWrite.refresh r id d
      ⟨.reconcile, env.apiVersion, env.now w.tick⟩).apply w.db → w.log <:+ w'.log →
        w'.events = w.events → w'.AtHand posted known base := fun w' hdb hlog hevents =>
    hw.write (.refresh r id d ⟨.reconcile, env.apiVersion, env.now w.tick⟩)
      (fun _ hx => Option.some.inj hx ▸ hdoc v hv) trivial hdb hlog hevents
  by_cases hdefinition : r = .fieldDefinition
  · subst hdefinition
    exact hwrite _ rfl (List.suffix_cons _ _) rfl
  · simp only [if_neg hdefinition]
    refine hwrite _ ?_ (List.suffix_cons _ _) rfl
    simp only [TableWrite.apply, if_neg hdefinition]

theorem sources_referenceRefresh (r : Res) (fuel : ℕ) :
    Sources posted known (referenceRefresh env r fuel) := by
  have hpage (p : ReferencePass) : Sources posted known (referencePage env r p) := by
    refine sources_clientGet_bind fun resp => sources_ofPy_bind fun body hbody =>
      sources_ofPy_bind fun data hdata => sources_ofPy_bind fun items hitems => ?_
    refine (Sources.forEach fun d hd => sources_refreshOne r fun v hv =>
      .inr ⟨body, hbody, bears_of_items hdata hitems hd hv⟩).bind fun _ => ?_
    exact (sources_ofPy _).bind fun _ => .ite (sources_pure _) (sources_pure _)
  exact (Sources.whileTrue hpage fuel _).bind fun fetched => sources_get.bind fun w =>
    (Sources.forEach fun id _ => sources_tombstoneOne env r id none .absent none).bind fun _ =>
      sources_pure _

theorem sources_backfillWalk (r parent : Res) (maxPages : Option ℕ) (fuel : ℕ) :
    Sources posted known (backfillWalk env r parent maxPages fuel) := by
  have hfinish (n : ℕ) : Sources posted known (do
      let now ← nowIso env
      let next ← isoIn env r.info.incrIntervalS
      setState r fun st => { st with
        phase := "streaming"
        backfillCompletedAt := some now
        nextRunAt := next }
      return n : Proc ℕ) :=
    (sources_nowIso env).bind fun _ => ((sources_nowIso env).bind fun _ => sources_pure _).bind
      fun _ => (sources_setState r _).bind fun _ => sources_pure n
  cases maxPages with
  | none => exact (sources_nestedWalk r parent .backfill fuel).bind fun n => hfinish n
  | some budget =>
      exact (sources_walkRoundStep r parent budget fuel).bind fun step =>
        .ite ((sources_setState r _).bind fun _ => sources_pure _) (hfinish _)

theorem sources_backfill (r : Res) (maxPages : Option ℕ) (fuel : ℕ) :
    Sources posted known (backfill env r maxPages fuel) := by
  have hreference : Sources posted known (backfillReference env r fuel) :=
    (sources_referenceRefresh r fuel).bind fun n => (sources_nowIso env).bind fun _ =>
      (sources_setState r _).bind fun _ => sources_pure _
  unfold backfill
  split
  · exact sources_backfillWalk r _ maxPages fuel
  · exact hreference
  · exact .ite (sources_backfillKeyset r maxPages fuel) (sources_backfillOffset r maxPages fuel)

/-! ## Sweeps -/

theorem sources_includeDiff (included : List Json) (requested : List String) (person : Json) :
    Sources posted known (includeDiff env included requested person) :=
  (sources_ofPy _).bind fun _ => (sources_ofPy _).bind fun _ => (sources_ofPy _).bind fun _ =>
    .forEach fun child _ => sources_get.bind fun _ =>
      .forEach fun id _ => sources_tombstoneOne env child id none _ _

theorem sources_diffPeople (r : Res) (body : Json) (items : List Json) :
    Sources posted known (diffPeople env r body items) :=
  .ite ((sources_ofPy _).bind fun included =>
    .forEach fun person _ => sources_includeDiff included _ person) (sources_pure _)

theorem sources_saveSweep (r : Res) (cursor : String) :
    Sources posted known (saveSweep env r cursor) :=
  (sources_nowIso env).bind fun _ => sources_setState r _

theorem sources_keysetSweep (r : Res) (fuel : ℕ) :
    Sources posted known (keysetSweep env r fuel) := by
  have hpage (p : SweepPass) : Sources posted known (sweepPage env r fuel p) := by
    refine sources_clientGet_bind fun resp => sources_ofPy_bind fun body hbody =>
      (sources_ofPy _).bind fun data => .ite (sources_pure _) ?_
    refine (sources_routeAnswer hbody env _ _ _ _).bind fun _ => (sources_ofPy _).bind fun items =>
      (sources_diffPeople r body items).bind fun _ => (sources_ofPy _).bind fun uats => .ite ?_ ?_
    · exact (sources_drainSecond r p.cursor fuel).bind fun _ => (sources_ofPy _).bind fun _ =>
        (sources_saveSweep r _).bind fun _ => sources_pure _
    · exact .ite (sources_pure _) (.ite (sources_pure _) ((sources_saveSweep r _).bind fun _ =>
        sources_pure _))
  exact (sources_state r).bind fun st => (Sources.whileTrue hpage fuel _).bind fun swept =>
    (sources_saveSweep r _).bind fun _ => sources_pure _

theorem sources_descendItems (status : ℕ) (wm : String) {items : List Json} (p : DescendPass)
    (hdocs : ∀ d ∈ items, ∀ v, pyItem d "attributes" = .ok v → known d) :
    Sources posted known (descendItems env status wm p items) := by
  induction items generalizing p with
  | nil => exact sources_pure _
  | cons d rest ih =>
      refine sources_ofPy_bind fun attributes ha => (sources_ofPy _).bind fun uat =>
        (sources_ofPy _).bind fun met => .ite (sources_pure _) ?_
      exact (sources_logEntry _).bind fun _ =>
        (sources_routeOne (hdocs d (.head _) _ ha) env .reconcile none []).bind fun _ =>
          (sources_ofPy _).bind fun time => ih _ fun e he => hdocs e (.tail _ he)

theorem sources_descendingSweep (r : Res) (fuel : ℕ) :
    Sources posted known (descendingSweep env r fuel) := by
  have hpage (wm : String) (p : DescendPass) : Sources posted known (descendPage env r wm p) := by
    refine sources_clientGet_bind fun resp => sources_ofPy_bind fun body hbody =>
      sources_ofPy_bind fun data hdata => sources_ofPy_bind fun items hitems => ?_
    refine (sources_descendItems _ wm p fun d hd v hv =>
      .inr ⟨body, hbody, bears_of_items hdata hitems hd hv⟩).bind fun _ => ?_
    exact .ite (sources_pure _) (sources_pure _)
  exact (sources_state r).bind fun st => (Sources.whileTrue (hpage _) fuel _).bind fun swept =>
    (sources_saveSweep r _).bind fun _ => sources_pure _

theorem sources_incrementalSweep (r : Res) (fuel : ℕ) :
    Sources posted known (incrementalSweep env r fuel) := by
  unfold incrementalSweep
  split
  · exact sources_nestedWalk r _ .reconcile fuel
  · exact sources_referenceRefresh r fuel
  · exact .ite (sources_keysetSweep r fuel) (sources_descendingSweep r fuel)

/-! ## Audits -/

theorem sources_saveAuditRound (r : Res) (round : AuditRound) :
    Sources posted known (saveAuditRound r round) :=
  sources_apart (fun _ => rfl) (fun _ => rfl) fun _ => rfl

theorem sources_setScratch (r : Res) (sets : ScratchKind → List String) :
    Sources posted known (setScratch r sets) :=
  sources_apart (fun _ => rfl) (fun _ => rfl) fun _ => rfl

theorem sources_addScratch (r : Res) (kind : ScratchKind) (id : String) :
    Sources posted known (addScratch r kind id) :=
  sources_apart (fun _ => rfl) (fun _ => rfl) fun _ => rfl

theorem sources_dropScratch (r : Res) (kind : ScratchKind) (gone : List String) :
    Sources posted known (dropScratch r kind gone) :=
  sources_apart (fun _ => rfl) (fun _ => rfl) fun _ => rfl

theorem sources_nextScratch (r : Res) (kind : ScratchKind) :
    Sources posted known (nextScratch r kind) :=
  sources_get.bind fun _ => sources_pure _

theorem sources_beginAudit (r : Res) : Sources posted known (beginAudit env r) := by
  have hstart : Sources posted known (startAudit env r) :=
    (sources_nowIso env).bind fun _ => (sources_setState r _).bind fun _ => sources_get.bind
      fun _ => (sources_setScratch r _).bind fun _ => (sources_saveAuditRound r _).bind
        fun _ => sources_pure _
  refine sources_get.bind fun w => ?_
  cases w.auditRound r with
  | some round => exact sources_pure _
  | none => exact hstart

theorem sources_enumeratePage (r : Res) (round : AuditRound) :
    Sources posted known (enumeratePage env r round) := by
  have hadd (d : Json) :
      Sources posted known (do addScratch r .live (← ofPy (scratchId d)) : Proc Unit) :=
    (sources_ofPy _).bind fun id => sources_addScratch r .live id
  have hsettle : Sources posted known (settleScratch r) :=
    sources_get.bind fun _ => (sources_dropScratch r _ _).bind fun _ => sources_get.bind fun _ =>
      sources_dropScratch r _ _
  refine (sources_clientGet _).bind fun resp => (sources_ofPy _).bind fun body =>
    (sources_ofPy _).bind fun data => (sources_ofPy _).bind fun items =>
      (Sources.forEach fun d _ => hadd d).bind fun _ => (sources_ofPy _).bind fun next => ?_
  cases next with
  | none => exact (sources_saveAuditRound r _).bind fun _ => sources_pure _
  | some round =>
      exact .ite (hsettle.bind fun _ => sources_pure _)
        ((sources_saveAuditRound r _).bind fun _ => sources_pure _)

theorem sources_enumerate (r : Res) (left : ℕ) (round : AuditRound) :
    Sources posted known (enumerate env r left round) := by
  induction left generalizing round with
  | zero => exact sources_pure _
  | succ left ih =>
      refine (sources_enumeratePage r round).bind fun pass => ?_
      cases pass with
      | again round => exact ih round
      | leave round => exact sources_pure _

theorem sources_confirmCandidate (r : Res) (id : String) (round : AuditRound) :
    Sources posted known (confirmCandidate env r id round) := by
  refine sources_clientGet_bind fun resp => .ite ((sources_tombstoneOne env r id _ _ _).bind
    fun _ => sources_pure _) (.ite ?_ (sources_pure _))
  refine sources_ofPy_bind fun record hrecord => (Sources.whenSome fun doc hdoc => ?_).bind
    fun _ => sources_pure _
  exact sources_confirmLiveOne (.inr (carries_of_recordOf (hdoc ▸ hrecord))) env r id _

theorem sources_confirm (r : Res) (left : ℕ) (round : AuditRound) :
    Sources posted known (confirm env r left round) := by
  induction left generalizing round with
  | zero => exact sources_pure _
  | succ left ih =>
      refine (sources_nextScratch r .candidate).bind fun next => ?_
      cases next with
      | none => exact sources_pure _
      | some id =>
          exact (sources_confirmCandidate r id round).bind fun round =>
            (sources_dropScratch r .candidate _).bind fun _ =>
              (sources_saveAuditRound r round).bind fun _ => ih round

/-- A record restored is stored with what PCO sideloaded to it. -/
theorem sources_restoreOne (r : Res) (id : String) : Sources posted known (restoreOne env r id) := by
  refine sources_clientGet_bind fun resp => .ite (sources_pure _) (sources_ofPy_bind
    fun record hrecord => ?_)
  cases record with
  | none => exact sources_pure _
  | some record =>
      refine sources_ofPy_bind fun body hbody => sources_ofPy_bind fun included hincluded =>
        Sources.bind (sources_routePage (fun items h doc hdoc => ?_) (fun items h doc hdoc => ?_)
          env _ _ _ _) fun _ => ?_
      · cases h
        cases hdoc
      · cases h
        exact .inr ⟨body, hbody, bears_of_pageIncluded hincluded hdoc⟩
      · exact (sources_confirmLiveOne (.inr (carries_of_recordOf hrecord)) env r id _).bind
          fun _ => sources_pure _

theorem sources_restoreWork (r : Res) (left : ℕ) (round : AuditRound) :
    Sources posted known (restoreWork env r left round) := by
  induction left generalizing round with
  | zero => exact sources_pure _
  | succ left ih =>
      refine (sources_nextScratch r .live).bind fun next => ?_
      cases next with
      | none => exact sources_pure _
      | some id =>
          exact .ite ((sources_restoreOne r id).bind fun _ => (sources_dropScratch r .live _).bind
            fun _ => (sources_saveAuditRound r _).bind fun _ => ih _) (sources_pure _)

theorem sources_auditWork (r : Res) (budget : ℕ) (round : AuditRound) :
    Sources posted known (auditWork env r budget round) := by
  have hrestore : ∀ left round, Sources posted known (if round.phase = .restore then
      restoreWork env r left round else pure ⟨false, round.tombstoned, round.restored⟩) :=
    fun left round => .ite (sources_restoreWork r left round) (sources_pure _)
  unfold auditWork
  simp only [pure_bind]
  refine .ite ?_ (.ite ?_ (hrestore _ _))
  · refine (sources_enumerate r _ _).bind fun p => (sources_saveAuditRound r _).bind fun _ =>
      .ite ?_ (hrestore _ _)
    exact (sources_confirm r _ _).bind fun q => (sources_saveAuditRound r _).bind
      fun _ => hrestore _ _
  · exact (sources_confirm r _ _).bind fun q => (sources_saveAuditRound r _).bind
      fun _ => hrestore _ _

theorem sources_deleteAuditStep (r : Res) (budget : ℕ) :
    Sources posted known (deleteAuditStep env r budget) := by
  have hfinish : Sources posted known (finishAudit env r) :=
    (sources_setScratch r _).bind fun _ => (sources_nowIso env).bind fun _ =>
      (sources_setState r _).bind fun _ => sources_apart (fun _ => rfl) (fun _ => rfl) fun _ => rfl
  rw [deleteAuditStep_pieces]
  exact (sources_beginAudit r).bind fun round => (sources_auditWork r budget round).bind
    fun outcome => .ite (hfinish.bind fun _ => sources_pure _) (sources_pure _)

theorem sources_requestAudit (r : Res) (source : AuditSource) :
    Sources posted known (requestAudit env r source) :=
  sources_get.bind fun _ => .ite (sources_pure _) ((sources_nowIso env).bind fun _ =>
    sources_apart (fun _ => rfl) (fun _ => rfl) fun _ => rfl)

/-! ## Hydrations and repairs -/

theorem sources_hydrate (r : Res) (id : String) (includes : List String) :
    Sources posted known (hydrate env r id includes) := by
  refine sources_clientGet_bind fun resp => .ite (sources_tombstoneOne env r id _ _ _)
    (.ite (sources_ofPy_bind fun record hrecord => .whenSome fun doc hdoc => ?_) (sources_pure _))
  have hknown : resp.Carries doc := carries_of_recordOf (hdoc ▸ hrecord)
  have hstore : Sources posted (fun doc => known doc ∨ resp.Carries doc)
      (storeHydrated env r id resp.status doc) :=
    .ite ((sources_logEntry _).bind fun _ => sources_routeOne (.inr hknown) env _ _ _)
      (sources_confirmLiveOne (.inr hknown) env r id _)
  refine hstore.bind fun _ => sources_ofPy_bind fun included hincluded => ?_
  obtain ⟨body, hbody, hpage⟩ := except_bind_eq_ok.mp hincluded
  exact (sources_routeEach (fun _ h => .inr ⟨body, hbody, bears_of_pageIncluded hpage h⟩)
    env _ _ _).bind fun _ => .ite (sources_includeDiff included includes doc) (sources_pure _)

theorem sources_drainHydration (limit : ℕ) : Sources posted known (drainHydration env limit) := by
  have htask (task : DueTask) : Sources posted known (drainTask env task) :=
    (sources_hydrate task.r task.id task.includes).bind fun _ =>
      sources_apart (fun _ => rfl) (fun _ => rfl) fun _ => rfl
  exact (sources_nowIso env).bind fun now => sources_get.bind fun w =>
    (Sources.forEach fun task _ => htask task).bind fun _ => sources_pure _

theorem sources_repairSplitEdges (limit minAgeSeconds : ℕ) :
    Sources posted known (repairSplitEdges env limit minAgeSeconds) := by
  have hqueue (r : Res) (ids : List String) :
      Sources posted known (forEach (fun id => enqueueHydration env r id "split_edge") ids) :=
    .forEach fun id _ => sources_enqueueHydration env r id _
  exact ((sources_nowIso env).bind fun _ => sources_pure _).bind fun _ => sources_get.bind fun _ =>
    (hqueue .person _).bind fun _ => ((sources_nowIso env).bind fun _ => sources_pure _).bind
      fun _ => sources_get.bind fun _ => (hqueue .household _).bind fun _ => sources_pure _

theorem sources_queueDanglingTargets (resource : Json) (edges : List (String × Rel)) :
    Sources posted known (queueDanglingTargets env resource edges) := by
  induction edges with
  | nil => exact sources_pure _
  | cons edge edges ih =>
      exact .ite ih ((sources_ofPy _).bind fun ids => sources_get.bind fun w =>
        (Sources.forEach fun id _ => sources_enqueueHydration env _ id _).bind fun _ =>
          ih.bind fun _ => sources_pure _)

theorem sources_repairDangling (r : Res) (limit minAgeSeconds : ℕ) :
    Sources posted known (repairDangling env r limit minAgeSeconds) := by
  have hqueue (rows : List (String × Json)) : Sources posted known (queueDangling env r rows) := by
    induction rows with
    | nil => exact sources_pure _
    | cons row rows ih =>
        exact (sources_enqueueHydration env r row.1 _).bind fun _ =>
          (sources_queueDanglingTargets row.2 _).bind fun _ => ih.bind fun _ => sources_pure _
  exact .ite (sources_pure _) (((sources_nowIso env).bind fun _ => sources_pure _).bind fun _ =>
    sources_get.bind fun _ => hqueue _)

/-! ## Merges -/

theorem sources_mergerIsNew (id : String) : Sources posted known (mergerIsNew id) :=
  sources_get.bind fun _ => sources_pure _

theorem sources_pollOne (wm : String) (fresh : ℕ) {m : Json}
    (hdoc : ∀ v, pyItem m "attributes" = .ok v → known m) :
    Sources posted known (pollOne env wm fresh m) := by
  refine sources_ofPy_bind fun a ha => (sources_ofPy _).bind fun createdAt => (sources_ofPy _).bind
    fun id => (sources_mergerIsNew id).bind fun isNew => .ite (sources_pure _) ?_
  exact (sources_ofPy _).bind fun keep => (sources_ofPy _).bind fun gone =>
    (sources_tombstoneOne env _ _ _ _ _).bind fun _ => (sources_enqueueHydration env _ _ _).bind
      fun _ => (sources_recordMerger (hdoc a ha) env id _).bind fun _ => sources_pure _

theorem sources_pollPage (wm : String) (fresh : ℕ) {items : List Json}
    (hdocs : ∀ m ∈ items, ∀ v, pyItem m "attributes" = .ok v → known m) :
    Sources posted known (pollPage env wm fresh items) := by
  induction items generalizing wm fresh with
  | nil => exact sources_pure _
  | cons m ms ih =>
      exact (sources_pollOne wm fresh (hdocs m (.head _))).bind fun reached =>
        ih _ _ fun m' hm' => hdocs m' (.tail _ hm')

theorem sources_mergerPoll (fuel : ℕ) : Sources posted known (mergerPoll env fuel) := by
  have hround (p : PollPass) : Sources posted known (pollRound env p) := by
    refine sources_clientGet_bind fun resp => sources_ofPy_bind fun body hbody =>
      sources_ofPy_bind fun data hdata => .ite (sources_pure _) (sources_ofPy_bind
        fun items hitems => ?_)
    exact (sources_pollPage p.wm 0 fun m hm v hv =>
      .inr ⟨body, hbody, bears_of_items hdata hitems hm hv⟩).bind fun _ =>
        (sources_setState _ _).bind fun _ => .ite (sources_pure _) (sources_pure _)
  exact (sources_state _).bind fun st => .whileTrue hround fuel _

theorem sources_handleMerge {payload : Json} (hdoc : known payload) :
    Sources posted known (handleMerge env payload) := by
  refine (sources_ofPy _).bind fun a => (sources_ofPy _).bind fun keep => (sources_ofPy _).bind
    fun gone => (sources_ofPy _).bind fun id => (sources_mergerIsNew id).bind fun isNew =>
      .ite (sources_pure _) ?_
  exact (Sources.whenSome fun gone _ => sources_tombstoneOne env _ gone _ _ _).bind fun _ =>
    (Sources.whenSome fun keep _ => sources_enqueueHydration env _ keep _).bind fun _ =>
      sources_recordMerger hdoc env id _

end PcoMirror
