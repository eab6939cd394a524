import PcoMirror.Verification.Ingest.BackfillBudget
import PcoMirror.Verification.Ingest.CursorSafety

/-! A backfill routes all of a collection, in one run or in units of any size. -/

namespace PcoMirror

open Program

variable {r : Res} {c : Collection r} {env : Env}

/-! ## The end of a backfill at two times -/

theorem agree_after {R : World → World → Prop} {α : Type} {m m' : Proc α} (h : Agree R m m')
    {w w' : World} (hw : R w w') : R (w.after m) (w'.after m') := by
  have hmatch := h w w' hw
  rw [World.after, World.after]
  generalize m.run w = ending, m'.run w' = ending' at hmatch
  cases hmatch with
  | ok a ht => exact ht
  | error e ht => exact ht

theorem agree_finishKeyset (ts : String) :
    Agree (Alike r SyncState.standing) (finishKeyset env r ts) (finishKeyset env r ts) := by
  refine agree_nowIso_bind fun now now' => agree_setState fun st st' h => ?_
  simp only [SyncState.standing, Prod.mk.injEq] at h
  simp only [SyncState.standing, h.2.2.1]

theorem SameRows.maxText_uat {db db' : Db} (h : SameRows db db') (t : Res) :
    maxText ((db.tables t).entries.filterMap fun e => e.2.uat) =
      maxText ((db'.tables t).entries.filterMap fun e => e.2.uat) := by
  have huat : ∀ db : Db, (db.tables t).entries.filterMap (fun e => e.2.uat) =
      (db.timeless.tables t).entries.filterMap fun e => e.2.uat := by
    intro db
    change _ = ((db.tables t).entries.map _).filterMap _
    rw [List.filterMap_map]
    rfl
  rw [huat db, huat db', h]

/-- What an offset backfill leaves depends on the rows and the keyset columns alone. -/
theorem finishOffset_alike {w w' : World} (h : Alike r SyncState.keyset w w') :
    Alike r SyncState.standing (w.after (finishOffset env r)) (w'.after (finishOffset env r)) := by
  have hkeyset := h.sync
  simp only [SyncState.keyset, Prod.mk.injEq] at hkeyset
  refine ⟨h.rows, ?_⟩
  change SyncState.standing (if r = r then _ else _) = SyncState.standing (if r = r then _ else _)
  simp only [if_true, SyncState.standing, h.rows.maxText_uat r, hkeyset.1, hkeyset.2]

/-! ## Units -/

/-- One bounded unit of a backfill, begun some time after the last. -/
def backfillUnit (env : Env) (r : Res) (fuel : ℕ) (w : World) (unit : ℕ × ℕ) : World :=
  { w with tick := w.tick + unit.2 }.after (backfill env r (some unit.1) fuel)

theorem backfill_keyset (hmethod : r.info.method = .incremental)
    (huat : r.info.supportsUatFilter = true) (maxPages : Option ℕ) (fuel : ℕ) :
    backfill env r maxPages fuel = backfillKeyset env r maxPages fuel := by
  unfold backfill
  rw [hmethod, huat]
  rfl

theorem backfill_offset (hmethod : r.info.method = .incremental)
    (huat : r.info.supportsUatFilter = false) (maxPages : Option ℕ) (fuel : ℕ) :
    backfill env r maxPages fuel = backfillOffset env r maxPages fuel := by
  unfold backfill
  rw [hmethod, huat]
  rfl

/-- Where a keyset backfill goes on from. -/
def SyncState.keysetStart (st : SyncState) : BackfillPass :=
  { cursor := ⟨st.backfillCursorTs.getD "", st.backfillSeenIds⟩ }

/-- Where an offset backfill goes on from. -/
def SyncState.offsetStart (st : SyncState) : OffsetPass :=
  ⟨digitsOrZero st.reconcileCursor, 0, 0⟩

/-- What a keyset backfill does once its loop has ended. -/
def BackfillEnd.close (env : Env) (r : Res) (t : World) : BackfillEnd → World
  | .unfinished _ => t
  | .finished ts _ => t.after (finishKeyset env r ts)

section

variable {maxPages : Option ℕ} {fuel : ℕ} {w t : World}

theorem backfillKeyset_run {e : BackfillEnd}
    (h : (whileTrue .stopped (backfillPage env r maxPages fuel) fuel
      (w.sync r).keysetStart).run w = .ok e t) :
    ∃ n, (backfillKeyset env r maxPages fuel).run w = .ok n (e.close env r t) := by
  change ∃ n, (whileTrue .stopped (backfillPage env r maxPages fuel) fuel
    (w.sync r).keysetStart >>= _).run w = _
  rw [EStateM.run_bind, h]
  cases e <;> exact ⟨_, rfl⟩

theorem backfillOffset_run {e : Bool × ℕ}
    (h : (whileTrue .stopped (offsetPage env r .backfill maxPages) fuel
      (w.sync r).offsetStart).run w = .ok e t) :
    (backfillOffset env r maxPages fuel).run w = .ok e.2 (if e.1 then t.after (finishOffset env r)
      else t.after (setState r fun st => { st with phase := "backfilling" })) := by
  change (whileTrue .stopped (offsetPage env r .backfill maxPages) fuel (w.sync r).offsetStart >>=
    _).run w = _
  rw [EStateM.run_bind, h]
  obtain ⟨done, n⟩ := e
  cases done <;> rfl

end

/-! ## The keyset in units -/

/-- What is left of a keyset backfill that has been cut into units: the rounds of the
whole from the stored cursor on. -/
structure KeysetTodo (env : Env) (r : Res) (fuel : ℕ) (e : BackfillEnd) (t : World) (n : ℕ)
    (v : World) : Prop where
  enough : n < fuel
  running : (v.sync r).phase ≠ "streaming"
  rest : ∃ p u, LeavesIn (backfillPage env r none fuel) e t n p u ∧
    KeysetPair r p u (v.sync r).keysetStart v

theorem KeysetPair.later {p p' : BackfillPass} {w w' : World} (h : KeysetPair r p w p' w')
    (tick : ℕ) : KeysetPair r p w p' { w' with tick := tick } :=
  ⟨h.cursor, ⟨h.alike.rows, h.alike.sync⟩, h.saved⟩

theorem SyncState.At.keysetStart {st : SyncState} {cursor : BackfillCursor} (h : st.At cursor) :
    st.keysetStart.cursor = cursor := by
  rw [SyncState.keysetStart, h.ts, h.seen]
  rfl

/-- A unit brings a keyset backfill to the end of the whole, or leaves less of it. -/
theorem KeysetTodo.unit (hmethod : r.info.method = .incremental)
    (huat : r.info.supportsUatFilter = true) (hstatic : Static env r) {fuel : ℕ} {ts : String}
    {applied : List Json} {t : World} {n : ℕ} {v : World}
    (h : KeysetTodo env r fuel (.finished ts applied) t n v) {unit : ℕ × ℕ} (hunit : 1 ≤ unit.1) :
    Alike r SyncState.standing (t.after (finishKeyset env r ts)) (backfillUnit env r fuel v unit) ∨
      ∃ m < n, KeysetTodo env r fuel (.finished ts applied) t m (backfillUnit env r fuel v unit) := by
  obtain ⟨p, u, hleft, hpair⟩ := h.rest
  obtain ⟨e, v', hrun, hend⟩ := (cuts_keyset hstatic fuel hunit).run .stopped hleft
    (hpair.later (v.tick + unit.2)) h.enough
  obtain ⟨count, hall⟩ := backfillKeyset_run (w := { v with tick := v.tick + unit.2 }) hrun
  rw [← backfill_keyset hmethod huat] at hall
  rw [backfillUnit, World.after_of_run hall]
  rcases hend with ⟨ts', applied', rest, hwhole, rfl, halike⟩ | ⟨k, q, s, hk, hrest, hpaused⟩
  · cases hwhole
    exact .inl (agree_after (agree_finishKeyset ts) halike)
  · obtain ⟨rest, rfl, halike, hat⟩ := hpaused
    have hless : k < n := by
      simp only [SyncState.keysetStart] at hk
      omega
    refine .inr ⟨k, hless, hless.trans h.enough, ?_, q, s, hrest, hat.keysetStart, halike,
      fun hpages => absurd rfl hpages⟩
    rw [BackfillEnd.close, hat.phase]
    decide

/-- What a run of units has to show for itself beside the whole backfill. -/
def UnitsReach (env : Env) (r : Res) (fuel : ℕ) (w w' : World) : Prop :=
  ∀ units : ℕ → ℕ × ℕ, (∀ i, 1 ≤ (units i).1) → ∃ k,
    Alike r SyncState.standing w'
      (Run.exec (backfillUnit env r fuel) w ((List.range (k + 1)).map units)) ∧
    ∀ j ≤ k, ((Run.exec (backfillUnit env r fuel) w ((List.range j).map units)).sync r).phase ≠
      "streaming"

theorem keyset_unitsReach (hmethod : r.info.method = .incremental)
    (huat : r.info.supportsUatFilter = true) (hserves : Serves env c) (hstatic : Static env r)
    {fuel : ℕ} (hfuel : 4 * (c.listing none).length + 1 < fuel) {w : World}
    (hrunning : (w.sync r).phase ≠ "streaming") :
    ∃ n w', (backfill env r none fuel).run w = .ok n w' ∧ (w'.sync r).phase = "streaming" ∧
      UnitsReach env r fuel w w' := by
  obtain ⟨ts, applied, t, hloop⟩ := runs_keyset huat hserves hfuel (w.sync r).keysetStart w
  obtain ⟨n, hrun⟩ := backfillKeyset_run hloop
  obtain ⟨rounds, hrounds, hleaves⟩ := leavesIn_of_run hloop
  refine ⟨n, t.after (finishKeyset env r ts), by rw [backfill_keyset hmethod huat, hrun]; rfl,
    congrArg SyncState.phase (if_pos rfl), fun units hunits => ?_⟩
  have hstart : KeysetTodo env r fuel (.finished ts applied) t rounds w :=
    ⟨hrounds, hrunning, _, w, hleaves, rfl, ⟨rfl, rfl⟩, fun hpages => absurd rfl hpages⟩
  have hstep : ∀ n v (unit : ℕ × ℕ), KeysetTodo env r fuel (.finished ts applied) t n v →
      1 ≤ unit.1 → _ := fun n v unit h => h.unit hmethod huat hstatic
  obtain ⟨k, hend, hbefore⟩ := Run.exists_exec_of_descent hstep hstart units hunits
  exact ⟨k, hend, fun j hj => (hbefore j hj).choose_spec.running⟩

/-! ## The offset in units -/

/-- What is left of an offset backfill that has been cut into units. -/
structure OffsetTodo (env : Env) (r : Res) (fuel : ℕ) (e : Bool × ℕ) (t : World) (n : ℕ)
    (v : World) : Prop where
  enough : n < fuel
  running : (v.sync r).phase ≠ "streaming"
  rest : ∃ p u, LeavesIn (offsetPage env r .backfill none) e t n p u ∧
    OffsetPair r p u (v.sync r).offsetStart v

/-- A unit brings an offset backfill to the end of the whole, or leaves less of it. -/
theorem OffsetTodo.unit (hmethod : r.info.method = .incremental)
    (huat : r.info.supportsUatFilter = false) (hstatic : Static env r) {fuel : ℕ} {total : ℕ}
    {t : World} {n : ℕ} {v : World} (h : OffsetTodo env r fuel (true, total) t n v)
    {unit : ℕ × ℕ} (hunit : 1 ≤ unit.1) :
    Alike r SyncState.standing (t.after (finishOffset env r)) (backfillUnit env r fuel v unit) ∨
      ∃ m < n, OffsetTodo env r fuel (true, total) t m (backfillUnit env r fuel v unit) := by
  obtain ⟨p, u, hleft, hpair⟩ := h.rest
  have hlater : OffsetPair r p u (v.sync r).offsetStart { v with tick := v.tick + unit.2 } :=
    ⟨hpair.off, hpair.alike.rows, hpair.alike.sync⟩
  obtain ⟨e, v', hrun, hend⟩ := (cuts_offset hstatic .backfill unit.1).run .stopped hleft hlater
    h.enough
  have hall := backfillOffset_run (w := { v with tick := v.tick + unit.2 }) hrun
  rw [← backfill_offset hmethod huat] at hall
  rw [backfillUnit, World.after_of_run hall]
  rcases hend with ⟨hdone, halike⟩ | ⟨k, q, s, hk, hrest, hunfinished, halike, hcursor⟩
  · rw [if_pos hdone]
    exact .inl (finishOffset_alike halike)
  · have hless : k < n := by
      simp only [SyncState.offsetStart] at hk
      omega
    rw [if_neg (by simp [hunfinished])]
    refine .inr ⟨k, hless, hless.trans h.enough, ?_, q, s, hrest, ?_, halike.rows, ?_⟩
    · rw [sync_after_setState]
      exact show ¬ "backfilling" = "streaming" by decide
    · rw [sync_after_setState]
      exact hcursor
    · rw [sync_after_setState]
      exact halike.sync

theorem offset_unitsReach (hmethod : r.info.method = .incremental)
    (huat : r.info.supportsUatFilter = false) (hserves : Serves env c) (hstatic : Static env r)
    {fuel : ℕ} (hfuel : (c.listing none).length < fuel) {w : World}
    (hrunning : (w.sync r).phase ≠ "streaming") :
    ∃ n w', (backfill env r none fuel).run w = .ok n w' ∧ (w'.sync r).phase = "streaming" ∧
      UnitsReach env r fuel w w' := by
  obtain ⟨total, t, hloop⟩ := runs_offset hserves hfuel .backfill (w.sync r).offsetStart w
  have hrun := backfillOffset_run hloop
  obtain ⟨rounds, hrounds, hleaves⟩ := leavesIn_of_run hloop
  refine ⟨total, t.after (finishOffset env r), by rw [backfill_offset hmethod huat, hrun]; rfl,
    congrArg SyncState.phase (if_pos rfl), fun units hunits => ?_⟩
  have hstart : OffsetTodo env r fuel (true, total) t rounds w :=
    ⟨hrounds, hrunning, _, w, hleaves, rfl, rfl, rfl⟩
  have hstep : ∀ n v (unit : ℕ × ℕ), OffsetTodo env r fuel (true, total) t n v →
      1 ≤ unit.1 → _ := fun n v unit h => h.unit hmethod huat hstatic
  obtain ⟨k, hend, hbefore⟩ := Run.exists_exec_of_descent hstep hstart units hunits
  exact ⟨k, hend, fun j hj => (hbefore j hj).choose_spec.running⟩

/-! ## Completeness -/

theorem CursorSafe.unit (hmethod : r.info.method = .incremental) (hserves : Serves env c)
    {fuel : ℕ} {v : World} (h : CursorSafe c v) (unit : ℕ × ℕ) :
    CursorSafe c (backfillUnit env r fuel v unit) := by
  have hlater : CursorSafe c { v with tick := v.tick + unit.2 } :=
    grows_safe _ v _ (fun _ hdoc => hdoc) h
  exact keeps_after (keeps_backfill hmethod hserves.answers (hserves.clean _ _)) hlater

/-- On a collection that PCO serves in full, a backfill ends with every record delivered,
and so does any run of bounded units of it, with the same rows and sync state. -/
theorem backfill_complete (r : Res) (hmethod : r.info.method = .incremental) (c : Collection r)
    (env : Env) (hserves : Serves env c) (hstatic : Static env r) (fuel : ℕ)
    (hfuel : 4 * (c.listing none).length + 1 < fuel) (w : World) (hfresh : w.sync r = {}) :
    ∃ n w', (backfill env r none fuel).run w = .ok n w' ∧ Complete c w' ∧
      ∀ units : ℕ → ℕ × ℕ, (∀ i, 1 ≤ (units i).1) → ∃ k v,
        Run.exec (backfillUnit env r fuel) w ((List.range (k + 1)).map units) = v ∧
        Complete c v ∧ SameRows w'.db v.db ∧ (v.sync r).phase = "streaming" ∧
        (v.sync r).standing = (w'.sync r).standing ∧
        ∀ j ≤ k, ((Run.exec (backfillUnit env r fuel) w ((List.range j).map units)).sync r).phase ≠
          "streaming" := by
  have hrunning : (w.sync r).phase ≠ "streaming" := by
    rw [hfresh]
    decide
  have hwhole : ∃ n w', (backfill env r none fuel).run w = .ok n w' ∧
      (w'.sync r).phase = "streaming" ∧ UnitsReach env r fuel w w' := by
    cases huat : r.info.supportsUatFilter with
    | true => exact keyset_unitsReach hmethod huat hserves hstatic hfuel hrunning
    | false => exact offset_unitsReach hmethod huat hserves hstatic (by omega) hrunning
  have hsafe : CursorSafe c w := cursorSafe_fresh hfresh
  obtain ⟨n, w', hrun, hphase, hunits⟩ := hwhole
  have hsafe' := keeps_after (keeps_backfill hmethod hserves.answers (hserves.clean none fuel)) hsafe
  rw [World.after_of_run hrun] at hsafe'
  refine ⟨n, w', hrun, hsafe'.complete (.inl hphase), fun units hpositive => ?_⟩
  obtain ⟨k, halike, hbefore⟩ := hunits units hpositive
  have hphase' := (congrArg Prod.fst halike.sync).symm.trans hphase
  have hsafe'' : CursorSafe c (Run.exec (backfillUnit env r fuel) w
      ((List.range (k + 1)).map units)) :=
    (Run.each_of_mem fun _ _ => trivial).invariant hsafe fun v unit hv _ =>
      hv.unit hmethod hserves unit
  exact ⟨k, _, rfl, hsafe''.complete (.inl hphase'), halike.rows, hphase', halike.sync.symm, hbefore⟩

/-- One person. -/
def onePerson : Collection .person :=
  lone .person "1" wholeSecond_marchFirst

theorem backfill_complete_onePerson :
    ∃ n w', (backfill onePerson.serve .person none 6).run {} = .ok n w' ∧
      Complete onePerson w' := by
  obtain ⟨n, w', hrun, hcomplete, -⟩ := backfill_complete .person rfl onePerson onePerson.serve
    onePerson.serve_serves (fun _ _ _ => rfl) 6 (by decide) {} rfl
  exact ⟨n, w', hrun, hcomplete⟩

end PcoMirror
