import PcoMirror.Verification.Ingest.BackfillProgress
import PcoMirror.Verification.Ingest.Clock

/-! A backfill cut into bounded units ends where the unbounded one does. -/

namespace PcoMirror

open Program

variable {r : Res} {env : Env}

/-! ## One page at two times -/

/-- PCO answers a request for a page alike whenever it is asked. -/
def Static (env : Env) (r : Res) : Prop :=
  ∀ tick tick' q, env.respond tick (.collection r q) = env.respond tick' (.collection r q)

/-- What a sync state says of a backfill and of the sweep after it, its times aside. -/
def SyncState.standing (st : SyncState) : String × Option String × List Json × String × String :=
  (st.phase, st.backfillCursorTs, st.backfillSeenIds, st.reconcileWatermark, st.reconcileCursor)

/-- The keyset columns, which offset paging leaves alone. -/
def SyncState.keyset (st : SyncState) : Option String × List Json :=
  (st.backfillCursorTs, st.backfillSeenIds)

section

variable {κ : Type} {view : SyncState → κ} (hstatic : Static env r)

theorem agree_noteParent (body : Json) :
    Agree (Alike r view) (noteParent body) (noteParent body) := by
  refine Agree.bind (agree_ofPy _) fun id => ?_
  cases id with
  | none => exact Agree.pure _
  | some id => exact agree_modify (fun _ => rfl) fun _ => rfl

include hstatic

theorem agree_drainPage (second : String) (off : ℕ) :
    Agree (Alike r view) (drainPage env r second off) (drainPage env r second off) := by
  refine Agree.bind (agree_ofPy _) fun next => Agree.bind (agree_clientGet fun t t' =>
    hstatic t t' _) fun resp => Agree.bind (agree_ofPy _) fun body => Agree.bind (agree_ofPy _)
    fun data => Agree.bind (agree_routePage env _ body _) fun _ => Agree.bind (agree_ofPy _)
    fun items => Agree.bind (agree_ofPy _) fun _ => ?_
  exact Agree.ite (fun _ => Agree.pure _) fun _ => Agree.pure _

theorem agree_backfillStep (fuel : ℕ) (cursor : BackfillCursor) :
    Agree (Alike r SyncState.standing) (backfillStep env r fuel cursor)
      (backfillStep env r fuel cursor) := by
  have hsave : ∀ next : BackfillCursor,
      Agree (Alike r SyncState.standing) (saveBackfill r next) (saveBackfill r next) := by
    refine fun next => agree_setState fun st st' h => ?_
    simp only [SyncState.standing, Prod.mk.injEq] at h ⊢
    exact ⟨trivial, trivial, trivial, h.2.2.2⟩
  refine Agree.bind (agree_clientGet fun t t' => hstatic t t' _) fun resp =>
    Agree.ite (fun _ => Agree.throw _) fun _ => Agree.bind (agree_ofPy _) fun body =>
    Agree.bind (agree_noteParent body) fun _ => Agree.bind (agree_ofPy _) fun data =>
    Agree.ite (fun _ => Agree.pure _) fun _ => Agree.bind (agree_routePage env _ body _) fun _ =>
    Agree.bind (agree_ofPy _) fun items => Agree.bind (agree_ofPy _) fun ids =>
    Agree.bind (agree_ofPy _) fun uats => Agree.ite (fun _ => ?_) fun _ =>
    Agree.ite (fun _ => Agree.pure _) fun _ => ?_
  · exact Agree.bind (Agree.whileTrue (agree_drainPage hstatic cursor.ts) fuel 0) fun _ =>
      Agree.bind (agree_ofPy _) fun next => Agree.bind (hsave _) fun _ => Agree.pure _
  · exact Agree.bind (hsave _) fun _ => Agree.pure _

theorem agree_offsetStep (source : Source) (off : ℕ) :
    Agree (Alike r SyncState.keyset) (offsetStep env r source off)
      (offsetStep env r source off) := by
  refine Agree.bind (agree_clientGet fun t t' => hstatic t t' _) fun resp =>
    Agree.bind (agree_ofPy _) fun body => Agree.bind (agree_ofPy _) fun data =>
    Agree.bind (agree_routePage env _ body _) fun n => Agree.bind (agree_ofPy _) fun items =>
    Agree.ite (fun _ => ?_) fun _ => Agree.pure _
  exact Agree.bind (agree_setState fun st st' h => h) fun _ => Agree.pure _

end

@[simp] theorem sync_after_setState (w : World) (r : Res) (f : SyncState → SyncState) :
    (w.after (setState r f)).sync r = f (w.sync r) :=
  if_pos rfl

/-! ## Units of the keyset -/

/-- The sync state says where a running backfill stands. -/
structure SyncState.At (st : SyncState) (cursor : BackfillCursor) : Prop where
  phase : st.phase = "backfilling"
  ts : st.backfillCursorTs = some cursor.ts
  seen : st.backfillSeenIds = cursor.seen

theorem spec_saveBackfill_at {P : World → Prop} {E : Halt → World → Prop} (next : BackfillCursor) :
    Spec P (saveBackfill r next) (fun _ w => (w.sync r).At next) E := by
  refine Spec.modify fun w _ => ?_
  simp only [if_true]
  exact ⟨rfl, rfl, rfl⟩

/-- A page that goes on has saved where it goes on from. -/
theorem spec_backfillStep_at (fuel : ℕ) (cursor : BackfillCursor) :
    Spec (fun _ => True) (backfillStep env r fuel cursor)
      (fun p w => ∀ next, p.1 = .again next → (w.sync r).At next) fun _ _ => True := by
  refine Spec.bind Spec.trivial fun resp => Spec.ite (fun _ => Spec.throw fun _ h => h)
    fun _ => Spec.bind Spec.trivial fun body => Spec.bind Spec.trivial fun _ =>
    Spec.bind Spec.trivial fun data => Spec.ite (fun _ => Spec.pure fun _ _ => nofun) fun _ =>
    Spec.bind Spec.trivial fun _ => Spec.bind Spec.trivial fun items =>
    Spec.bind Spec.trivial fun ids => Spec.bind Spec.trivial fun uats => Spec.ite (fun _ => ?_)
    fun _ => Spec.ite (fun _ => Spec.pure fun _ _ => nofun) fun _ => ?_
  · refine Spec.bind Spec.trivial fun _ => Spec.bind Spec.trivial fun ts =>
      Spec.bind (spec_saveBackfill_at ⟨ts, []⟩) fun _ => Spec.pure fun w hw next hnext => ?_
    cases hnext
    exact hw
  · refine Spec.bind (spec_saveBackfill_at _) fun _ => Spec.pure fun w hw next hnext => ?_
    cases hnext
    exact hw

theorem backfillPage_run {maxPages : Option ℕ} {p : BackfillPass}
    (h : maxPages.any (· ≤ p.pages) = false) (fuel : ℕ) (w : World) :
    (backfillPage env r maxPages fuel p).run w =
      match (backfillStep env r fuel p.cursor).run w with
      | .ok (.again next, ids) u => .ok (.again ⟨next, p.applied ++ ids, p.pages + 1⟩) u
      | .ok (.leave ts, ids) u => .ok (.leave (.finished ts (p.applied ++ ids))) u
      | .error e u => .error e u := by
  rw [backfillPage, if_neg (by simp [h]), EStateM.run_bind]
  cases (backfillStep env r fuel p.cursor).run w with
  | error e u => rfl
  | ok q u =>
      obtain ⟨pass, ids⟩ := q
      cases pass <;> rfl

theorem backfillPage_run_spent {maxPages : Option ℕ} {p : BackfillPass}
    (h : maxPages.any (· ≤ p.pages) = true) (fuel : ℕ) (w : World) :
    (backfillPage env r maxPages fuel p).run w =
      .ok (.leave (.unfinished p.applied)) (w.after (saveBackfill r p.cursor)) := by
  rw [backfillPage, if_pos h]
  rfl

/-- A unit of the keyset beside the whole of it. -/
structure KeysetPair (r : Res) (p : BackfillPass) (w : World) (p' : BackfillPass) (w' : World) :
    Prop where
  cursor : p'.cursor = p.cursor
  alike : Alike r SyncState.standing w w'
  saved : p'.pages ≠ 0 → (w'.sync r).At p.cursor

/-- Both have read the listing to its end. -/
def KeysetDone (r : Res) (e : BackfillEnd) (t : World) (e' : BackfillEnd) (t' : World) : Prop :=
  ∃ ts applied applied', e = .finished ts applied ∧ e' = .finished ts applied' ∧
    Alike r SyncState.standing t t'

/-- The unit has stopped where the whole goes on. -/
def KeysetPaused (r : Res) (p : BackfillPass) (w : World) (e' : BackfillEnd) (t' : World) : Prop :=
  ∃ applied', e' = .unfinished applied' ∧ Alike r SyncState.standing w t' ∧ (t'.sync r).At p.cursor

theorem cuts_keyset (hstatic : Static env r) (fuel : ℕ) {budget : ℕ} (hbudget : 1 ≤ budget) :
    Cuts (backfillPage env r none fuel) (backfillPage env r (some budget) fuel) budget
      BackfillPass.pages (KeysetPair r) (KeysetDone r) (KeysetPaused r) where
  again := by
    intro p w p' w' q u hpair hspent hrun
    have hsaved := @spec_backfillStep_at r env fuel p.cursor w' trivial
    rw [backfillPage_run rfl] at hrun
    rw [backfillPage_run (by simpa using hspent), hpair.cursor]
    cases hstep : (backfillStep env r fuel p.cursor).run w with
    | error e v => simp [hstep] at hrun
    | ok result v =>
        obtain ⟨v', hstep', halike⟩ :=
          (agree_backfillStep hstatic fuel p.cursor).returns hpair.alike hstep
        obtain ⟨pass, ids⟩ := result
        cases pass with
        | leave ts => simp [hstep] at hrun
        | again next =>
            simp only [hstep, EStateM.Result.ok.injEq, Pass.again.injEq] at hrun
            obtain ⟨rfl, rfl⟩ := hrun
            simp only [hstep'] at hsaved ⊢
            exact ⟨_, v', rfl, rfl, rfl, halike, fun _ => hsaved next rfl⟩
  leave := by
    intro p w p' w' e t hpair hspent hrun
    rw [backfillPage_run rfl] at hrun
    rw [backfillPage_run (by simpa using hspent), hpair.cursor]
    cases hstep : (backfillStep env r fuel p.cursor).run w with
    | error e v => simp [hstep] at hrun
    | ok result v =>
        obtain ⟨v', hstep', halike⟩ :=
          (agree_backfillStep hstatic fuel p.cursor).returns hpair.alike hstep
        obtain ⟨pass, ids⟩ := result
        cases pass with
        | again next => simp [hstep] at hrun
        | leave ts =>
            simp only [hstep, EStateM.Result.ok.injEq, Pass.leave.injEq] at hrun
            obtain ⟨rfl, rfl⟩ := hrun
            simp only [hstep']
            exact ⟨_, v', rfl, ts, _, _, rfl, rfl, halike⟩
  pause := by
    intro p w p' w' hpair hspent
    have hat := hpair.saved (by omega)
    refine ⟨_, _, backfillPage_run_spent (by simpa using hspent) fuel w', _, rfl,
      ⟨hpair.alike.rows, ?_⟩, ?_⟩
    · rw [hpair.alike.sync, hpair.cursor, saveBackfill, sync_after_setState]
      simp only [SyncState.standing, hat.phase, hat.ts, hat.seen]
    · rw [hpair.cursor]
      exact spec_saveBackfill_at (P := fun _ => True) (E := fun _ _ => True) p.cursor w' trivial

/-! ## Units of the offset -/

theorem offsetPage_run {maxPages : Option ℕ} {p : OffsetPass}
    (h : maxPages.any (· ≤ p.pages) = false) (source : Source) (w : World) :
    (offsetPage env r source maxPages p).run w =
      match (offsetStep env r source p.off).run w with
      | .ok (.again off, n) u => .ok (.again ⟨off, p.total + n, p.pages + 1⟩) u
      | .ok (.leave (), n) u => .ok (.leave (true, p.total + n)) u
      | .error e u => .error e u := by
  rw [offsetPage, if_neg (by simp [h]), EStateM.run_bind]
  cases (offsetStep env r source p.off).run w with
  | error e u => rfl
  | ok q u =>
      obtain ⟨pass, n⟩ := q
      cases pass <;> rfl

theorem offsetPage_run_spent {maxPages : Option ℕ} {p : OffsetPass}
    (h : maxPages.any (· ≤ p.pages) = true) (source : Source) (w : World) :
    (offsetPage env r source maxPages p).run w =
      .ok (.leave (false, p.total)) (w.after (setState r fun st =>
        { st with reconcileCursor := toString p.off })) := by
  rw [offsetPage, if_pos h]
  rfl

/-- A unit of the offset walk beside the whole of it. -/
structure OffsetPair (r : Res) (p : OffsetPass) (w : World) (p' : OffsetPass) (w' : World) :
    Prop where
  off : p'.off = p.off
  alike : Alike r SyncState.keyset w w'

/-- Both have read the listing to its end. -/
def OffsetDone (r : Res) (e : Bool × ℕ) (t : World) (e' : Bool × ℕ) (t' : World) : Prop :=
  e'.1 = e.1 ∧ Alike r SyncState.keyset t t'

/-- The unit has stopped where the whole goes on. -/
def OffsetPaused (r : Res) (p : OffsetPass) (w : World) (e' : Bool × ℕ) (t' : World) : Prop :=
  e'.1 = false ∧ Alike r SyncState.keyset w t' ∧
    digitsOrZero (t'.sync r).reconcileCursor = p.off

theorem cuts_offset (hstatic : Static env r) (source : Source) (budget : ℕ) :
    Cuts (offsetPage env r source none) (offsetPage env r source (some budget)) budget
      OffsetPass.pages (OffsetPair r) (OffsetDone r) (OffsetPaused r) where
  again := by
    intro p w p' w' q u hpair hspent hrun
    rw [offsetPage_run rfl] at hrun
    rw [offsetPage_run (by simpa using hspent), hpair.off]
    cases hstep : (offsetStep env r source p.off).run w with
    | error e v => simp [hstep] at hrun
    | ok result v =>
        obtain ⟨v', hstep', halike⟩ :=
          (agree_offsetStep hstatic source p.off).returns hpair.alike hstep
        obtain ⟨pass, n⟩ := result
        cases pass with
        | leave _ => simp [hstep] at hrun
        | again off =>
            simp only [hstep, EStateM.Result.ok.injEq, Pass.again.injEq] at hrun
            obtain ⟨rfl, rfl⟩ := hrun
            simp only [hstep']
            exact ⟨_, v', rfl, rfl, rfl, halike⟩
  leave := by
    intro p w p' w' e t hpair hspent hrun
    rw [offsetPage_run rfl] at hrun
    rw [offsetPage_run (by simpa using hspent), hpair.off]
    cases hstep : (offsetStep env r source p.off).run w with
    | error e v => simp [hstep] at hrun
    | ok result v =>
        obtain ⟨v', hstep', halike⟩ :=
          (agree_offsetStep hstatic source p.off).returns hpair.alike hstep
        obtain ⟨pass, n⟩ := result
        cases pass with
        | again off => simp [hstep] at hrun
        | leave _ =>
            simp only [hstep, EStateM.Result.ok.injEq, Pass.leave.injEq] at hrun
            obtain ⟨rfl, rfl⟩ := hrun
            simp only [hstep']
            exact ⟨_, v', rfl, rfl, halike⟩
  pause := by
    intro p w p' w' hpair hspent
    refine ⟨_, _, offsetPage_run_spent (by simpa using hspent) source w', rfl,
      ⟨hpair.alike.rows, hpair.alike.sync.trans ?_⟩, ?_⟩
    · rw [sync_after_setState]
      rfl
    · rw [sync_after_setState, hpair.off]
      exact digitsOrZero_toString p.off

end PcoMirror
