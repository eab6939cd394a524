import PcoMirror.Verification.Ingest.CursorSafety

/-! Descending sweeps over a collection that changes between them: no update above the
first watermark is lost, where no write falls in the watermark's own second and no failed
page is taken for the end of the list. -/

namespace PcoMirror

open Program

variable {r : Res} {c : Collection r} {env : Env}

/-! ## One cycle -/

/-- What a cycle leaves that set out from this watermark, after this many failures. -/
structure Cycled (c : Collection r) (wm : String) (failures : ℕ) (w : World) : Prop where
  high : HighFrom c wm (w.sync r).reconcileWatermark
  done : (∀ e, c.Has e → wm < stampOf "updated_at" e.2 → w.delivered e.2) ∨
    (w.sync r).reconcileWatermark = wm ∧ failures < w.failures

theorem spec_descendingSweep (hanswers : Answers env c) (hdescent : CleanDescent env r)
    {R : World → Prop} (hR : Grows R) (wm : String) (n : ℕ) (fuel : ℕ) :
    Spec (fun w => (w.sync r).reconcileWatermark = wm ∧ R w ∧ n ≤ w.failures)
      (descendingSweep env r fuel) (fun _ w => R w ∧ Cycled c wm n w)
      fun _ w => R w ∧ (w.sync r).reconcileWatermark = wm := by
  have hP : Persists fun w => (w.sync r).reconcileWatermark = wm ∧ R w ∧ n ≤ w.failures := by
    intro w w' hfollows h
    rw [hfollows.sync]
    exact ⟨h.1, hR.persists w w' hfollows h.2.1, h.2.2.trans hfollows.failures⟩
  have hsave : ∀ p : DescendPass, Spec
      (fun w => ((w.sync r).reconcileWatermark = wm ∧ R w ∧ n ≤ w.failures) ∧ Descended c wm n p w)
      (saveSweep env r p.hi) (fun _ w => R w ∧ Cycled c wm n w)
      fun _ w => R w ∧ (w.sync r).reconcileWatermark = wm := by
    intro p
    have hnow : Spec (fun w => ((w.sync r).reconcileWatermark = wm ∧ R w ∧ n ≤ w.failures) ∧
        Descended c wm n p w) (nowIso env) (fun _ w => R w ∧ Descended c wm n p w)
        fun _ w => R w ∧ (w.sync r).reconcileWatermark = wm :=
      fun w hw => ⟨hR w _ (fun _ h => h) hw.1.2.1, hw.2.done, hw.2.high⟩
    refine Spec.bind hnow fun now => Spec.modify fun w hw => ⟨hR w _ (fun _ h => h) hw.1, ?_, ?_⟩
    · simpa only [if_true] using hw.2.high
    · simp only [if_true]
      exact hw.2.done
  refine spec_state_bind fun st w hw => ?_
  obtain ⟨hw, rfl⟩ := hw
  have hcycle := spec_descending hanswers hdescent hP (fun _ hw => hw.2.2) wm fuel
  rw [hw.1]
  exact Spec.bind (hcycle.mono_halt fun _ _ hw => ⟨hw.2.1, hw.1⟩)
    (fun p => Spec.bind (hsave p) fun _ => Spec.pure fun _ hw => hw) w hw

/-! ## Runs -/

/-- PCO's collection at a second, beside the mirror of it. -/
structure Mirrored (r : Res) where
  pco : Collection r
  second : String
  mirror : World

inductive SweepStep (r : Res) where
  /-- PCO's collection becomes another, at this second. -/
  | change (second : String) (pco : Collection r)
  | cycle (env : Env) (fuel : ℕ)

namespace Mirrored

def watermark (s : Mirrored r) : String :=
  (s.mirror.sync r).reconcileWatermark

def apply (s : Mirrored r) : SweepStep r → Mirrored r
  | .change second pco => { s with pco := pco, second := second }
  | .cycle env fuel => { s with mirror := s.mirror.after (descendingSweep env r fuel) }

end Mirrored

namespace SweepStep

/-- What PCO keeps to: its clock does not run back, a write stamps the current second,
and a `2xx` answer lists the page asked for. -/
def Honest (s : Mirrored r) : SweepStep r → Prop
  | change second pco => s.second ≤ second ∧
    ∀ e, pco.Has e → s.pco.Has e ∨ stampOf "updated_at" e.2 = second
  | cycle env _ => Answers env s.pco

/-- No write above the first watermark stamps the second that is the watermark now, and no
failed page reads as the end of the list. -/
def Lossless (first : String) (s : Mirrored r) : SweepStep r → Prop
  | change _ pco => ∀ e, pco.Has e → ¬ s.pco.Has e → first < stampOf "updated_at" e.2 →
    stampOf "updated_at" e.2 ≠ s.watermark
  | cycle env _ => CleanDescent env r

end SweepStep

/-- Every version above one watermark and up to another has been delivered. -/
def Between (c : Collection r) (first wm : String) (w : World) : Prop :=
  ∀ e, c.Has e → first < stampOf "updated_at" e.2 → stampOf "updated_at" e.2 ≤ wm →
    w.delivered e.2

theorem grows_between (first wm : String) : Grows (Between c first wm) :=
  fun _ _ hmore h e he hfirst hmark => hmore _ (h e he hfirst hmark)

/-- Between two steps: the versions up to the stored watermark have been delivered, and it
is not ahead of PCO's clock. -/
structure Caught (first : String) (s : Mirrored r) : Prop where
  past : ∀ e, s.pco.Has e → stampOf "updated_at" e.2 ≤ s.second
  mark : s.watermark = first ∨ s.watermark ≤ s.second
  caught : Between s.pco first s.watermark s.mirror

theorem Caught.change {first second : String} {s : Mirrored r} {pco : Collection r}
    (h : Caught first s) (hhonest : SweepStep.Honest s (.change second pco))
    (hlossless : SweepStep.Lossless first s (.change second pco)) :
    Caught first (s.apply (.change second pco)) := by
  obtain ⟨hclock, hwritten⟩ := hhonest
  refine ⟨fun e he => ?_, h.mark.imp id fun hmark => hmark.trans hclock, fun e he hfirst hmark => ?_⟩
  · rcases hwritten e he with hold | hnew
    · exact (h.past e hold).trans hclock
    · exact hnew.le
  · by_cases hold : s.pco.Has e
    · exact h.caught e hold hfirst hmark
    · -- A new version is stamped now, so it can only meet the watermark, not stay below it.
      have hstamp := (hwritten e he).resolve_left hold
      have hbehind : s.watermark ≤ second := by
        rcases h.mark with hsame | hle
        · exact absurd (hsame ▸ hmark) (not_le.mpr hfirst)
        · exact hle.trans hclock
      exact absurd (le_antisymm hmark (hstamp ▸ hbehind)) (hlossless e he hold hfirst)

theorem Caught.spec_cycle {first : String} {env : Env} {fuel : ℕ} {s : Mirrored r}
    (h : Caught first s) (hhonest : SweepStep.Honest s (.cycle env fuel))
    (hlossless : SweepStep.Lossless first s (.cycle env fuel)) :
    Spec (fun w => w = s.mirror) (descendingSweep env r fuel)
      (fun _ w => Between s.pco first s.watermark w ∧
        Cycled s.pco s.watermark s.mirror.failures w)
      fun _ w => Between s.pco first s.watermark w ∧
        (w.sync r).reconcileWatermark = s.watermark := by
  refine (spec_descendingSweep hhonest hlossless (grows_between first s.watermark) s.watermark
    s.mirror.failures fuel).conseq ?_ (fun _ _ hw => hw) fun _ _ hw => hw
  rintro _ rfl
  exact ⟨rfl, h.caught, le_rfl⟩

theorem Caught.cycle {first : String} {env : Env} {fuel : ℕ} {s : Mirrored r}
    (h : Caught first s) (hhonest : SweepStep.Honest s (.cycle env fuel))
    (hlossless : SweepStep.Lossless first s (.cycle env fuel)) :
    Caught first (s.apply (.cycle env fuel)) := by
  obtain ⟨hcaught, hcycled⟩ := spec_after (I := fun w => Between s.pco first s.watermark w ∧
      (Cycled s.pco s.watermark s.mirror.failures w ∨
        (w.sync r).reconcileWatermark = s.watermark))
    ((h.spec_cycle hhonest hlossless).conseq (fun _ hw => hw)
      (fun _ _ hw => ⟨hw.1, .inl hw.2⟩) fun _ _ hw => ⟨hw.1, .inr hw.2⟩) rfl
  refine ⟨h.past, ?_, fun e he hfirst hmark => ?_⟩
  · have hhigh := hcycled.elim Cycled.high .inl
    rcases hhigh with hsame | ⟨e, he, hstamp⟩
    · exact h.mark.imp hsame.trans hsame.le.trans
    · exact .inr (hstamp.le.trans (h.past e he))
  · by_cases hle : stampOf "updated_at" e.2 ≤ s.watermark
    · exact hcaught e he hfirst hle
    · have hmoved : (s.apply (.cycle env fuel)).watermark ≠ s.watermark :=
        fun hsame => hle (hmark.trans hsame.le)
      have hcycled := hcycled.resolve_right hmoved
      exact hcycled.done.resolve_right (fun hstayed => hmoved hstayed.1) e he (not_le.mp hle)

/-- Over any run of writes and sweeps of which none loses an update, a sweep with every
page answered `2xx` leaves each record above the first watermark delivered in its current
version. -/
theorem sweeps_lose_nothing (r : Res) (s : Mirrored r)
    (hpast : ∀ e, s.pco.Has e → stampOf "updated_at" e.2 ≤ s.second) (steps : List (SweepStep r))
    (env : Env) (fuel : ℕ)
    (hhonest : Run.Each Mirrored.apply SweepStep.Honest s (steps ++ [.cycle env fuel]))
    (hlossless : Run.Each Mirrored.apply (SweepStep.Lossless s.watermark) s
      (steps ++ [.cycle env fuel])) (n : ℕ) (w : World)
    (hrun : (descendingSweep env r fuel).run (Run.exec Mirrored.apply s steps).mirror = .ok n w)
    (hanswered : w.failures = (Run.exec Mirrored.apply s steps).mirror.failures) :
    ∀ e, (Run.exec Mirrored.apply s steps).pco.Has e →
      s.watermark < stampOf "updated_at" e.2 → w.delivered e.2 := by
  obtain ⟨hhonest, hlast⟩ := Run.each_append.mp hhonest
  obtain ⟨hlossless, hlastLossless⟩ := Run.each_append.mp hlossless
  have hcaught : Caught s.watermark (Run.exec Mirrored.apply s steps) := by
    have hstart : Caught s.watermark s :=
      ⟨hpast, .inl rfl, fun e _ hfirst hmark => absurd hmark (not_le.mpr hfirst)⟩
    refine (hhonest.and hlossless).invariant hstart fun s op hs hop => ?_
    cases op with
    | change second pco => exact hs.change hop.1 hop.2
    | cycle env fuel => exact hs.cycle hop.1 hop.2
  have hcycle := hcaught.spec_cycle hlast.1 hlastLossless.1 _ rfl
  simp only [hrun] at hcycle
  intro e he hfirst
  by_cases hle : stampOf "updated_at" e.2 ≤ (Run.exec Mirrored.apply s steps).watermark
  · exact hcycle.1 e he hfirst hle
  · exact hcycle.2.done.resolve_right (fun hstayed => by omega) e he (not_le.mp hle)

theorem stamp_lone {id second : String} (h : Iso8601.WholeSecond second) {e : String × Json}
    (he : (lone r id h).Has e) : stampOf "updated_at" e.2 = second := by
  obtain rfl := List.mem_singleton.mp he
  rfl

theorem cleanDescent_serve (c : Collection r) : CleanDescent c.serve r := by
  rintro tick off body ⟨resp, hresp, hok, -⟩
  obtain ⟨status, body', hserved, hlow, hhigh, -⟩ := c.serve_serves tick _
  obtain rfl := Except.ok.inj (hresp.symm.trans hserved)
  simp [Response.ok, hlow, hhigh] at hok

/-- The second after the first of March 2024. -/
def marchNext : String :=
  "2024-03-01T00:00:01Z"

theorem wholeSecond_marchNext : Iso8601.WholeSecond marchNext :=
  ⟨⟨2024, 3, 1, 0, 0, 1⟩, by decide, by decide, by decide⟩

/-- A sweep reads an address, which is then replaced by another at a second. -/
def replacedAt {second : String} (h : Iso8601.WholeSecond second) : List (SweepStep .address) :=
  [.cycle oneAddress.serve 2, .change second (lone .address "2" h)]

theorem honest_replacedAt {second : String} (h : Iso8601.WholeSecond second)
    (hclock : marchFirst ≤ second) :
    Run.Each Mirrored.apply SweepStep.Honest ⟨oneAddress, marchFirst, {}⟩
      (replacedAt h ++ [.cycle (lone .address "2" h).serve 2]) :=
  ⟨oneAddress.serve_serves.answers, ⟨hclock, fun _ he => .inr (stamp_lone h he)⟩,
    (lone .address "2" h).serve_serves.answers, trivial⟩

theorem sweeps_lose_nothing_next :
    ∃ n w, (descendingSweep (lone .address "2" wholeSecond_marchNext).serve .address 2).run
        (Run.exec Mirrored.apply ⟨oneAddress, marchFirst, {}⟩
          (replacedAt wholeSecond_marchNext)).mirror = .ok n w ∧
      ∀ e, (lone .address "2" wholeSecond_marchNext).Has e → "" < stampOf "updated_at" e.2 →
        w.delivered e.2 := by
  refine ⟨_, _, rfl, sweeps_lose_nothing .address ⟨oneAddress, marchFirst, {}⟩
    (fun e he => (stamp_lone wholeSecond_marchFirst he).le) (replacedAt wholeSecond_marchNext) _ 2
    (honest_replacedAt wholeSecond_marchNext (by decide))
    ⟨cleanDescent_serve _, fun e he _ _ => ?_, cleanDescent_serve _, trivial⟩ _ _ rfl rfl⟩
  rw [stamp_lone wholeSecond_marchNext he]
  decide

/-- A write in the second that a sweep has just read is never routed. -/
theorem sweeps_lose_update :
    ¬ ∀ (r : Res) (s : Mirrored r), (∀ e, s.pco.Has e → stampOf "updated_at" e.2 ≤ s.second) →
      ∀ (steps : List (SweepStep r)) (env : Env) (fuel : ℕ),
        Run.Each Mirrored.apply SweepStep.Honest s (steps ++ [.cycle env fuel]) →
      ∀ n w, (descendingSweep env r fuel).run (Run.exec Mirrored.apply s steps).mirror = .ok n w →
        w.failures = (Run.exec Mirrored.apply s steps).mirror.failures →
      ∀ e, (Run.exec Mirrored.apply s steps).pco.Has e →
        s.watermark < stampOf "updated_at" e.2 → w.delivered e.2 := by
  intro h
  obtain ⟨status, -, -, hentry⟩ := h .address ⟨oneAddress, marchFirst, {}⟩
    (fun e he => (stamp_lone wholeSecond_marchFirst he).le) (replacedAt wholeSecond_marchFirst) _ 2
    (honest_replacedAt wholeSecond_marchFirst le_rfl) _ _ rfl rfl _ (.head _) (by decide)
  have hlog : (Run.exec Mirrored.apply ⟨oneAddress, marchFirst, {}⟩
      (replacedAt wholeSecond_marchFirst)).mirror.log =
      [.handed 200 (dated .address "1" marchFirst),
        .exchange (.collection .address { order := some "-updated_at", offset := some 0 })
          (.ok ⟨200, .json (.obj [("data", .arr [dated .address "1" marchFirst])])⟩)] := rfl
  simp [hlog, dated] at hentry

end PcoMirror
