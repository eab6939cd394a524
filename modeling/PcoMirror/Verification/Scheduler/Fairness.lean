import Mathlib.Algebra.Order.Ring.Rat
import PcoMirror.Model.Scheduler
import PcoMirror.Verification.Writer.Operations

/-! The cold lane serves every unit that stays due, where a turn never goes back past it. -/

namespace PcoMirror

open Program

variable {env : ColdEnv} {c c' : Cold} {u : ColdUnit}

/-! ## The ring -/

theorem coldUnits_nodup : coldUnits.Nodup := by
  decide

/-- Whatever is due, the ring keeps the order of the registry. -/
theorem coldRing_sublist {now : String} {w : World} {ring : List ColdUnit}
    (h : coldRing env now w = .ok ring) :
    ring.Sublist coldUnits := by
  rw [coldRing] at h
  obtain ⟨audits, haudits, hring⟩ := except_bind_eq_ok.mp h
  cases hring
  rw [eq_filter_of_filterM haudits]
  exact (List.filter_sublist.map _).append (List.filter_sublist.map _)

/-! ## One call -/

/-- The clock has been read, and nothing else has happened. -/
def Waited (c c' : Cold) : Prop :=
  ∃ tick, c.tick ≤ tick ∧ c' = { c with tick := tick }

theorem coldReady_run (env : ColdEnv) (key : ColdKey) (c : Cold) :
    (coldReady env key).run c =
      .ok (decide (c.retryAt key ≤ env.monotonic c.tick)) { c with tick := c.tick + 1 } := rfl

theorem waited_of_lateBackfill {rs : List Res}
    (h : (lateBackfill env rs).run c = .ok false c') : Waited c c' := by
  induction rs generalizing c with
  | nil =>
      cases h
      exact ⟨_, le_rfl, rfl⟩
  | cons r rs ih =>
      rw [lateBackfill] at h
      change (if (c.world.sync r).backfillCompletedAt.isSome = true then lateBackfill env rs
        else _ : ColdM Bool).run c = _ at h
      split_ifs at h with hdone
      · exact ih h
      · rw [run_bind_of_ok (coldReady_run env _ c)] at h
        cases hready : decide (c.retryAt (.backfill r) ≤ env.monotonic c.tick) with
        | true =>
            simp only [hready, Bool.not_true, Bool.false_eq_true, if_false] at h
            obtain ⟨ok, c₁, -, h⟩ := run_bind_eq_ok.mp h
            obtain ⟨_, c₂, -, h⟩ := run_bind_eq_ok.mp h
            cases h
        | false =>
            simp only [hready, Bool.not_false, if_true] at h
            obtain ⟨tick, hle, rfl⟩ := ih h
            exact ⟨tick, (Nat.le_succ _).trans hle, rfl⟩

theorem guarded_frame {m : Proc Unit} {ok : Bool} (h : (guarded m).run c = .ok ok c') :
    ∃ w, c' = { c with world := w } := by
  have hget : (get : ColdM Cold).run c = .ok c c := rfl
  rw [guarded, run_bind_of_ok hget] at h
  cases hm : m.run c.world with
  | ok _ w =>
      simp only [hm] at h
      cases h
      exact ⟨w, rfl⟩
  | error halt w =>
      cases halt with
      | raised e =>
          simp only [hm] at h
          cases h
          exact ⟨w, rfl⟩
      | stopped =>
          simp only [hm] at h
          cases h

theorem coldOutcome_frame {key : ColdKey} {ok : Bool} {a : PUnit}
    (h : (coldOutcome env key ok).run c = .ok a c') : c'.ran = c.ran := by
  cases ok with
  | true =>
      cases h
      rfl
  | false =>
      cases h
      rfl

/-- Of a ring with a unit that is ready, that unit runs or one before it. -/
theorem runRing_serves {pre post : List ColdUnit} {b : Bool} (hclock : Monotone env.monotonic)
    (hready : c.retryAt (.unit u) ≤ env.monotonic c.tick)
    (h : (runRing env (pre ++ u :: post)).run c = .ok b c') :
    ∃ v, (v ∈ pre ∨ v = u) ∧ c'.ringLast = some v ∧ c'.ran = v :: c.ran := by
  have hserve {v : ColdUnit} {rest : List ColdUnit} {c : Cold}
      (hready : c.retryAt (.unit v) ≤ env.monotonic c.tick)
      (h : (runRing env (v :: rest)).run c = .ok b c') :
      c'.ringLast = some v ∧ c'.ran = v :: c.ran := by
    rw [runRing, run_bind_of_ok (coldReady_run env _ c)] at h
    simp only [hready, decide_true, Bool.not_true, Bool.false_eq_true, if_false] at h
    obtain ⟨ok, c₁, hguard, h⟩ := run_bind_eq_ok.mp h
    obtain ⟨_, c₂, houtcome, h⟩ := run_bind_eq_ok.mp h
    cases h
    obtain ⟨w, rfl⟩ := guarded_frame hguard
    have hran := coldOutcome_frame houtcome
    exact ⟨rfl, congrArg (v :: ·) hran⟩
  induction pre generalizing c with
  | nil =>
      obtain ⟨hlast, hran⟩ := hserve hready h
      exact ⟨u, .inr rfl, hlast, hran⟩
  | cons first pre ih =>
      by_cases hfirst : c.retryAt (.unit first) ≤ env.monotonic c.tick
      · obtain ⟨hlast, hran⟩ := hserve hfirst h
        exact ⟨first, .inl (by simp), hlast, hran⟩
      · rw [List.cons_append, runRing, run_bind_of_ok (coldReady_run env _ c)] at h
        simp only [hfirst, decide_false, Bool.not_false, if_true] at h
        have hlater : c.retryAt (.unit u) ≤ env.monotonic (c.tick + 1) :=
          hready.trans (hclock (Nat.le_succ _))
        obtain ⟨v, hv, hlast, hran⟩ := @ih { c with tick := c.tick + 1 } hlater h
        exact ⟨v, hv.imp_left (List.mem_cons_of_mem _), hlast, hran⟩

/-! ## Runs -/

/-- The state of a call once it has read the wall clock. -/
def Cold.dated (c : Cold) (call : ColdCall) : Cold :=
  c.found { call with world := { call.world with tick := call.world.tick + 1 } }

/-- What is due at a call. -/
def ColdCall.ring (call : ColdCall) : Except PyError (List ColdUnit) :=
  coldRing call.env (call.env.env.now call.world.tick)
    { call.world with tick := call.world.tick + 1 }

/-- A call that runs no backfill and returns, at which the unit is due and ready. -/
structure Offered (u : ColdUnit) (c : Cold) (call : ColdCall) : Prop where
  clock : Monotone call.env.monotonic
  quiet : ∃ c', (lateBackfill call.env fullAndLite).run (c.dated call) = .ok false c'
  due : ∃ ring, call.ring = .ok ring ∧ u ∈ ring
  ready : c.retryAt (.unit u) ≤ call.env.monotonic c.tick
  returns : ∃ b c', (runColdOnce call.env).run (c.found call) = .ok b c'

/-- The unit that ran last is still in the ring, or the unit does not come after it. -/
def Unpassed (u : ColdUnit) (c : Cold) (call : ColdCall) : Prop :=
  ∀ ring, call.ring = .ok ring → RoundRobin.NotPassed coldUnits ring u c.ringLast

/-- A call that offers a unit its turn serves it, or one nearer to the last. -/
theorem Offered.serves {call : ColdCall} (h : Offered u c call) (hpassed : Unpassed u c call) :
    ∃ v, RoundRobin.Turn coldUnits u c.ringLast v ∧ (c.call call).ringLast = some v ∧
      (c.call call).ran = v :: c.ran := by
  obtain ⟨ring, hring, hu⟩ := h.due
  obtain ⟨c₁, hquiet⟩ := h.quiet
  obtain ⟨b, c', hreturns⟩ := h.returns
  have hcall : c.call call = c' := by
    rw [Cold.call, final, hreturns]
  obtain ⟨tick, hle, rfl⟩ := waited_of_lateBackfill hquiet
  have hnow : (coldNow call.env).run (c.found call) =
      .ok (call.env.env.now call.world.tick) (c.dated call) := rfl
  have hrest : (runRing call.env (RoundRobin.rotated c.ringLast ring)).run
      { c.dated call with tick := tick } = .ok b c' := by
    have hget : (get : ColdM Cold).run { c.dated call with tick := tick } =
        .ok { c.dated call with tick := tick } { c.dated call with tick := tick } := rfl
    have hring' : coldRing call.env (call.env.env.now call.world.tick) (c.dated call).world =
        .ok ring := hring
    rw [runColdOnce, run_bind_of_ok hnow, run_bind_of_ok hquiet] at hreturns
    simp only [Bool.false_eq_true, if_false, run_bind_of_ok hget, hring'] at hreturns
    exact hreturns
  obtain ⟨pre, post, hsplit⟩ := List.append_of_mem (RoundRobin.mem_rotated.mpr hu)
  rw [hsplit] at hrest
  have hready : c.retryAt (.unit u) ≤ call.env.monotonic tick := h.ready.trans (h.clock hle)
  obtain ⟨v, hv, hlast, hran⟩ := runRing_serves h.clock hready hrest
  rw [hcall]
  exact ⟨v, RoundRobin.turn_of_rotated coldUnits_nodup (coldRing_sublist hring)
    (hpassed ring hring) hsplit hv, hlast, hran⟩

/-- The units that a run of such calls serves are turns. -/
theorem exists_turns {calls : List ColdCall}
    (h : Run.Each Cold.call (fun c call => Offered u c call ∧ Unpassed u c call) c calls) :
    ∃ served, served.length = calls.length ∧
      Run.Each (fun _ v => some v) (RoundRobin.Turn coldUnits u) c.ringLast served ∧
      (Run.exec Cold.call c calls).ran = served.reverse ++ c.ran := by
  induction calls generalizing c with
  | nil => exact ⟨[], rfl, trivial, rfl⟩
  | cons call calls ih =>
      obtain ⟨v, hturn, hlast, hran⟩ := h.1.1.serves h.1.2
      obtain ⟨served, hlength, hturns, hrest⟩ := ih h.2
      rw [hlast] at hturns
      refine ⟨v :: served, by rw [List.length_cons, hlength, List.length_cons], ⟨hturn, hturns⟩, ?_⟩
      rw [Run.exec_cons, hrest, hran, List.reverse_cons, List.append_assoc]
      rfl

/-- A unit that is due and ready at every call, and that no turn goes back past, runs within as many
calls as there are units. -/
theorem cold_fair {calls : List ColdCall}
    (h : Run.Each Cold.call (fun c call => Offered u c call ∧ Unpassed u c call) c calls)
    (hlength : coldUnits.length ≤ calls.length) :
    ∃ served, (Run.exec Cold.call c (calls.take coldUnits.length)).ran = served ++ c.ran ∧
      u ∈ served := by
  obtain ⟨served, hserved, hturns, hran⟩ := exists_turns (h.take coldUnits.length)
  refine ⟨served.reverse, hran, List.mem_reverse.mpr ?_⟩
  have hu : u ∈ coldUnits := by
    cases calls with
    | nil => exact absurd hlength (by decide)
    | cons call calls =>
        obtain ⟨ring, hring, hmem⟩ := h.1.1.due
        exact (coldRing_sublist hring).subset hmem
  refine RoundRobin.served_of_turns hu hturns ?_
  rw [hserved, List.length_take, min_eq_left hlength]
  exact RoundRobin.gap_le (List.idxOf_lt_length_of_mem hu)

/-! ## Two audits before a walk -/

/-- A mirror that is all backfilled, with one walk due, and an audit that an operator has asked
for. -/
def askedWorld (r : Res) : World where
  sync := fun u => {
    backfillCompletedAt := some "2024-03-01T00:00:00Z"
    nextRunAt := if u = .formSubmission then none else some "9999-01-01T00:00:00Z" }
  auditRequest := fun u => if u = r then some "operator 2024-03-01T00:00:00Z" else none

/-- A PCO that answers nothing, and a lane whose ticks lie far apart. -/
def slowEnv : ColdEnv where
  env := quietEnv
  monotonic := fun tick => 1000 * tick
  auditIntervalHours := 0
  fuel := 10

def askedCall (r : Res) : ColdCall where
  world := askedWorld r
  env := slowEnv

theorem monotone_slowEnv : Monotone slowEnv.monotonic := by
  intro a b hab
  have hcast : (a : ℚ) ≤ b := Nat.cast_le.mpr hab
  exact mul_le_mul_of_nonneg_left hcast (by norm_num)

/-- Whether a call offers the unit its turn. -/
def offers (u : ColdUnit) (c : Cold) (call : ColdCall) : Bool :=
  endsWith (lateBackfill call.env fullAndLite) (c.dated call) (fun ran => !ran) &&
    (match call.ring with
      | .ok ring => ring.contains u
      | .error _ => false) &&
    decide (c.retryAt (.unit u) ≤ call.env.monotonic c.tick) &&
    endsWith (runColdOnce call.env) (c.found call) fun _ => true

theorem offered_of_offers {call : ColdCall} (hclock : Monotone call.env.monotonic)
    (h : offers u c call = true) : Offered u c call := by
  simp only [offers, Bool.and_eq_true, decide_eq_true_eq] at h
  obtain ⟨⟨⟨hquiet, hdue⟩, hready⟩, hreturns⟩ := h
  obtain ⟨ran, c₁, hquiet, hran⟩ := exists_of_endsWith hquiet
  obtain ⟨b, c₂, hreturns, -⟩ := exists_of_endsWith hreturns
  have hring : ∃ ring, call.ring = .ok ring ∧ u ∈ ring := by
    split at hdue
    · case h_1 ring heq => exact ⟨ring, heq, by simpa using hdue⟩
    · cases hdue
  cases ran with
  | true => cases hran
  | false => exact ⟨hclock, ⟨c₁, hquiet⟩, hring, hready, b, c₂, hreturns⟩

/-- The person audit, and a walk behind it. -/
def oneAudit : List ColdCall :=
  List.replicate 10 (askedCall .person)

theorem cold_fair_oneAudit :
    ∃ served, (Run.exec Cold.call {} (oneAudit.take coldUnits.length)).ran = served ++ [] ∧
      .walk .formSubmission ∈ served := by
  have hoffers : Run.Each Cold.call (fun c call => offers (.walk .formSubmission) c call = true ∧
      ∀ k ∈ c.ringLast, k ∈ [ColdUnit.audit .person, .walk .formSubmission]) {} oneAudit := by
    decide +kernel
  have hring : (askedCall .person).ring = .ok [.audit .person, .walk .formSubmission] := by
    decide +kernel
  have hcalls : ∀ call ∈ oneAudit, call = askedCall .person := fun call h =>
    List.eq_of_mem_replicate h
  have hsame : Run.Each Cold.call (fun _ call => call = askedCall .person) {} oneAudit :=
    Run.each_of_mem hcalls
  refine cold_fair ((hoffers.and hsame).mono (I := fun _ => True) trivial ?_) (by decide)
  rintro c call - ⟨⟨hoffer, hlast⟩, rfl⟩
  refine ⟨trivial, offered_of_offers monotone_slowEnv hoffer, fun ring heq k hk => .inl ?_⟩
  cases hring.symm.trans heq
  exact hlast k hk

/-- Two audits that leave the ring in turn keep a walk behind them from ever running. -/
def twoAudits : List ColdCall :=
  (List.replicate 5 [askedCall .person, askedCall .email]).flatten

theorem cold_not_fair : ¬ ∀ (u : ColdUnit) (c : Cold) (calls : List ColdCall),
    Run.Each Cold.call (Offered u) c calls → coldUnits.length ≤ calls.length →
      ∃ served, (Run.exec Cold.call c (calls.take coldUnits.length)).ran = served ++ c.ran ∧
        u ∈ served := by
  intro h
  have hoffers : Run.Each Cold.call (fun c call => offers (.walk .formSubmission) c call = true)
      {} twoAudits := by
    decide +kernel
  have hcalls : ∀ call ∈ twoAudits, Monotone call.env.monotonic := by
    intro call hcall
    obtain ⟨pair, hpair, hmem⟩ := List.mem_flatten.mp hcall
    rw [List.eq_of_mem_replicate hpair] at hmem
    rcases List.mem_pair.mp hmem with rfl | rfl
    · exact monotone_slowEnv
    · exact monotone_slowEnv
  have hsame : Run.Each Cold.call (fun _ call => Monotone call.env.monotonic) {} twoAudits :=
    Run.each_of_mem hcalls
  obtain ⟨served, hran, hmem⟩ := h (.walk .formSubmission) {} twoAudits
    ((hoffers.and hsame).mono (I := fun _ => True) trivial fun c call _ hcall =>
      ⟨trivial, offered_of_offers hcall.2 hcall.1⟩) (by decide)
  have hnever : ColdUnit.walk .formSubmission ∉
      (Run.exec Cold.call {} (twoAudits.take coldUnits.length)).ran := by
    decide +kernel
  rw [hran] at hnever
  exact hnever (List.mem_append_left _ hmem)

end PcoMirror
