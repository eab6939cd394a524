import Mathlib.Data.List.Induction
import PcoMirror.Lib.Run
import PcoMirror.Model.Limiter

/-! How long a 429 is waited out, when other answers arrive meanwhile. -/

namespace PcoMirror

variable {s : Limited} {now : ℚ} {event : LimiterEvent} {events : List (ℚ × LimiterEvent)}

/-- The pause an answer asks for. -/
def LimiterEvent.pause : LimiterEvent → Option ℚ
  | .response h => h.rates.bind fun r => if 9 / 10 * r.limit ≤ r.count then some r.period else none
  | .tooMany retryAfter => some (RateLimiter.backOff (retryAfterSeconds retryAfter))
  | _ => none

/-- When the back-off ends that a 429 asked for. -/
def LimiterEvent.backOffEnd (now : ℚ) : LimiterEvent → Option ℚ
  | .tooMany retryAfter => (retryAfterSeconds retryAfter).map (now + ·)
  | _ => none

/-- No answer asks for a pause that ends before the back-off of an earlier 429. -/
def AnswersInOrder (events : List (ℚ × LimiterEvent)) : Prop :=
  ∀ pre now event post, events = pre ++ (now, event) :: post → ∀ pause, event.pause = some pause →
    ∀ e ∈ pre, ∀ stop, e.2.backOffEnd e.1 = some stop → stop ≤ now + pause

/-- No request is granted before the back-off of an earlier 429 has ended. -/
def Limited.BacksOff (s : Limited) (events : List (ℚ × LimiterEvent)) : Prop :=
  ∀ pre e post, events = pre ++ e :: post → ∀ granted,
    (Run.exec Limited.step s pre).grant e = some granted →
    ∀ e' ∈ pre, ∀ stop, e'.2.backOffEnd e'.1 = some stop → stop ≤ granted

theorem RateLimiter.tryAcquire_pauseUntil (l : RateLimiter) (now floor : ℚ) :
    (l.tryAcquire now floor).1.pauseUntil = l.pauseUntil := by
  unfold RateLimiter.tryAcquire
  dsimp only
  split <;> rfl

/-- The deadline is written by the answers, and by nothing else. -/
theorem Limited.pauseUntil_step (s : Limited) (now : ℚ) (event : LimiterEvent) :
    (s.step (now, event)).limiter.pauseUntil =
      event.pause.elim s.limiter.pauseUntil (now + ·) := by
  cases event with
  | acquire caller priority maxWait => rfl
  | tooMany retryAfter => rfl
  | wake caller =>
      rw [Limited.step]
      cases s.acquiring caller with
      | none => rfl
      | some call =>
          have hpause := s.limiter.tryAcquire_pauseUntil now call.floor
          rcases htry : s.limiter.tryAcquire now call.floor with ⟨l, wait⟩
          rw [htry] at hpause
          dsimp only
          rw [htry]
          cases wait <;> exact hpause
  | response h =>
      simp only [Limited.step, RateLimiter.onResponse, LimiterEvent.pause]
      cases h.rates with
      | none => rfl
      | some r =>
          simp only [Option.bind_some]
          split <;> rfl

/-- A back-off ends no later than the pause of its 429. -/
theorem LimiterEvent.backOffEnd_le {stop : ℚ} (h : event.backOffEnd now = some stop) :
    ∃ pause, event.pause = some pause ∧ stop ≤ now + pause := by
  cases event with
  | tooMany retryAfter =>
      obtain ⟨seconds, hseconds, rfl⟩ := Option.map_eq_some_iff.mp h
      refine ⟨_, rfl, add_le_add_right ?_ now⟩
      rw [hseconds, RateLimiter.backOff]
      split_ifs with hzero
      · rw [hzero]
        norm_num
      · exact le_rfl
  | _ => cases h

/-- A request is granted when the pause is over. -/
theorem Limited.pauseUntil_le_of_grant {e : ℚ × LimiterEvent} {granted : ℚ}
    (h : s.grant e = some granted) : s.limiter.pauseUntil ≤ granted := by
  obtain ⟨now, event⟩ := e
  cases event with
  | wake caller =>
      obtain ⟨call, -, htry⟩ := Option.bind_eq_some_iff.mp h
      obtain ⟨hnone, hnow⟩ := Option.ite_none_right_eq_some.mp htry
      cases hnow
      unfold RateLimiter.tryAcquire at hnone
      dsimp only at hnone
      split at hnone
      · rename_i hgrant
        exact hgrant.2
      · cases hnone
  | _ => cases h

/-- While answers come in order, the deadline is past the end of every back-off so far. -/
theorem AnswersInOrder.le_pauseUntil (h : AnswersInOrder events) (s : Limited) :
    ∀ e ∈ events, ∀ stop, e.2.backOffEnd e.1 = some stop →
      stop ≤ (Run.exec Limited.step s events).limiter.pauseUntil := by
  induction events using List.reverseRecOn with
  | nil => exact nofun
  | append_singleton events last ih =>
      obtain ⟨now, event⟩ := last
      have hearlier := ih fun pre now' event' post hevents =>
        h pre now' event' (post ++ [(now, event)]) (by rw [hevents]; simp)
      rw [Run.exec_append, Run.exec_cons, Run.exec_nil, Limited.pauseUntil_step]
      intro e he stop hstop
      rcases List.mem_append.mp he with he | he
      · cases hpause : event.pause with
        | none => exact hearlier e he stop hstop
        | some pause => exact h events now event [] rfl pause hpause e he stop hstop
      · obtain rfl := List.mem_singleton.mp he
        obtain ⟨pause, hpause, hle⟩ := LimiterEvent.backOffEnd_le hstop
        rw [hpause]
        exact hle

/-- Where no answer asks for a shorter pause, no back-off is cut short. -/
theorem backsOff_of_inOrder (s : Limited) (events : List (ℚ × LimiterEvent))
    (h : AnswersInOrder events) : s.BacksOff events := by
  intro pre e post hevents granted hgrant e' he' stop hstop
  have hpre : AnswersInOrder pre := fun pre' now event post' hpre =>
    h pre' now event (post' ++ e :: post) (by rw [hevents, hpre]; simp)
  exact (hpre.le_pauseUntil s e' he' stop hstop).trans (Limited.pauseUntil_le_of_grant hgrant)

/-- Two refusals, the second with the longer wait. -/
def refusedTwice : List (ℚ × LimiterEvent) :=
  [(0, .tooMany (some "1")), (1 / 2, .tooMany (some "60")), (61, .acquire 1 .passthrough none),
    (61, .wake 1)]

theorem backsOff_of_inOrder_refusedTwice :
    Limited.BacksOff ⟨RateLimiter.new 4 0, fun _ => none⟩ refusedTwice := by
  refine backsOff_of_inOrder _ _ ?_
  intro pre now event post hevents pause hpause e he stop hstop
  have hone : LimiterEvent.backOffEnd 0 (.tooMany (some "1")) = some 1 := by decide +kernel
  have htwo : LimiterEvent.pause (.tooMany (some "60")) = some 60 := by decide +kernel
  match pre, hevents with
  | [], _ => cases he
  | [_], hevents =>
      cases hevents
      obtain rfl := List.mem_singleton.mp he
      cases hone.symm.trans hstop
      cases htwo.symm.trans hpause
      norm_num
  | [_, _], hevents =>
      cases hevents
      cases hpause
  | [_, _, _], hevents =>
      cases hevents
      cases hpause
  | _ :: _ :: _ :: _ :: pre, hevents => simp [refusedTwice] at hevents

/-- A later 429 with the shorter wait cuts the first one's short. -/
theorem backOff_cut_short :
    ¬ Limited.BacksOff ⟨RateLimiter.new 4 0, fun _ => none⟩
      [(0, .tooMany (some "60")), (1, .tooMany (some "1")), (3, .acquire 1 .passthrough none),
        (3, .wake 1)] := by
  intro h
  have hgranted := h [(0, .tooMany (some "60")), (1, .tooMany (some "1")),
    (3, .acquire 1 .passthrough none)] (3, .wake 1) [] rfl 3 (by decide +kernel)
    (0, .tooMany (some "60")) (by simp) 60 (by decide +kernel)
  exact absurd hgranted (by norm_num)

end PcoMirror
