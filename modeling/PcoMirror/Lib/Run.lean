import Mathlib.Data.List.Basic
import Mathlib.Order.Bounds.Basic
import Mathlib.Order.MinMax

/-! Runs of a system that takes one operation after another: what holds at every
step of a run, and invariants along it. -/

namespace Run

variable {σ κ : Type} (step : σ → κ → σ)

/-- The state after a list of operations. -/
def exec (s : σ) (ops : List κ) : σ :=
  ops.foldl step s

@[simp] theorem exec_nil (s : σ) : exec step s [] = s := rfl

@[simp] theorem exec_cons (s : σ) (op : κ) (ops : List κ) :
    exec step s (op :: ops) = exec step (step s op) ops := rfl

theorem exec_append (s : σ) (pre post : List κ) :
    exec step s (pre ++ post) = exec step (exec step s pre) post := by
  simp [exec]

/-- What the operations of a run give off. -/
def outputs {α : Type} (out : σ → κ → Option α) : σ → List κ → List α
  | _, [] => []
  | s, op :: ops => (out s op).toList ++ outputs out (step s op) ops

/-- A condition on a state and the operation taken there, at every step of a run. -/
def Each (C : σ → κ → Prop) : σ → List κ → Prop
  | _, [] => True
  | s, op :: ops => C s op ∧ Each C (step s op) ops

instance decidableEach (C : σ → κ → Prop) [∀ s op, Decidable (C s op)] (s : σ) (ops : List κ) :
    Decidable (Each step C s ops) :=
  match ops with
  | [] => isTrue trivial
  | op :: ops => @instDecidableAnd _ _ _ (decidableEach C (step s op) ops)

variable {step} {C D : σ → κ → Prop} {I : σ → Prop} {s : σ} {ops : List κ}

theorem each_append {pre post : List κ} : Each step C s (pre ++ post) ↔
    Each step C s pre ∧ Each step C (exec step s pre) post := by
  induction pre generalizing s with
  | nil => simp [Each]
  | cons op pre ih => simp [Each, ih, and_assoc]

/-- A condition on the operations alone holds at every step. -/
theorem each_of_mem {A : κ → Prop} (hops : ∀ op ∈ ops, A op) : Each step (fun _ op => A op) s ops := by
  induction ops generalizing s with
  | nil => trivial
  | cons op ops ih => exact ⟨hops op (by simp), ih fun op' hop' => hops op' (by simp [hop'])⟩

theorem Each.and (hC : Each step C s ops) (hD : Each step D s ops) :
    Each step (fun s op => C s op ∧ D s op) s ops := by
  induction ops generalizing s with
  | nil => trivial
  | cons op ops ih => exact ⟨⟨hC.1, hD.1⟩, ih hC.2 hD.2⟩

theorem Each.take (h : Each step C s ops) (n : ℕ) : Each step C s (ops.take n) := by
  rw [← List.take_append_drop n ops] at h
  exact (each_append.mp h).1

/-- What a state satisfies and every step keeps holds after the run. -/
theorem Each.invariant (h : Each step C s ops) (hs : I s)
    (hstep : ∀ s op, I s → C s op → I (step s op)) : I (exec step s ops) := by
  induction ops generalizing s with
  | nil => exact hs
  | cons op ops ih => exact ih h.2 (hstep s op hs h.1)

/-- Along an invariant, one condition on the steps gives another. -/
theorem Each.mono (h : Each step C s ops) (hs : I s)
    (hstep : ∀ s op, I s → C s op → I (step s op) ∧ D s op) : Each step D s ops := by
  induction ops generalizing s with
  | nil => trivial
  | cons op ops ih =>
      obtain ⟨hI, hD⟩ := hstep s op hs h.1
      exact ⟨hD, ih h.2 hI⟩

/-- Two conditions that agree wherever an invariant holds, and that both keep it,
hold of the same runs. -/
theorem each_congr {A : κ → Prop} (hops : ∀ op ∈ ops, A op) (hs : I s)
    (hkeep : ∀ s op, I s → A op → C s op → I (step s op))
    (hiff : ∀ s op, I s → A op → (C s op ↔ D s op)) : Each step C s ops ↔ Each step D s ops := by
  induction ops generalizing s with
  | nil => exact Iff.rfl
  | cons op ops ih =>
      have hop := hops op (by simp)
      have hrest : ∀ op ∈ ops, A op := fun op' hop' => hops op' (by simp [hop'])
      rw [Each, Each, ← hiff s op hs hop]
      constructor
      · rintro ⟨hC, h⟩
        exact ⟨hC, (ih hrest (hkeep s op hs hop hC)).mp h⟩
      · rintro ⟨hC, h⟩
        exact ⟨hC, (ih hrest (hkeep s op hs hop hC)).mpr h⟩

/-- Operations that change nothing where an invariant holds may be left out of a run. -/
theorem exec_filter {p : κ → Bool} (hkeep : ∀ s, I s → ∀ op ∈ ops, p op = true → I (step s op))
    (hidle : ∀ s, I s → ∀ op ∈ ops, p op = false → step s op = s) (hs : I s) :
    exec step s ops = exec step s (ops.filter p) := by
  induction ops generalizing s with
  | nil => rfl
  | cons op ops ih =>
      have hrest : ∀ {s}, I s → exec step s ops = exec step s (ops.filter p) := fun hs =>
        ih (fun s hs op hop => hkeep s hs op (.tail _ hop))
          (fun s hs op hop => hidle s hs op (.tail _ hop)) hs
      cases hop : p op with
      | true =>
          rw [List.filter_cons_of_pos hop, exec_cons, exec_cons]
          exact hrest (hkeep s hs op (.head _) hop)
      | false =>
          rw [List.filter_cons_of_neg (by simp [hop]), exec_cons, hidle s hs op (.head _) hop]
          exact hrest hs

/-! ## What a run gives off -/

section Outputs

variable {α : Type} {out : σ → κ → Option α}

/-- Along a run, what is given off are moves of another system, which a function of the state
follows. -/
theorem each_outputs {τ : Type} {move : τ → α → τ} {E : τ → α → Prop} (view : σ → τ)
    (hrun : Each step C s ops) (hs : I s)
    (hkeep : ∀ s op, I s → C s op → I (step s op))
    (hidle : ∀ s op, I s → C s op → out s op = none → view (step s op) = view s)
    (hmove : ∀ s op a, I s → C s op → out s op = some a →
      view (step s op) = move (view s) a ∧ E (view s) a) :
    Each move E (view s) (outputs step out s ops) := by
  induction ops generalizing s with
  | nil => trivial
  | cons op ops ih =>
      have hrest := ih hrun.2 (hkeep s op hs hrun.1)
      rw [outputs]
      cases hout : out s op with
      | none => rwa [hidle s op hs hrun.1 hout] at hrest
      | some a =>
          obtain ⟨hview, hcond⟩ := hmove s op a hs hrun.1 hout
          rw [hview] at hrest
          exact ⟨hcond, hrest⟩

/-- A view of the state that every operation changes by what it gives off, or leaves alone. -/
theorem view_exec {τ : Type} {move : τ → α → τ} (view : σ → τ)
    (hkeep : ∀ s op, I s → I (step s op))
    (hview : ∀ s op, I s → view (step s op) = (out s op).elim (view s) (move (view s))) (hs : I s) :
    view (exec step s ops) = exec move (view s) (outputs step out s ops) := by
  induction ops generalizing s with
  | nil => rfl
  | cons op ops ih =>
      rw [exec_cons, ih (hkeep s op hs), hview s op hs, outputs, exec_append]
      cases out s op <;> rfl

theorem outputs_append (pre post : List κ) : outputs step out s (pre ++ post) =
    outputs step out s pre ++ outputs step out (exec step s pre) post := by
  induction pre generalizing s with
  | nil => rfl
  | cons op pre ih =>
      rw [List.cons_append, outputs, ih, ← List.append_assoc]
      rfl

/-- What is given off in the middle of a run is given off by one operation of it. -/
theorem outputs_eq_append_cons {before after : List α} {a : α} :
    outputs step out s ops = before ++ a :: after ↔
      ∃ pre op post, ops = pre ++ op :: post ∧ outputs step out s pre = before ∧
        out (exec step s pre) op = some a ∧
        outputs step out (step (exec step s pre) op) post = after := by
  constructor
  · intro h
    induction ops generalizing s before with
    | nil => exact absurd h.symm (by simp [outputs])
    | cons op ops ih =>
        rw [outputs] at h
        cases hout : out s op with
        | none =>
            rw [hout] at h
            obtain ⟨pre, op', post, rfl, hpre, hop', hpost⟩ := ih h
            exact ⟨op :: pre, op', post, rfl, by rw [outputs, hout]; exact hpre, hop', hpost⟩
        | some b =>
            rw [hout] at h
            cases before with
            | nil =>
                obtain ⟨rfl, hafter⟩ := List.cons.inj h
                exact ⟨[], op, ops, rfl, rfl, hout, hafter⟩
            | cons b' before =>
                obtain ⟨rfl, hrest⟩ := List.cons.inj h
                obtain ⟨pre, op', post, rfl, hpre, hop', hpost⟩ := ih hrest
                refine ⟨op :: pre, op', post, rfl, ?_, hop', hpost⟩
                rw [outputs, hout, hpre]
                rfl
  · intro h
    obtain ⟨pre, op, post, rfl, hpre, hop, hpost⟩ := h
    rw [outputs_append, hpre, outputs, hop, hpost]
    rfl

theorem forall_mem_outputs {P : κ → α → Prop} (hrun : Each step C s ops) (hs : I s)
    (hkeep : ∀ s op, I s → C s op → I (step s op))
    (hout : ∀ s op a, I s → C s op → out s op = some a → P op a) :
    ∀ a ∈ outputs step out s ops, ∃ op ∈ ops, P op a := by
  induction ops generalizing s with
  | nil => exact nofun
  | cons op ops ih =>
      intro a ha
      rw [outputs, List.mem_append, Option.mem_toList] at ha
      rcases ha with hop | hrest
      · exact ⟨op, by simp, hout s op a hs hrun.1 hop⟩
      · obtain ⟨op', hop', h⟩ := ih hrun.2 (hkeep s op hs hrun.1) a hrest
        exact ⟨op', by simp [hop'], h⟩

/-- What is given off stands in the order of the operations. -/
theorem pairwise_outputs {R : κ → κ → Prop} {S : α → α → Prop} (hops : ops.Pairwise R)
    (hout : ∀ s s' op op' a a', R op op' → out s op = some a → out s' op' = some a' → S a a') :
    (outputs step out s ops).Pairwise S := by
  induction ops generalizing s with
  | nil => exact .nil
  | cons op ops ih =>
      rw [List.pairwise_cons] at hops
      rw [outputs, List.pairwise_append]
      refine ⟨by cases out s op <;> simp, ih hops.2, fun a ha a' ha' => ?_⟩
      have hrun : Each step (fun _ _ => True) (step s op) ops := each_of_mem fun _ _ => trivial
      obtain ⟨op', hop', s', h'⟩ := forall_mem_outputs (I := fun _ => True)
        (P := fun op' a' => ∃ s', out s' op' = some a') hrun trivial (fun _ _ _ _ => trivial)
        (fun s' op' a' _ _ h => ⟨s', h⟩) a' ha'
      exact hout s s' op op' a a' (hops.1 op' hop') (Option.mem_toList.mp ha) h'

end Outputs

/-! ## Maxima -/

/-- Steps that each leave the larger of two measures, the state's and their own, leave the
largest of all of them. -/
theorem exec_isGreatest {α : Type} [LinearOrder α] {A : κ → Prop} (measure : σ → α)
    (weight : κ → α) (hops : ∀ op ∈ ops, A op) (hs : I s)
    (hstep : ∀ s op, I s → A op →
      I (step s op) ∧ measure (step s op) = max (measure s) (weight op)) :
    IsGreatest {a | a = measure s ∨ ∃ op ∈ ops, a = weight op} (measure (exec step s ops)) := by
  induction ops generalizing s with
  | nil => exact ⟨.inl rfl, fun a ha => ha.elim le_of_eq fun ⟨op, hop, _⟩ => by cases hop⟩
  | cons op ops ih =>
      obtain ⟨hnext, hmax⟩ := hstep s op hs (hops op (by simp))
      have hrest := ih (fun op' hop' => hops op' (by simp [hop'])) hnext
      refine ⟨?_, fun a ha => ?_⟩
      · rcases hrest.1 with hheld | ⟨op', hop', hlast⟩
        · rcases max_choice (measure s) (weight op) with hmax' | hmax'
          · exact .inl (hheld.trans (hmax.trans hmax'))
          · exact .inr ⟨op, by simp, hheld.trans (hmax.trans hmax')⟩
        · exact .inr ⟨op', by simp [hop'], hlast⟩
      · have hbound : max (measure s) (weight op) ≤ measure (exec step (step s op) ops) :=
          hmax ▸ hrest.2 (.inl rfl)
        rcases ha with rfl | ⟨op', hop', rfl⟩
        · exact (le_max_left _ _).trans hbound
        · rcases List.mem_cons.mp hop' with rfl | hop'
          · exact (le_max_right _ _).trans hbound
          · exact hrest.2 (.inr ⟨op', hop', rfl⟩)

end Run
