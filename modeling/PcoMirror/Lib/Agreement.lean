import Mathlib.Order.WellFounded
import PcoMirror.Lib.Program
import PcoMirror.Lib.Run

/-! Programs run side by side: outcomes that match from related states, and a loop cut
into units that pause after a number of rounds and resume. -/

namespace Program

variable {σ ε α β ρ : Type}

/-! ## Matching outcomes -/

/-- Two runs ended alike: with one result or one halt, in related states. -/
inductive Matches (R : σ → σ → Prop) :
    EStateM.Result ε σ α → EStateM.Result ε σ α → Prop where
  | ok (a : α) {s s' : σ} (h : R s s') : Matches R (.ok a s) (.ok a s')
  | error (e : ε) {s s' : σ} (h : R s s') : Matches R (.error e s) (.error e s')

/-- From related states the two programs end alike. -/
def Agree (R : σ → σ → Prop) (m m' : EStateM ε σ α) : Prop :=
  ∀ s s', R s s' → Matches R (m.run s) (m'.run s')

variable {R : σ → σ → Prop} {m m' : EStateM ε σ α}

/-- Where one program returns, the other returns the same. -/
theorem Agree.returns (h : Agree R m m') {s s' t : σ} {a : α} (hs : R s s')
    (hrun : m.run s = .ok a t) : ∃ t', m'.run s' = .ok a t' ∧ R t t' := by
  have hmatch := h s s' hs
  rw [hrun] at hmatch
  cases hrun' : m'.run s' with
  | ok a' t' =>
      rw [hrun'] at hmatch
      cases hmatch with
      | ok _ ht => exact ⟨t', rfl, ht⟩
  | error e t' =>
      rw [hrun'] at hmatch
      cases hmatch

theorem Agree.pure (a : α) : Agree R (Pure.pure a : EStateM ε σ α) (Pure.pure a) :=
  fun _ _ h => .ok a h

theorem Agree.throw (e : ε) : Agree R (MonadExcept.throw e : EStateM ε σ α) (throw e) :=
  fun _ _ h => .error e h

theorem Agree.modify {f f' : σ → σ} (h : ∀ s s', R s s' → R (f s) (f' s')) :
    Agree R (modify f : EStateM ε σ PUnit) (modify f') :=
  fun s s' hs => .ok _ (h s s' hs)

/-- From states that `R` relates the two programs end alike, in states that `S` relates. -/
def Leads (R S : σ → σ → Prop) (m m' : EStateM ε σ α) : Prop :=
  ∀ s s', R s s' → Matches S (m.run s) (m'.run s')

variable {S T : σ → σ → Prop}

theorem Matches.mono {x y : EStateM.Result ε σ α} (h : Matches R x y)
    (hRS : ∀ s s', R s s' → S s s') : Matches S x y := by
  cases h with
  | ok a h => exact .ok a (hRS _ _ h)
  | error e h => exact .error e (hRS _ _ h)

theorem Leads.mono (h : Leads R S m m') (hST : ∀ s s', S s s' → T s s') : Leads R T m m' :=
  fun s s' hs => (h s s' hs).mono hST

/-- Programs that end alike pass the same tests. -/
theorem Matches.endsWith {s s' : σ} (h : Matches R (m.run s) (m'.run s')) (p : α → Bool) :
    endsWith m s p = endsWith m' s' p := by
  unfold Program.endsWith
  generalize m.run s = x, m'.run s' = y at h
  cases h with
  | ok a _ => rfl
  | error e _ => rfl

theorem Leads.throw (e : ε) (hRS : ∀ s s', R s s' → S s s') :
    Leads R S (MonadExcept.throw e : EStateM ε σ α) (MonadExcept.throw e) :=
  fun _ _ h => .error e (hRS _ _ h)

theorem Leads.bind {f f' : α → EStateM ε σ β} (hm : Leads R S m m')
    (hf : ∀ a, Leads S T (f a) (f' a)) (hST : ∀ s s', S s s' → T s s') :
    Leads R T (m >>= f) (m' >>= f') := by
  intro s s' hs
  rw [EStateM.run_bind, EStateM.run_bind]
  have h := hm s s' hs
  generalize m.run s = x, m'.run s' = y at h
  cases h with
  | ok a h => exact hf a _ _ h
  | error e h => exact .error e (hST _ _ h)

theorem Leads.tryCatch {handler handler' : ε → EStateM ε σ α} (hm : Leads R S m m')
    (hh : ∀ e, Leads S T (handler e) (handler' e)) (hST : ∀ s s', S s s' → T s s') :
    Leads R T (MonadExcept.tryCatch m handler) (MonadExcept.tryCatch m' handler') := by
  intro s s' hs
  have h := hm s s' hs
  generalize hx : m.run s = x, hy : m'.run s' = y at h
  cases h with
  | ok a h =>
      rw [run_tryCatch_of_ok hx, run_tryCatch_of_ok hy]
      exact .ok a (hST _ _ h)
  | error e h =>
      rw [run_tryCatch_of_error hx, run_tryCatch_of_error hy]
      exact hh e _ _ h

theorem Agree.bind {f f' : α → EStateM ε σ β} (hm : Agree R m m')
    (hf : ∀ a, Agree R (f a) (f' a)) : Agree R (m >>= f) (m' >>= f') :=
  Leads.bind hm hf fun _ _ h => h

/-- What the programs read of their states may differ. -/
theorem Leads.get {f f' : σ → EStateM ε σ α}
    (h : ∀ s s', R s s' → Leads R S (f s) (f' s')) :
    Leads R S (MonadState.get >>= f) (MonadState.get >>= f') :=
  fun s s' hs => h s s' hs s s' hs

theorem Agree.foldlM {f f' : β → α → EStateM ε σ β} (xs : List α)
    (h : ∀ b, ∀ a ∈ xs, Agree R (f b a) (f' b a)) (b : β) :
    Agree R (xs.foldlM f b) (xs.foldlM f' b) := by
  induction xs generalizing b with
  | nil => exact Agree.pure b
  | cons a xs ih =>
      rw [List.foldlM_cons, List.foldlM_cons]
      exact Agree.bind (h b a (.head xs)) fun b => ih (fun b a ha => h b a (.tail _ ha)) b

theorem Leads.ite {c : Prop} [Decidable c] {n n' : EStateM ε σ α}
    (ht : c → Leads R S m m') (hf : ¬ c → Leads R S n n') :
    Leads R S (if c then m else n) (if c then m' else n') := by
  split
  · exact ht ‹_›
  · exact hf ‹_›

theorem Agree.ite {c : Prop} [Decidable c] {n n' : EStateM ε σ α}
    (ht : c → Agree R m m') (hf : ¬ c → Agree R n n') :
    Agree R (if c then m else n) (if c then m' else n') :=
  Leads.ite ht hf

theorem Agree.forEach {action action' : β → EStateM ε σ Unit}
    (h : ∀ x, Agree R (action x) (action' x)) (xs : List β) :
    Agree R (forEach action xs) (forEach action' xs) := by
  induction xs with
  | nil => exact Agree.pure _
  | cons x xs ih => exact Agree.bind (h x) fun _ => ih

theorem Agree.whileTrue {stopped : ε} {body body' : ρ → EStateM ε σ (Pass ρ α)}
    (h : ∀ r, Agree R (body r) (body' r)) (fuel : ℕ) (r : ρ) :
    Agree R (whileTrue stopped body fuel r) (whileTrue stopped body' fuel r) := by
  induction fuel generalizing r with
  | zero => exact Agree.throw stopped
  | succ fuel ih =>
      refine Agree.bind (h r) fun p => ?_
      cases p with
      | again r' => exact ih r'
      | leave a => exact Agree.pure a

/-! ## Related outcomes -/

/-- Two runs returned related results or halted alike, in related states. -/
inductive Coupled (V : α → β → Prop) (R : σ → σ → Prop) :
    EStateM.Result ε σ α → EStateM.Result ε σ β → Prop where
  | ok {a : α} {b : β} {s s' : σ} (hv : V a b) (h : R s s') : Coupled V R (.ok a s) (.ok b s')
  | error (e : ε) {s s' : σ} (h : R s s') : Coupled V R (.error e s) (.error e s')

theorem Coupled.bind {γ δ : Type} {V : α → β → Prop} {U : γ → δ → Prop} {m : EStateM ε σ α}
    {n : EStateM ε σ β} {f : α → EStateM ε σ γ} {g : β → EStateM ε σ δ} {s s' : σ}
    (hm : Coupled V R (m.run s) (n.run s'))
    (hf : ∀ a b t t', V a b → R t t' → Coupled U R ((f a).run t) ((g b).run t')) :
    Coupled U R ((m >>= f).run s) ((n >>= g).run s') := by
  rw [EStateM.run_bind, EStateM.run_bind]
  generalize m.run s = x, n.run s' = y at hm
  cases hm with
  | ok hv h => exact hf _ _ _ _ hv h
  | error e h => exact .error e h

/-- Both rounds went round again in related states, or both left. -/
inductive Pass.Both (V : ρ → ρ → Prop) : Pass ρ α → Pass ρ β → Prop where
  | again {r r' : ρ} (h : V r r') : Pass.Both V (.again r) (.again r')
  | leave (a : α) (b : β) : Pass.Both V (.leave a) (.leave b)

theorem Coupled.whileTrue {stopped : ε} {V : ρ → ρ → Prop} {body : ρ → EStateM ε σ (Pass ρ α)}
    {body' : ρ → EStateM ε σ (Pass ρ β)}
    (h : ∀ r r' s s', V r r' → R s s' →
      Coupled (Pass.Both V) R ((body r).run s) ((body' r').run s'))
    (fuel : ℕ) {r r' : ρ} (hr : V r r') {s s' : σ} (hs : R s s') :
    Coupled (fun _ _ => True) R ((whileTrue stopped body fuel r).run s)
      ((Program.whileTrue stopped body' fuel r').run s') := by
  induction fuel generalizing r r' s s' with
  | zero => exact .error stopped hs
  | succ fuel ih =>
      refine (h r r' s s' hr hs).bind fun p p' t t' hp ht => ?_
      cases hp with
      | again hq => exact ih hq ht
      | leave a b => exact .ok trivial ht

/-! ## Loops round by round -/

/-- A loop leaves after going round again a number of times. -/
inductive LeavesIn (body : ρ → EStateM ε σ (Pass ρ α)) (a : α) (t : σ) : ℕ → ρ → σ → Prop where
  | leave {r : ρ} {s : σ} (h : (body r).run s = .ok (.leave a) t) : LeavesIn body a t 0 r s
  | again {n : ℕ} {r q : ρ} {s u : σ} (h : (body r).run s = .ok (.again q) u)
      (rest : LeavesIn body a t n q u) : LeavesIn body a t (n + 1) r s

/-- A loop that returned left after fewer rounds than its fuel. -/
theorem leavesIn_of_run {stopped : ε} {body : ρ → EStateM ε σ (Pass ρ α)} {a : α} {t : σ}
    {fuel : ℕ} {r : ρ} {s : σ} (h : (whileTrue stopped body fuel r).run s = .ok a t) :
    ∃ n < fuel, LeavesIn body a t n r s := by
  induction fuel generalizing r s with
  | zero => cases h
  | succ fuel ih =>
      rw [whileTrue, EStateM.run_bind] at h
      cases hr : (body r).run s with
      | error e u =>
          rw [hr] at h
          cases h
      | ok p u =>
          rw [hr] at h
          cases p with
          | again q =>
              obtain ⟨n, hn, hrest⟩ := ih h
              exact ⟨n + 1, by omega, .again hr hrest⟩
          | leave b =>
              cases h
              exact ⟨0, by omega, .leave hr⟩

/-! ## Units of a loop -/

/-- A loop that counts its rounds and pauses once a budget is spent, beside the loop
it is a unit of: each round of both goes the same way, and a pause leaves a state
the loop can be resumed from. -/
structure Cuts {ρ' α' : Type} (body : ρ → EStateM ε σ (Pass ρ α))
    (unit : ρ' → EStateM ε σ (Pass ρ' α')) (budget : ℕ) (spent : ρ' → ℕ)
    (Paired : ρ → σ → ρ' → σ → Prop) (Done : α → σ → α' → σ → Prop)
    (Paused : ρ → σ → α' → σ → Prop) : Prop where
  again : ∀ {r s r' s' q u}, Paired r s r' s' → spent r' < budget →
    (body r).run s = .ok (.again q) u →
      ∃ q' u', (unit r').run s' = .ok (.again q') u' ∧ spent q' = spent r' + 1 ∧ Paired q u q' u'
  leave : ∀ {r s r' s' a t}, Paired r s r' s' → spent r' < budget →
    (body r).run s = .ok (.leave a) t →
      ∃ a' t', (unit r').run s' = .ok (.leave a') t' ∧ Done a t a' t'
  pause : ∀ {r s r' s'}, Paired r s r' s' → budget ≤ spent r' →
    ∃ a' t', (unit r').run s' = .ok (.leave a') t' ∧ Paused r s a' t'

/-- A unit ends the loop, or pauses with its budget's worth of rounds done. -/
theorem Cuts.run {ρ' α' : Type} {body : ρ → EStateM ε σ (Pass ρ α)}
    {unit : ρ' → EStateM ε σ (Pass ρ' α')} {budget : ℕ} {spent : ρ' → ℕ}
    {Paired : ρ → σ → ρ' → σ → Prop} {Done : α → σ → α' → σ → Prop}
    {Paused : ρ → σ → α' → σ → Prop} (h : Cuts body unit budget spent Paired Done Paused)
    (stopped : ε) {a : α} {t : σ} {n : ℕ} {r : ρ} {s : σ} (hloop : LeavesIn body a t n r s) :
    ∀ {r' : ρ'} {s' : σ} {fuel : ℕ}, Paired r s r' s' → n < fuel →
      ∃ a' t', (whileTrue stopped unit fuel r').run s' = .ok a' t' ∧
        (Done a t a' t' ∨ ∃ k q u, k + (budget - spent r') ≤ n ∧ LeavesIn body a t k q u ∧
          Paused q u a' t') := by
  induction hloop with
  | @leave r s hleave =>
      intro r' s' fuel hpair hfuel
      obtain ⟨fuel, rfl⟩ := Nat.exists_eq_succ_of_ne_zero (Nat.ne_of_gt hfuel)
      rw [whileTrue, EStateM.run_bind]
      by_cases hspent : spent r' < budget
      · obtain ⟨a', t', hrun, hdone⟩ := h.leave hpair hspent hleave
        exact ⟨a', t', by rw [hrun]; rfl, .inl hdone⟩
      · obtain ⟨a', t', hrun, hpaused⟩ := h.pause hpair (Nat.le_of_not_lt hspent)
        exact ⟨a', t', by rw [hrun]; rfl, .inr ⟨0, r, s, by omega, .leave hleave, hpaused⟩⟩
  | @again n r q s u hagain hrest ih =>
      intro r' s' fuel hpair hfuel
      obtain ⟨fuel, rfl⟩ := Nat.exists_eq_succ_of_ne_zero (Nat.ne_of_gt (Nat.lt_of_le_of_lt
        (Nat.zero_le _) hfuel))
      rw [whileTrue, EStateM.run_bind]
      by_cases hspent : spent r' < budget
      · obtain ⟨q', u', hrun, hcount, hnext⟩ := h.again hpair hspent hagain
        rw [hrun]
        obtain ⟨a', t', hend, hcases⟩ := @ih _ _ fuel hnext (by omega)
        refine ⟨a', t', hend, hcases.imp id ?_⟩
        rintro ⟨k, p, v, hk, hleft, hpaused⟩
        exact ⟨k, p, v, by omega, hleft, hpaused⟩
      · obtain ⟨a', t', hrun, hpaused⟩ := h.pause hpair (Nat.le_of_not_lt hspent)
        exact ⟨a', t', by rw [hrun]; rfl,
          .inr ⟨n + 1, r, s, by omega, .again hagain hrest, hpaused⟩⟩

end Program

namespace Run

variable {σ κ : Type} {step : σ → κ → σ}

theorem exec_range_succ (step : σ → κ → σ) (s : σ) (calls : ℕ → κ) (j : ℕ) :
    exec step s ((List.range (j + 1)).map calls) =
      exec step (step s (calls 0)) ((List.range j).map fun i => calls (i + 1)) := by
  rw [List.range_succ_eq_map, List.map_cons, exec_cons, List.map_map]
  rfl

/-- Operations that each end the work or leave less of it end it after finitely many. -/
theorem exists_ends_of_descent {ι : Type} [LT ι] [WellFoundedLT ι] {A : κ → Prop}
    {Todo : ι → σ → Prop} (Ends Goes : σ → κ → Prop)
    (h : ∀ n s op, Todo n s → A op →
      Ends s op ∨ Goes s op ∧ ∃ m < n, Todo m (step s op))
    {n : ι} {s : σ} (hs : Todo n s) (calls : ℕ → κ) (hcalls : ∀ i, A (calls i)) :
    ∃ k, Ends (exec step s ((List.range k).map calls)) (calls k) ∧
      ∀ j < k, Goes (exec step s ((List.range j).map calls)) (calls j) := by
  induction n using WellFoundedLT.induction generalizing s calls with
  | ind n ih =>
      rcases h n s (calls 0) hs (hcalls 0) with hdone | ⟨hgoes, m, hm, hleft⟩
      · exact ⟨0, hdone, nofun⟩
      · obtain ⟨k, hk, hbefore⟩ := ih m hm hleft (fun i => calls (i + 1)) fun i => hcalls (i + 1)
        refine ⟨k + 1, by rw [exec_range_succ]; exact hk, fun j hj => ?_⟩
        cases j with
        | zero => exact hgoes
        | succ j =>
            rw [exec_range_succ]
            exact hbefore j (Nat.lt_of_succ_lt_succ hj)

/-- Operations that each finish or leave less to do finish after finitely many. -/
theorem exists_exec_of_descent {ι : Type} [LT ι] [WellFoundedLT ι] {A : κ → Prop}
    {Todo : ι → σ → Prop} {Finished : σ → Prop}
    (h : ∀ n s op, Todo n s → A op → Finished (step s op) ∨ ∃ m < n, Todo m (step s op))
    {n : ι} {s : σ} (hs : Todo n s) (calls : ℕ → κ) (hcalls : ∀ i, A (calls i)) :
    ∃ k, Finished (exec step s ((List.range (k + 1)).map calls)) ∧
      ∀ j ≤ k, ∃ m, Todo m (exec step s ((List.range j).map calls)) := by
  obtain ⟨k, ⟨hdone, htodo⟩, hbefore⟩ := exists_ends_of_descent
    (fun s op => Finished (step s op) ∧ ∃ n, Todo n s) (fun s _ => ∃ n, Todo n s)
    (fun n s op hs hop => (h n s op hs hop).imp (fun hdone => ⟨hdone, n, hs⟩)
      fun hleft => ⟨⟨n, hs⟩, hleft⟩) hs calls hcalls
  refine ⟨k, ?_, fun j hj => (Nat.lt_or_eq_of_le hj).elim (hbefore j) ?_⟩
  · rw [List.range_succ, List.map_append, exec_append]
    exact hdone
  · rintro rfl
    exact htodo

end Run
