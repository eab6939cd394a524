import Mathlib

/-! Imperative programs that keep their state when they halt: pre- and
postconditions, `while True` loops, and the rules that reason about both. -/

namespace Program

variable {σ ε α β ρ : Type}

/-! ## Loops -/

/-- One round of a `while True` body goes round again or leaves the loop. -/
inductive Pass (ρ α : Type) where
  | again (next : ρ)
  | leave (value : α)

/-- Runs a body until it leaves. A loop out of fuel halts where it stands, as a
process stopped between two rounds does. -/
def whileTrue (stopped : ε) (body : ρ → EStateM ε σ (Pass ρ α)) : ℕ → ρ → EStateM ε σ α
  | 0, _ => throw stopped
  | fuel + 1, r => do
    match ← body r with
    | .again next => whileTrue stopped body fuel next
    | .leave value => pure value

/-- Runs an action on every entry of a list, in order. -/
def forEach (action : β → EStateM ε σ Unit) : List β → EStateM ε σ Unit
  | [] => pure ()
  | x :: xs => do
    action x
    forEach action xs

theorem forEach_map {γ : Type} (action : β → EStateM ε σ Unit) (f : γ → β) (xs : List γ) :
    forEach action (xs.map f) = forEach (fun x => action (f x)) xs := by
  induction xs with
  | nil => rfl
  | cons x xs ih => simp only [List.map_cons, forEach, ih]

theorem forEach_append (action : β → EStateM ε σ Unit) (xs ys : List β) :
    forEach action (xs ++ ys) = forEach action xs >>= fun _ => forEach action ys := by
  induction xs with
  | nil => rfl
  | cons x xs ih =>
      rw [List.cons_append, forEach, ih, forEach, bind_assoc]

/-- Runs an action on a value that is there. -/
def whenSome (x : Option β) (action : β → EStateM ε σ Unit) : EStateM ε σ Unit :=
  match x with
  | some b => action b
  | none => pure ()

/-- Reading every entry of a list succeeds where each reading does. -/
theorem mapM_map_ok {γ : Type} {read : β → Except ε γ} {f : α → β} {g : α → γ} {xs : List α}
    (h : ∀ x ∈ xs, read (f x) = .ok (g x)) : (xs.map f).mapM read = .ok (xs.map g) := by
  induction xs with
  | nil => rfl
  | cons x xs ih =>
      rw [List.map_cons, List.mapM_cons, h x (by simp), ih fun y hy => h y (by simp [hy])]
      rfl

/-- The state a program ends in, however it ends. -/
def final (m : EStateM ε σ α) (s : σ) : σ :=
  match m.run s with
  | .ok _ s' => s'
  | .error _ s' => s'

/-- Whether a program ends well, with a value that passes a test. -/
def endsWith (m : EStateM ε σ α) (s : σ) (p : α → Bool) : Bool :=
  match m.run s with
  | .ok a _ => p a
  | .error _ _ => false

theorem exists_of_endsWith {m : EStateM ε σ α} {s : σ} {p : α → Bool}
    (h : endsWith m s p = true) : ∃ a s', m.run s = .ok a s' ∧ p a = true := by
  unfold endsWith at h
  split at h
  · exact ⟨_, _, by assumption, h⟩
  · cases h

theorem except_bind_eq_ok {x : Except ε α} {f : α → Except ε β} {b : β} :
    (x >>= f) = .ok b ↔ ∃ a, x = .ok a ∧ f a = .ok b := by
  cases x <;> simp [bind, Except.bind]

/-- A reading that raises nothing. -/
def Succeeds (e : Except ε α) : Prop :=
  ∃ a, e = .ok a

@[simp] theorem succeeds_ok (a : α) : Succeeds (.ok a : Except ε α) := ⟨a, rfl⟩

@[simp] theorem succeeds_pure (a : α) : Succeeds (pure a : Except ε α) := ⟨a, rfl⟩

@[simp] theorem not_succeeds_error (e : ε) : ¬ Succeeds (.error e : Except ε α) := nofun

@[simp] theorem not_succeeds_throw (e : ε) : ¬ Succeeds (throw e : Except ε α) := nofun

theorem succeeds_bind {e : Except ε α} {f : α → Except ε β} :
    Succeeds (e >>= f) ↔ ∃ a, e = .ok a ∧ Succeeds (f a) := by
  cases e with
  | ok a => exact ⟨fun h => ⟨a, rfl, h⟩, fun ⟨_, heq, h⟩ => by cases heq; exact h⟩
  | error e => exact ⟨nofun, nofun⟩

/-- What follows a reading raises nothing of its own. -/
theorem succeeds_bind_pure {e : Except ε α} {f : α → β} :
    Succeeds (e >>= fun a => pure (f a)) ↔ Succeeds e := by
  rw [succeeds_bind]
  exact ⟨fun ⟨a, h, _⟩ => ⟨a, h⟩, fun ⟨a, h⟩ => ⟨a, h, succeeds_pure _⟩⟩

theorem succeeds_mapM {f : α → Except ε β} {xs : List α} :
    Succeeds (xs.mapM f) ↔ ∀ x ∈ xs, Succeeds (f x) := by
  induction xs with
  | nil => simp
  | cons x xs ih =>
      rw [List.mapM_cons, succeeds_bind, List.forall_mem_cons, ← ih]
      simp only [succeeds_bind_pure]
      exact ⟨fun ⟨a, h, hrest⟩ => ⟨⟨a, h⟩, hrest⟩, fun ⟨⟨a, h⟩, hrest⟩ => ⟨a, h, hrest⟩⟩

theorem exists_of_mem_mapM {f : α → Except ε β} {xs : List α} {ys : List β}
    (h : xs.mapM f = .ok ys) {y : β} (hy : y ∈ ys) : ∃ x ∈ xs, f x = .ok y := by
  induction xs generalizing ys with
  | nil =>
      cases h
      cases hy
  | cons x xs ih =>
      rw [List.mapM_cons] at h
      obtain ⟨first, hfirst, h⟩ := except_bind_eq_ok.mp h
      obtain ⟨rest, hrest, h⟩ := except_bind_eq_ok.mp h
      cases h
      rcases List.mem_cons.mp hy with rfl | hy
      · exact ⟨x, .head _, hfirst⟩
      · obtain ⟨found, hfound, heq⟩ := ih hrest hy
        exact ⟨found, .tail _ hfound, heq⟩

theorem mem_of_mapM {f : α → Except ε β} {xs : List α} {ys : List β}
    (h : xs.mapM f = .ok ys) {x : α} (hx : x ∈ xs) : ∃ y ∈ ys, f x = .ok y := by
  induction xs generalizing ys with
  | nil => cases hx
  | cons first rest ih =>
      rw [List.mapM_cons] at h
      obtain ⟨y, hy, h⟩ := except_bind_eq_ok.mp h
      obtain ⟨more, hmore, h⟩ := except_bind_eq_ok.mp h
      cases h
      rcases List.mem_cons.mp hx with rfl | hx
      · exact ⟨y, .head _, hy⟩
      · obtain ⟨found, hfound, heq⟩ := ih hmore hx
        exact ⟨found, .tail _ hfound, heq⟩

/-- What a list of readings gives is what the readings give. -/
theorem mem_mapM_iff {f : α → Except ε β} {xs : List α} {ys : List β}
    (h : xs.mapM f = .ok ys) {y : β} : y ∈ ys ↔ ∃ x ∈ xs, f x = .ok y := by
  refine ⟨exists_of_mem_mapM h, fun ⟨x, hx, heq⟩ => ?_⟩
  obtain ⟨found, hfound, hread⟩ := mem_of_mapM h hx
  cases heq.symm.trans hread
  exact hfound

/-- Whether a test that may raise holds. -/
def holds (e : Except ε Bool) : Bool :=
  match e with
  | .ok b => b
  | .error _ => false

theorem holds_eq_true {e : Except ε Bool} : holds e = true ↔ e = .ok true := by
  cases e <;> simp [holds]

theorem eq_of_filterAuxM {p : α → Except ε Bool} {xs acc kept : List α}
    (h : xs.filterAuxM p acc = .ok kept) :
    kept = (xs.filter fun a => holds (p a)).reverse ++ acc := by
  induction xs generalizing acc with
  | nil =>
      cases h
      rfl
  | cons x xs ih =>
      obtain ⟨keep, hkeep, hrest⟩ := except_bind_eq_ok.mp h
      rw [ih hrest, List.filter_cons, hkeep]
      cases keep with
      | true =>
          rw [if_pos (show holds (.ok true : Except ε Bool) = true from rfl), List.reverse_cons,
            List.append_assoc]
          rfl
      | false => rfl

/-- What a filter that raises nothing keeps. -/
theorem eq_filter_of_filterM {p : α → Except ε Bool} {xs kept : List α}
    (h : xs.filterM p = .ok kept) : kept = xs.filter fun a => holds (p a) := by
  obtain ⟨acc, hacc, hkept⟩ := except_bind_eq_ok.mp h
  cases hkept
  rw [eq_of_filterAuxM hacc, List.append_nil, List.reverse_reverse]

theorem ite_bind {c : Prop} [Decidable c] (m m' : EStateM ε σ α) (f : α → EStateM ε σ β) :
    (if c then m else m') >>= f = if c then m >>= f else m' >>= f := by
  split_ifs <;> rfl

theorem run_bind_eq_ok {m : EStateM ε σ α} {f : α → EStateM ε σ β} {s s' : σ} {b : β} :
    (m >>= f).run s = .ok b s' ↔ ∃ a s₁, m.run s = .ok a s₁ ∧ (f a).run s₁ = .ok b s' := by
  rw [EStateM.run_bind]
  cases m.run s with
  | ok a s₁ => exact ⟨fun h => ⟨a, s₁, rfl, h⟩, fun ⟨_, _, heq, h⟩ => by cases heq; exact h⟩
  | error e s₁ => exact ⟨nofun, fun ⟨_, _, heq, _⟩ => by cases heq⟩

theorem run_bind_of_ok {m : EStateM ε σ α} {s s' : σ} {a : α} (h : m.run s = .ok a s')
    (f : α → EStateM ε σ β) : (m >>= f).run s = (f a).run s' := by
  rw [EStateM.run_bind, h]

theorem run_tryCatch_of_ok {m : EStateM ε σ α} {s s' : σ} {a : α} (h : m.run s = .ok a s')
    (handler : ε → EStateM ε σ α) : (tryCatch m handler).run s = .ok a s' := by
  simp only [EStateM.run, tryCatch, tryCatchThe, MonadExceptOf.tryCatch, EStateM.tryCatch] at h ⊢
  rw [h]

/-- A handler runs in the state the exception left behind. -/
theorem run_tryCatch_of_error {m : EStateM ε σ α} {s s' : σ} {e : ε} (h : m.run s = .error e s')
    (handler : ε → EStateM ε σ α) : (tryCatch m handler).run s = (handler e).run s' := by
  simp only [EStateM.run, tryCatch, tryCatchThe, MonadExceptOf.tryCatch, EStateM.tryCatch] at h ⊢
  rw [h]
  rfl

theorem run_forEach_cons_eq_ok {action : β → EStateM ε σ Unit} {x : β} {xs : List β} {s s' : σ} :
    (forEach action (x :: xs)).run s = .ok () s' ↔
      ∃ s₁, (action x).run s = .ok () s₁ ∧ (forEach action xs).run s₁ = .ok () s' := by
  rw [forEach, run_bind_eq_ok]
  exact ⟨fun ⟨_, s₁, h⟩ => ⟨s₁, h⟩, fun ⟨s₁, h⟩ => ⟨(), s₁, h⟩⟩

/-! ## Pre- and postconditions -/

/-- What holds after a round: one property where the loop goes on, another where it leaves. -/
def Pass.Holds (I : ρ → σ → Prop) (Q : α → σ → Prop) : Pass ρ α → σ → Prop
  | .again r, s => I r s
  | .leave a, s => Q a s

/-- From a state in `P`, the program returns in `Q` or halts in `E`. -/
def Spec (P : σ → Prop) (m : EStateM ε σ α) (Q : α → σ → Prop) (E : ε → σ → Prop) : Prop :=
  ∀ s, P s → match m.run s with
    | .ok a s' => Q a s'
    | .error e s' => E e s'

variable {P : σ → Prop} {m : EStateM ε σ α} {Q : α → σ → Prop} {E : ε → σ → Prop}

theorem Spec.ok (h : Spec P m Q E) {s s' : σ} {a : α} (hs : P s) (hr : m.run s = .ok a s') :
    Q a s' := by
  have := h s hs
  simpa only [hr] using this

theorem Spec.error (h : Spec P m Q E) {s s' : σ} {e : ε} (hs : P s)
    (hr : m.run s = .error e s') : E e s' := by
  have := h s hs
  simpa only [hr] using this

/-- A program that cannot halt returns. -/
theorem Spec.returns (h : Spec P m Q fun _ _ => False) {s : σ} (hs : P s) :
    ∃ a s', m.run s = .ok a s' ∧ Q a s' := by
  have hm := h s hs
  cases hr : m.run s with
  | ok a s' => exact ⟨a, s', rfl, by simpa only [hr] using hm⟩
  | error e s' =>
      simp only [hr] at hm

theorem Spec.conseq {P' : σ → Prop} {Q' : α → σ → Prop} {E' : ε → σ → Prop}
    (h : Spec P m Q E) (hP : ∀ s, P' s → P s) (hQ : ∀ a s, Q a s → Q' a s)
    (hE : ∀ e s, E e s → E' e s) : Spec P' m Q' E' := by
  intro s hs
  have hm := h s (hP s hs)
  cases hr : m.run s with
  | ok a s' => exact hQ a s' (by simpa only [hr] using hm)
  | error e s' => exact hE e s' (by simpa only [hr] using hm)

theorem Spec.mono_halt {E' : ε → σ → Prop} (h : Spec P m Q E)
    (hE : ∀ e s, E e s → E' e s) : Spec P m Q E' :=
  h.conseq (fun _ hs => hs) (fun _ _ hs => hs) hE

/-- A fact about no state stands before the program and after it. -/
theorem Spec.aside {c : Prop} (h : c → Spec P m Q E) :
    Spec (fun s => P s ∧ c) m (fun a s => Q a s ∧ c) E := by
  intro s hs
  have hm := h hs.2 s hs.1
  cases hr : m.run s with
  | ok a s' => exact ⟨by simpa only [hr] using hm, hs.2⟩
  | error e s' => simpa only [hr] using hm

theorem Spec.final {I : σ → Prop} (h : Spec P m (fun _ => I) fun _ => I) {s : σ} (hs : P s) :
    I (final m s) := by
  have hm := h s hs
  unfold Program.final
  cases hr : m.run s <;> simpa only [hr] using hm

theorem Spec.trivial : Spec (fun _ => True) m (fun _ _ => True) fun _ _ => True := by
  intro s _
  cases m.run s <;> exact True.intro

theorem Spec.pure {a : α} (h : ∀ s, P s → Q a s) :
    Spec P (Pure.pure a : EStateM ε σ α) Q E := h

theorem Spec.throw {e : ε} (h : ∀ s, P s → E e s) :
    Spec P (MonadExcept.throw e : EStateM ε σ α) Q E := h

theorem Spec.get {Q : σ → σ → Prop} (h : ∀ s, P s → Q s s) :
    Spec P (MonadState.get : EStateM ε σ σ) Q E := h

theorem Spec.modify {f : σ → σ} {Q : PUnit → σ → Prop} (h : ∀ s, P s → Q ⟨⟩ (f s)) :
    Spec P (modify f : EStateM ε σ PUnit) Q E := h

theorem Spec.bind {R : α → σ → Prop} {f : α → EStateM ε σ β} {Q : β → σ → Prop}
    (hm : Spec P m R E) (hf : ∀ a, Spec (R a) (f a) Q E) : Spec P (m >>= f) Q E := by
  intro s hs
  have h := hm s hs
  change match (EStateM.bind m f).run s with
    | .ok b s' => Q b s'
    | .error e s' => E e s'
  simp only [EStateM.run, EStateM.bind] at h ⊢
  cases hr : m s with
  | ok a s' =>
      simp only [hr] at h ⊢
      exact hf a s' h
  | error e s' => simpa only [hr] using h

theorem Spec.ite {c : Prop} [Decidable c] {m' : EStateM ε σ α}
    (ht : c → Spec P m Q E) (hf : ¬ c → Spec P m' Q E) : Spec P (if c then m else m') Q E := by
  split
  · exact ht ‹_›
  · exact hf ‹_›

theorem Spec.tryCatch {R : ε → σ → Prop} {handler : ε → EStateM ε σ α}
    (hm : Spec P m Q R) (hh : ∀ e, Spec (R e) (handler e) Q E) :
    Spec P (tryCatch m handler) Q E := by
  intro s hs
  have h := hm s hs
  change match (EStateM.tryCatch m handler).run s with
    | .ok b s' => Q b s'
    | .error e s' => E e s'
  simp only [EStateM.run, EStateM.tryCatch] at h ⊢
  cases hr : m s with
  | ok a s' => simpa only [hr] using h
  | error e s' =>
      simp only [hr] at h ⊢
      exact hh e s' h

/-- An invariant of the rounds holds wherever the loop leaves or is stopped. -/
theorem Spec.whileTrue {stopped : ε} {body : ρ → EStateM ε σ (Pass ρ α)}
    (I : ρ → σ → Prop)
    (hbody : ∀ r, Spec (I r) (body r) (Pass.Holds I Q) E)
    (hstop : ∀ r s, I r s → E stopped s) :
    ∀ fuel r, Spec (I r) (whileTrue stopped body fuel r) Q E := by
  intro fuel
  induction fuel with
  | zero =>
      intro r
      exact Spec.throw (hstop r)
  | succ fuel ih =>
      intro r
      refine Spec.bind (hbody r) fun p => ?_
      cases p with
      | again r' => exact ih r'
      | leave a => exact Spec.pure fun _ h => h

/-- With a measure that falls in every round, enough fuel lets the loop leave. -/
theorem Spec.whileTrue_of_lt {stopped : ε} {body : ρ → EStateM ε σ (Pass ρ α)}
    (I : ρ → σ → Prop) (μ : ρ → ℕ)
    (hbody : ∀ r, Spec (I r) (body r) (Pass.Holds (fun r' s => I r' s ∧ μ r' < μ r) Q) E) :
    ∀ fuel r, μ r < fuel → Spec (I r) (Program.whileTrue stopped body fuel r) Q E := by
  intro fuel
  induction fuel with
  | zero => intro r hlt; exact absurd hlt (Nat.not_lt_zero _)
  | succ fuel ih =>
      intro r hlt s hs
      refine Spec.bind (hbody r) (fun p => ?_) s hs
      cases p with
      | again r' =>
          rintro s' ⟨hI, hfall⟩
          exact ih r' (by omega) s' hI
      | leave a => exact Spec.pure fun _ h => h

/-- A loop over a list keeps what each of its entries keeps. -/
theorem Spec.forEach {action : β → EStateM ε σ Unit} {I : σ → Prop} (xs : List β)
    (h : ∀ x ∈ xs, Spec I (action x) (fun _ => I) E) :
    Spec I (forEach action xs) (fun _ => I) E := by
  induction xs with
  | nil => exact Spec.pure fun _ h => h
  | cons x xs ih =>
      refine Spec.bind (h x (by simp)) fun _ => ih ?_
      intro y hy
      exact h y (by simp [hy])

/-- A loop over a list, with what holds after each prefix of it. -/
theorem Spec.forEach_prefix {action : β → EStateM ε σ Unit} (I : List β → σ → Prop) (xs : List β)
    (h : ∀ pre x post, xs = pre ++ x :: post →
      Spec (I pre) (action x) (fun _ => I (pre ++ [x])) E) :
    Spec (I []) (Program.forEach action xs) (fun _ => I xs) E := by
  induction xs generalizing I with
  | nil => exact Spec.pure fun _ h => h
  | cons x xs ih =>
      refine Spec.bind (h [] x xs rfl) fun _ => ?_
      refine ih (fun pre => I (x :: pre)) fun pre y post hsplit => ?_
      exact h (x :: pre) y post (by rw [hsplit]; rfl)

/-- A fold over a list, with what holds of the value so far. -/
theorem Spec.foldlM {f : α → β → EStateM ε σ α} {I : α → σ → Prop} (xs : List β)
    (h : ∀ a, ∀ x ∈ xs, Spec (I a) (f a x) I E) (a : α) : Spec (I a) (xs.foldlM f a) I E := by
  induction xs generalizing a with
  | nil => exact Spec.pure fun _ h => h
  | cons x xs ih =>
      rw [List.foldlM_cons]
      exact Spec.bind (h a x (.head _)) fun b => ih (fun a y hy => h a y (.tail _ hy)) b

/-- A loop that has ended ends alike with more fuel. -/
theorem whileTrue_of_le {stopped : ε} {body : ρ → EStateM ε σ (Pass ρ α)} {n k : ℕ} (hle : n ≤ k)
    {r : ρ} {s : σ} (h : ∀ s', (whileTrue stopped body n r).run s ≠ .error stopped s') :
    (whileTrue stopped body k r).run s = (whileTrue stopped body n r).run s := by
  induction n generalizing k r s with
  | zero => exact absurd rfl (h s)
  | succ n ih =>
      obtain ⟨k, rfl⟩ : ∃ j, k = j + 1 := ⟨k - 1, by omega⟩
      simp only [whileTrue, EStateM.run_bind] at h ⊢
      cases hbody : (body r).run s with
      | error e s₁ => rfl
      | ok pass s₁ =>
          simp only [hbody] at h ⊢
          cases pass with
          | leave a => rfl
          | again next => exact ih (by omega) h

/-! ## Invariants -/

/-- However the program ends, it leaves a state of the invariant in the invariant. -/
def Keeps (I : σ → Prop) (m : EStateM ε σ α) : Prop :=
  Spec I m (fun _ => I) (fun _ => I)

variable {I : σ → Prop}

theorem Keeps.pure (a : α) : Keeps I (Pure.pure a : EStateM ε σ α) :=
  Spec.pure fun _ h => h

theorem Keeps.throw (e : ε) : Keeps I (MonadExcept.throw e : EStateM ε σ α) :=
  Spec.throw fun _ h => h

theorem Keeps.get : Keeps I (MonadState.get : EStateM ε σ σ) :=
  Spec.get fun _ h => h

theorem Keeps.modify {f : σ → σ} (h : ∀ s, I s → I (f s)) :
    Keeps I (modify f : EStateM ε σ PUnit) :=
  Spec.modify h

theorem Keeps.bind {f : α → EStateM ε σ β} (hm : Keeps I m) (hf : ∀ a, Keeps I (f a)) :
    Keeps I (m >>= f) :=
  Spec.bind hm hf

theorem Keeps.ite {c : Prop} [Decidable c] {m' : EStateM ε σ α} (hm : Keeps I m)
    (hm' : Keeps I m') : Keeps I (if c then m else m') :=
  Spec.ite (fun _ => hm) fun _ => hm'

theorem Keeps.tryCatch {handler : ε → EStateM ε σ α} (hm : Keeps I m)
    (hh : ∀ e, Keeps I (handler e)) : Keeps I (tryCatch m handler) :=
  Spec.tryCatch hm hh

theorem Keeps.forEach {action : β → EStateM ε σ Unit} (xs : List β)
    (h : ∀ x ∈ xs, Keeps I (action x)) : Keeps I (forEach action xs) :=
  Spec.forEach xs h

theorem Keeps.whenSome {action : β → EStateM ε σ Unit} (x : Option β)
    (h : ∀ b, x = some b → Keeps I (action b)) : Keeps I (whenSome x action) := by
  cases x with
  | none => exact Keeps.pure _
  | some b => exact h b rfl

theorem Keeps.whileTrue {stopped : ε} {body : ρ → EStateM ε σ (Pass ρ α)}
    (h : ∀ r, Keeps I (body r)) (fuel : ℕ) (r : ρ) :
    Keeps I (whileTrue stopped body fuel r) := by
  refine Spec.whileTrue (fun _ => I) ?_ (fun _ _ h => h) fuel r
  intro r
  refine (h r).conseq (fun _ h => h) ?_ (fun _ _ h => h)
  rintro (_ | _) s hs <;> exact hs

/-- Two invariants kept together. -/
theorem Keeps.and {J : σ → Prop} (hI : Keeps I m) (hJ : Keeps J m) :
    Keeps (fun s => I s ∧ J s) m := by
  intro s hs
  have h₁ := hI s hs.1
  have h₂ := hJ s hs.2
  cases hr : m.run s <;> simp only [hr] at h₁ h₂ ⊢ <;> exact ⟨h₁, h₂⟩

end Program
