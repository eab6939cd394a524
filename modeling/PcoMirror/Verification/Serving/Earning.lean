import PcoMirror.Verification.Serving.AtMostOnce
import PcoMirror.Verification.Serving.Still
import PcoMirror.Verification.Walk.Crediting

/-! Serving keeps the record of walks earned: a write puts on record the collection it walks, and a
read the collections it has walked before it presents them. -/

namespace PcoMirror

open Program

variable {env : Env} {transport : Transport} {site : Site} {u : Unicode} {fuel : ℕ} {α β : Type}

/-! ## Writes -/

/-- However the program ends, PCO has answered whatever is on record. -/
def ServesEarned (m : Serving α) : Prop :=
  ∀ others, Keeps (fun x => x.world.Credited others) m

theorem ServesEarned.bind {m : Serving α} {f : α → Serving β} (hm : ServesEarned m)
    (hf : ∀ a, ServesEarned (f a)) : ServesEarned (m >>= f) :=
  fun others => Keeps.bind (hm others) fun a => hf a others

theorem ServesEarned.ite {p : Prop} [Decidable p] {m m' : Serving α} (h : ServesEarned m)
    (h' : ServesEarned m') : ServesEarned (if p then m else m') :=
  fun others => Keeps.ite (h others) (h' others)

theorem ServesEarned.forEach {action : β → Serving Unit} (h : ∀ x, ServesEarned (action x))
    (xs : List β) : ServesEarned (forEach action xs) :=
  fun others => Keeps.forEach xs fun x _ => h x others

/-- What holds of the mirror at a program's end holds of it where the program is run while a request
is served. -/
theorem spec_onMirror_ends {m : Proc α} {P : World → Prop} {Q : α → World → Prop} {E : World → Prop}
    (h : Spec P m Q fun _ => E) : Spec (fun x : Exchange => P x.world) (onMirror m)
      (fun a x => Q a x.world) fun _ x => E x.world := by
  intro x hx
  have hend := h x.world hx
  rw [run_onMirror]
  cases hrun : m.run x.world with
  | ok a w => simpa only [hrun] using hend
  | error halt w => cases halt <;> simpa only [hrun] using hend

theorem Earns.onMirror {m : Proc α} (h : Earns m) : ServesEarned (onMirror m) :=
  fun others => spec_onMirror_ends (h others)

theorem Earns.quietly {m : Proc α} (h : Earns m) : ServesEarned (quietly m) :=
  (h.attempt.bind fun _ => earns_pure ()).onMirror

/-- PCO has answered the collection of every parent on record and of every parent the read has seen
to, and of every parent presented that was so when the answer came to it. -/
structure Reading.Sound (x : Reading) : Prop where
  credited : x.world.Credited x.ensured
  presented : ∀ p ∈ x.presented, p.ensured = true ∨ p.known = true →
    WalkAnswered p.record p.child p.parentId

/-- However the program ends, the read stays sound. -/
def ReadsSound (m : Read α) : Prop :=
  Keeps Reading.Sound m

theorem ReadsSound.bind {m : Read α} {f : α → Read β} (hm : ReadsSound m)
    (hf : ∀ a, ReadsSound (f a)) : ReadsSound (m >>= f) :=
  Keeps.bind hm hf

theorem ReadsSound.ite {p : Prop} [Decidable p] {m m' : Read α} (h : ReadsSound m)
    (h' : ReadsSound m') : ReadsSound (if p then m else m') :=
  Keeps.ite h h'

/-- What a program of the service leaves of a read. -/
theorem spec_onExchange {m : Serving α} {P : Exchange → Prop} {Q : α → Exchange → Prop}
    {E : Fault → Exchange → Prop} (h : Spec P m Q E) (x₀ : Reading) :
    Spec (fun x => P x.toExchange ∧ x = { x₀ with toExchange := x.toExchange }) (onExchange m)
      (fun a x => Q a x.toExchange ∧ x = { x₀ with toExchange := x.toExchange })
      fun fault x => E fault x.toExchange ∧ x = { x₀ with toExchange := x.toExchange } := by
  rintro x ⟨hx, hframe⟩
  have hm := h x.toExchange hx
  rw [run_onExchange]
  cases hend : m.run x.toExchange with
  | ok a e =>
      refine ⟨by simpa only [hend] using hm, ?_⟩
      rw [hframe]
  | error fault e =>
      refine ⟨by simpa only [hend] using hm, ?_⟩
      rw [hframe]

theorem ServesEarned.onExchange {m : Serving α} (h : ServesEarned m) :
    ReadsSound (onExchange m) := by
  intro x hx
  have hkept : Keeps (fun y => y.world.Credited x.ensured) m := h x.ensured
  have hstart : ∀ y : Reading, y = x → y.world.Credited x.ensured ∧
      y = { x with toExchange := y.toExchange } := by
    rintro y rfl
    exact ⟨hx.credited, rfl⟩
  refine ((spec_onExchange hkept x).conseq hstart ?_ ?_) x rfl
  · rintro a y ⟨hcredited, hframe⟩
    rw [hframe]
    exact ⟨hcredited, hx.presented⟩
  · rintro fault y ⟨hcredited, hframe⟩
    rw [hframe]
    exact ⟨hcredited, hx.presented⟩

end PcoMirror
