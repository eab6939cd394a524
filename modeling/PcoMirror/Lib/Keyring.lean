import Mathlib.Data.List.Induction
import Mathlib.Logic.Function.Basic
import PcoMirror.Lib.Run

/-! A keyring: names that are granted something, and have it withdrawn again. What a name holds
after a run is what it was granted and nobody has withdrawn since. -/

namespace Keyring

variable {ν γ : Type}

/-- A grant gives a name something to hold, and a withdrawal takes all that its condition picks. -/
inductive Move (ν γ : Type) where
  | grant (name : ν) (g : γ)
  | withdraw (picks : ν → γ → Bool)

/-- What a ring holds. -/
abbrev Ring (ν γ : Type) := ν → Option γ

variable [DecidableEq ν]

/-- A name that holds something is granted nothing more. -/
def step (held : Ring ν γ) : Move ν γ → Ring ν γ
  | .grant name g => if (held name).isSome then held else Function.update held name (some g)
  | .withdraw picks => fun name => (held name).filter fun g => !picks name g

variable {held : Ring ν γ} {moves : List (Move ν γ)} {name : ν} {g : γ}

/-- No withdrawal picks it. -/
def Spared (name : ν) (g : γ) (moves : List (Move ν γ)) : Prop :=
  ∀ picks, .withdraw picks ∈ moves → picks name g = false

omit [DecidableEq ν] in
theorem spared_nil : Spared name g [] := by
  intro picks h
  cases h

omit [DecidableEq ν] in
theorem spared_append {before after : List (Move ν γ)} :
    Spared name g (before ++ after) ↔ Spared name g before ∧ Spared name g after := by
  constructor
  · intro h
    exact ⟨fun picks hmem => h picks (List.mem_append_left _ hmem),
      fun picks hmem => h picks (List.mem_append_right _ hmem)⟩
  · intro h picks hmem
    rcases List.mem_append.mp hmem with hbefore | hafter
    · exact h.1 picks hbefore
    · exact h.2 picks hafter

omit [DecidableEq ν] in
theorem spared_grant {name' : ν} {g' : γ} : Spared name g [.grant name' g'] := by
  intro picks h
  cases List.mem_singleton.mp h

omit [DecidableEq ν] in
theorem spared_withdraw {picks : ν → γ → Bool} :
    Spared name g [.withdraw picks] ↔ picks name g = false := by
  simp [Spared]

/-- One move: what is held was held and is spared, or is granted to a name that held nothing. -/
theorem step_eq_some {move : Move ν γ} : step held move name = some g ↔
    (held name = some g ∧ Spared name g [move]) ∨ (held name = none ∧ move = .grant name g) := by
  cases move with
  | grant name' g' =>
      simp only [step, spared_grant, and_true]
      by_cases hsome : (held name').isSome
      · rw [if_pos hsome]
        constructor
        · exact .inl
        · intro h
          rcases h with h | ⟨hnone, hmove⟩
          · exact h
          · cases hmove
            rw [hnone] at hsome
            cases hsome
      · rw [if_neg hsome]
        rw [Option.not_isSome_iff_eq_none] at hsome
        by_cases hname : name = name'
        · subst hname
          simp [hsome, eq_comm]
        · rw [Function.update_of_ne hname]
          constructor
          · exact .inl
          · intro h
            rcases h with h | ⟨-, hmove⟩
            · exact h
            · cases hmove
              exact absurd rfl hname
  | withdraw picks =>
      rw [spared_withdraw]
      simp [step, Option.filter_eq_some_iff]

/-- The name was granted this while it held nothing, and nobody has withdrawn it since. -/
def Granted (held : Ring ν γ) (moves : List (Move ν γ)) (name : ν) (g : γ) : Prop :=
  ∃ before after, moves = before ++ .grant name g :: after ∧
    Run.exec step held before name = none ∧ Spared name g after

/-- What a name holds after a run: what it held before, or was granted, and nobody withdrew. -/
theorem exec_eq_some : Run.exec step held moves name = some g ↔
    (held name = some g ∧ Spared name g moves) ∨ Granted held moves name g := by
  induction moves using List.reverseRecOn with
  | nil =>
      constructor
      · exact fun h => .inl ⟨h, spared_nil⟩
      · intro h
        rcases h with h | ⟨before, after, hmoves, -⟩
        · exact h.1
        · exact absurd hmoves (by simp)
  | append_singleton moves move ih =>
      rw [Run.exec_append, Run.exec_cons, Run.exec_nil, step_eq_some, ih, spared_append]
      constructor
      · intro h
        rcases h with ⟨h | ⟨before, after, hmoves, hnone, hspared⟩, hmove⟩ | ⟨hnone, hmove⟩
        · exact .inl ⟨h.1, h.2, hmove⟩
        · exact .inr ⟨before, after ++ [move], by simp [hmoves], hnone,
            spared_append.mpr ⟨hspared, hmove⟩⟩
        · exact .inr ⟨moves, [], by rw [hmove], hnone, spared_nil⟩
      · intro h
        rcases h with ⟨hheld, hspared, hmove⟩ | ⟨before, after, hmoves, hnone, hspared⟩
        · exact .inl ⟨.inl ⟨hheld, hspared⟩, hmove⟩
        · rcases List.eq_nil_or_concat' after with rfl | ⟨after, last, rfl⟩
          · obtain ⟨hbefore, hmove⟩ := List.append_inj' hmoves rfl
            exact .inr ⟨hbefore ▸ hnone, (List.cons.inj hmove).1⟩
          · obtain ⟨hbefore, hlast⟩ := List.append_inj'
              (hmoves.trans (List.append_assoc before (.grant name g :: after) [last]).symm) rfl
            cases hlast
            rw [spared_append] at hspared
            exact .inl ⟨.inr ⟨before, after, hbefore, hnone, hspared.1⟩, hspared.2⟩

/-- In a ring that starts out empty only what was granted is held. -/
theorem exec_empty_eq_some : Run.exec step (fun _ => none) moves name = some g ↔
    Granted (fun _ => none) moves name g := by
  rw [exec_eq_some]
  simp

end Keyring
