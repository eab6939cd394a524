import Mathlib.Logic.Function.Basic

/-! A derived column: a value kept beside each record, computed from the record and from a
setting it refers to, and computed again by some of the writes that touch either. -/

namespace Derived

variable {κ δ β γ τ : Type}

/-- How the column follows from a record and a setting. -/
structure Scheme (δ β γ τ : Type) where
  ref : β → δ
  derive : β → γ → τ

/-- The records, each with what is kept beside it, and the settings. -/
structure Tables (κ δ β γ τ : Type) where
  records : κ → Option (β × τ)
  settings : δ → γ

inductive Write (κ δ β γ : Type) where
  /-- Stores a record and derives its column. -/
  | store (k : κ) (b : β)
  /-- Stores a setting and derives nothing. -/
  | set (d : δ) (g : γ)
  /-- Stores a setting and derives the column of every record that refers to it. -/
  | reset (d : δ) (g : γ)
  | rest

variable [DecidableEq κ] [DecidableEq δ] (scheme : Scheme δ β γ τ)

/-- The column of a record, as it would be derived now. -/
def Tables.derived (s : Tables κ δ β γ τ) (b : β) : τ :=
  scheme.derive b (s.settings (scheme.ref b))

/-- Every column is what would be derived now. -/
def Tables.Fresh (s : Tables κ δ β γ τ) : Prop :=
  ∀ k b v, s.records k = some (b, v) → v = s.derived scheme b

def Write.apply (s : Tables κ δ β γ τ) : Write κ δ β γ → Tables κ δ β γ τ
  | .store k b => { s with records := Function.update s.records k (some (b, s.derived scheme b)) }
  | .set d g => { s with settings := Function.update s.settings d g }
  | .reset d g => {
      records := fun k => (s.records k).map fun e =>
        (e.1, if scheme.ref e.1 = d then scheme.derive e.1 g else e.2)
      settings := Function.update s.settings d g }
  | .rest => s

/-- A setting stored without deriving anything gives every record that refers to it the
column it had. -/
def Write.Agrees (s : Tables κ δ β γ τ) : Write κ δ β γ → Prop
  | .set d g => ∀ k b v, s.records k = some (b, v) → scheme.ref b = d →
      scheme.derive b g = scheme.derive b (s.settings d)
  | .store .. | .reset .. | .rest => True

variable {scheme} {s : Tables κ δ β γ τ}

theorem Tables.Fresh.store (h : s.Fresh scheme) (k : κ) (b : β) :
    ((Write.store k b).apply scheme s).Fresh scheme := by
  intro k' b' v hrecord
  by_cases hk : k' = k
  · subst hk
    have hstored : (b, s.derived scheme b) = (b', v) := by
      simpa [Write.apply] using hrecord
    cases hstored
    rfl
  · exact h k' b' v (by simpa [Write.apply, hk] using hrecord)

theorem Tables.Fresh.reset (h : s.Fresh scheme) (d : δ) (g : γ) :
    ((Write.reset d g : Write κ δ β γ).apply scheme s).Fresh scheme := by
  intro k b v hrecord
  obtain ⟨⟨b', v'⟩, hheld, heq⟩ := Option.map_eq_some_iff.mp hrecord
  cases heq
  by_cases hd : scheme.ref b' = d
  · simp [Write.apply, Tables.derived, hd]
  · have hfresh : v' = s.derived scheme b' := h k b' v' hheld
    simp [Write.apply, Tables.derived, hd, hfresh]

end Derived
