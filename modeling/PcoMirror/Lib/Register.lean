import Mathlib.Data.List.Induction
import Mathlib.Order.Basic
import PcoMirror.Lib.Run

/-! A register written by timestamped updates and deletes in any order: the newest
update is kept, a delete buries what is there, and an update above the bar of the
last delete digs it up again. A delete of an empty register leaves no trace. -/

namespace Register

variable {τ α : Type} [LinearOrder τ]

inductive Change (τ α : Type) where
  | update (time : τ) (value : α)
  | delete (time : τ)

def Change.time : Change τ α → τ
  | .update time _ => time
  | .delete time => time

inductive Cell (τ α : Type) where
  | empty
  | live (time : τ) (value : α)
  | buried (time : τ) (value : α) (bar : τ)

def Cell.step : Cell τ α → Change τ α → Cell τ α
  | .empty, .update u x => .live u x
  | .empty, .delete _ => .empty
  | .live t v, .update u x => if t < u then .live u x else .live t v
  | .live t v, .delete d => if d < t then .live t v else .buried t v d
  | .buried t v b, .update u x =>
    if b < u then (if t < u then .live u x else .live t v)
    else (if t < u then .buried u x b else .buried t v b)
  | .buried t v _, .delete d => .buried t v d

/-- The register after a list of changes. -/
def run (changes : List (Change τ α)) : Cell τ α :=
  Run.exec Cell.step .empty changes

theorem run_concat (changes : List (Change τ α)) (c : Change τ α) :
    run (changes ++ [c]) = (run changes).step c :=
  Run.exec_append Cell.step .empty changes [c]

/-- What a live register shows. -/
def Cell.shown : Cell τ α → Option α
  | .live _ v => some v
  | _ => none

/-- The update a register holds, live or buried. -/
def Cell.held : Cell τ α → Option (τ × α)
  | .empty => none
  | .live t v => some (t, v)
  | .buried t v _ => some (t, v)

/-! ## The newest update is held -/

/-- Of what is held and a change, the newer update. -/
def latest : Option (τ × α) → Change τ α → Option (τ × α)
  | none, .update u x => some (u, x)
  | some (t, v), .update u x => if t < u then some (u, x) else some (t, v)
  | held, .delete _ => held

/-- What is held does not depend on whether it is live. -/
theorem held_step (s : Cell τ α) (c : Change τ α) : (s.step c).held = latest s.held c := by
  cases s <;> cases c <;> simp only [Cell.step, Cell.held, latest] <;> (try split_ifs) <;> rfl

theorem held_run_concat (changes : List (Change τ α)) (c : Change τ α) :
    (run (changes ++ [c])).held = latest (run changes).held c := by
  rw [run_concat, held_step]

theorem latest_eq_some {held : Option (τ × α)} {c : Change τ α} {t : τ} {v : α}
    (h : latest held c = some (t, v)) : held = some (t, v) ∨ c = .update t v := by
  cases c with
  | delete d => cases held <;> exact .inl h
  | update u x =>
      cases held with
      | none =>
          obtain ⟨rfl, rfl⟩ := Prod.mk.inj (Option.some.inj h)
          exact .inr rfl
      | some held =>
          simp only [latest] at h
          split_ifs at h
          · obtain ⟨rfl, rfl⟩ := Prod.mk.inj (Option.some.inj h)
            exact .inr rfl
          · exact .inl h

theorem held_mem {changes : List (Change τ α)} {t : τ} {v : α}
    (h : (run changes).held = some (t, v)) : .update t v ∈ changes := by
  induction changes using List.reverseRecOn generalizing t v with
  | nil => cases h
  | append_singleton changes c ih =>
      rw [held_run_concat] at h
      rw [List.mem_append, List.mem_singleton]
      rcases latest_eq_some h with hheld | rfl
      · exact .inl (ih hheld)
      · exact .inr rfl

/-- Every update is held, or something at least as new is. -/
theorem le_held {changes : List (Change τ α)} {u : τ} {x : α} (h : .update u x ∈ changes) :
    ∃ t v, (run changes).held = some (t, v) ∧ u ≤ t := by
  induction changes using List.reverseRecOn generalizing u x with
  | nil => cases h
  | append_singleton changes c ih =>
      rw [held_run_concat]
      have hnewer : ∀ t v, (run changes).held = some (t, v) →
          ∃ t' v', latest (run changes).held c = some (t', v') ∧ t ≤ t' := by
        intro t v hheld
        rw [hheld]
        cases c with
        | delete d => exact ⟨t, v, rfl, le_rfl⟩
        | update u x =>
            simp only [latest]
            split_ifs with hlt
            · exact ⟨u, x, rfl, hlt.le⟩
            · exact ⟨t, v, rfl, le_rfl⟩
      rcases List.mem_append.mp h with hearlier | hlast
      · obtain ⟨t, v, hheld, hle⟩ := ih hearlier
        obtain ⟨t', v', hnow, hle'⟩ := hnewer t v hheld
        exact ⟨t', v', hnow, hle.trans hle'⟩
      · obtain rfl := List.mem_singleton.mp hlast
        cases hheld : (run changes).held with
        | none => exact ⟨u, x, rfl, le_rfl⟩
        | some held =>
            simp only [latest]
            split_ifs with hlt
            · exact ⟨u, x, rfl, le_rfl⟩
            · exact ⟨held.1, held.2, rfl, not_lt.mp hlt⟩

/-! ## Buried registers -/

/-- The time a later update must exceed, after some more changes. -/
def lastBar (bar : τ) : List (Change τ α) → τ
  | [] => bar
  | .update _ _ :: changes => lastBar bar changes
  | .delete d :: changes => lastBar d changes

/-- No update is above the last delete before it, counting from a first bar. -/
def NoneAbove (bar : τ) : List (Change τ α) → Prop
  | [] => True
  | .update u _ :: changes => u ≤ bar ∧ NoneAbove bar changes
  | .delete d :: changes => NoneAbove d changes

omit [LinearOrder τ] in
theorem lastBar_append (bar : τ) (changes more : List (Change τ α)) :
    lastBar bar (changes ++ more) = lastBar (lastBar bar changes) more := by
  induction changes generalizing bar with
  | nil => rfl
  | cons c changes ih => cases c <;> exact ih _

theorem noneAbove_append (bar : τ) (changes more : List (Change τ α)) :
    NoneAbove bar (changes ++ more) ↔
      NoneAbove bar changes ∧ NoneAbove (lastBar bar changes) more := by
  induction changes generalizing bar with
  | nil => simp [NoneAbove, lastBar]
  | cons c changes ih => cases c <;> simp [NoneAbove, lastBar, ih, and_assoc]

/-- The bar an update stays under is the first one or a delete's. -/
theorem NoneAbove.le {bar u : τ} {x : α} {changes : List (Change τ α)}
    (h : NoneAbove bar changes) (hmem : .update u x ∈ changes) :
    u ≤ bar ∨ ∃ d, .delete d ∈ changes ∧ u ≤ d := by
  induction changes generalizing bar with
  | nil => cases hmem
  | cons c changes ih =>
      cases c with
      | update u' x' =>
          rcases List.mem_cons.mp hmem with heq | hrest
          · cases heq
            exact .inl h.1
          · rcases ih h.2 hrest with hle | ⟨d, hd, hle⟩
            · exact .inl hle
            · exact .inr ⟨d, by simp [hd], hle⟩
      | delete d' =>
          rcases List.mem_cons.mp hmem with heq | hrest
          · cases heq
          · rcases ih h hrest with hle | ⟨d, hd, hle⟩
            · exact .inr ⟨d', by simp, hle⟩
            · exact .inr ⟨d, by simp [hd], hle⟩

/-- A buried register stays buried under changes none of which clears the bar. -/
theorem exec_buried (t : τ) (v : α) (bar : τ) (changes : List (Change τ α))
    (h : NoneAbove bar changes) :
    ∃ t' v', Run.exec Cell.step (.buried t v bar) changes = .buried t' v' (lastBar bar changes) := by
  induction changes generalizing t v bar with
  | nil => exact ⟨t, v, rfl⟩
  | cons c changes ih =>
      cases c with
      | delete d => exact ih t v d h
      | update u x =>
          rw [Run.exec_cons, Cell.step, if_neg (not_lt.mpr h.1)]
          split_ifs
          · exact ih u x bar h.2
          · exact ih t v bar h.2

/-- A delete finds an update there, is newer than every update before it, and is not
cleared by a later one. -/
def Buries (changes : List (Change τ α)) (bar : τ) : Prop :=
  ∃ pre d post, changes = pre ++ .delete d :: post ∧ (∃ u x, .update u x ∈ pre) ∧
    (∀ u x, .update u x ∈ pre → u ≤ d) ∧ NoneAbove d post ∧ bar = lastBar d post

theorem Buries.concat {changes : List (Change τ α)} {bar : τ} (h : Buries changes bar)
    {c : Change τ α} (hc : NoneAbove bar [c]) : Buries (changes ++ [c]) (lastBar bar [c]) := by
  obtain ⟨pre, d, post, rfl, hpre, hle, hpost, rfl⟩ := h
  refine ⟨pre, d, post ++ [c], by simp, hpre, hle, ?_, ?_⟩
  · exact (noneAbove_append d post [c]).mpr ⟨hpost, hc⟩
  · rw [lastBar_append]

theorem run_eq_empty {changes : List (Change τ α)} (h : run changes = .empty) (u : τ) (x : α) :
    .update u x ∉ changes := by
  intro hmem
  obtain ⟨t, v, hheld, -⟩ := le_held hmem
  rw [h] at hheld
  cases hheld

theorem Buries.run {changes : List (Change τ α)} {bar : τ} (h : Buries changes bar) :
    ∃ t v, run changes = .buried t v bar := by
  obtain ⟨pre, d, post, rfl, ⟨u, x, hu⟩, hle, hpost, rfl⟩ := h
  have hstep : ∃ t v, (Register.run pre).step (.delete d) = .buried t v d := by
    cases hpre : Register.run pre with
    | empty => exact absurd hu (run_eq_empty hpre u x)
    | live t v =>
        have hheld : .update t v ∈ pre := held_mem (by rw [hpre]; rfl)
        exact ⟨t, v, by rw [Cell.step, if_neg (not_lt.mpr (hle t v hheld))]⟩
    | buried t v b => exact ⟨t, v, rfl⟩
  obtain ⟨t, v, hburied⟩ := hstep
  obtain ⟨t', v', hrun⟩ := exec_buried t v d post hpost
  refine ⟨t', v', ?_⟩
  rw [Register.run, Run.exec_append, Run.exec_cons]
  change Run.exec Cell.step ((Register.run pre).step (.delete d)) post = _
  rw [hburied, hrun]

theorem buries_of_run {changes : List (Change τ α)} {t : τ} {v : α} {b : τ}
    (h : run changes = .buried t v b) : Buries changes b := by
  induction changes using List.reverseRecOn generalizing t v b with
  | nil => cases h
  | append_singleton changes c ih =>
      rw [run_concat] at h
      cases hrun : run changes with
      | empty => cases c <;> simp [hrun, Cell.step] at h
      | live t' v' =>
          cases c with
          | update u x =>
              simp only [hrun, Cell.step] at h
              split_ifs at h
          | delete d =>
              simp only [hrun, Cell.step] at h
              split_ifs at h with hlt
              cases h
              refine ⟨changes, b, [], rfl, ⟨t, v, held_mem (by rw [hrun]; rfl)⟩, ?_, trivial, rfl⟩
              intro u x hu
              obtain ⟨t'', v'', hheld, hle⟩ := le_held hu
              rw [hrun] at hheld
              cases hheld
              exact hle.trans (not_lt.mp hlt)
      | buried t' v' b' =>
          have hburies := ih hrun
          cases c with
          | update u x =>
              simp only [hrun, Cell.step] at h
              split_ifs at h with hlt hnew hnew <;> cases h
              · exact hburies.concat ⟨not_lt.mp hlt, trivial⟩
              · exact hburies.concat ⟨not_lt.mp hlt, trivial⟩
          | delete d =>
              simp only [hrun, Cell.step] at h
              cases h
              exact hburies.concat trivial

/-! ## What a register shows in the end -/

/-- A register shows nothing exactly when it was never written or lies buried. -/
theorem shown_eq_none_iff {changes : List (Change τ α)} :
    (run changes).shown = none ↔
      (∀ u x, .update u x ∉ changes) ∨ ∃ bar, Buries changes bar := by
  constructor
  · intro h
    cases hrun : run changes with
    | empty => exact .inl (run_eq_empty hrun)
    | live t v => simp [hrun, Cell.shown] at h
    | buried t v b => exact .inr ⟨b, buries_of_run hrun⟩
  · rintro (hnone | ⟨bar, hburies⟩)
    · cases hrun : run changes with
      | empty => rfl
      | live t v => exact absurd (held_mem (by rw [hrun]; rfl)) (hnone t v)
      | buried t v b => rfl
    · obtain ⟨t, v, hrun⟩ := hburies.run
      rw [hrun]
      rfl

/-- An update newer than every other change is live in the end, in any order. -/
theorem shown_of_greatest {changes : List (Change τ α)} {t : τ} {v : α}
    (hmem : .update t v ∈ changes) (hmax : ∀ c ∈ changes, c.time ≤ t)
    (honly : ∀ c ∈ changes, c.time = t → c = .update t v) : (run changes).shown = some v := by
  have holder : ∀ d, .delete d ∈ changes → d < t := by
    intro d hd
    refine lt_of_le_of_ne (hmax _ hd) fun heq => ?_
    cases honly _ hd heq
  obtain ⟨t', v', hheld, hle⟩ := le_held hmem
  have hnewest := held_mem hheld
  obtain rfl : t' = t := le_antisymm (hmax _ hnewest) hle
  cases honly _ hnewest rfl
  cases hrun : run changes with
  | empty => exact absurd hmem (run_eq_empty hrun _ _)
  | live t v =>
      rw [hrun] at hheld
      cases hheld
      rfl
  | buried t v b =>
      -- The delete it lies under would have to be at least as new, wherever the update stands.
      obtain ⟨pre, d, post, rfl, -, hpre, hpost, -⟩ := buries_of_run hrun
      have hd := holder d (by simp)
      rcases List.mem_append.mp hmem with hin | hin
      · exact absurd (hpre _ _ hin) (not_le.mpr hd)
      · rcases List.mem_cons.mp hin with heq | hin
        · cases heq
        · rcases hpost.le hin with hle' | ⟨d', hd', hle'⟩
          · exact absurd hle' (not_le.mpr hd)
          · exact absurd hle' (not_le.mpr (holder d' (by simp [hd'])))

end Register
