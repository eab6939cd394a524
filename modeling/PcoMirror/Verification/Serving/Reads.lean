import PcoMirror.Model.Serving.Read
import PcoMirror.Verification.Serving.AtMostOnce
import PcoMirror.Verification.Serving.Edges

/-! The steps of a read: what it looks up is where the walks it asked for have left the mirror. -/

namespace PcoMirror

open Program

/-- Where a read starts, and where each walk it asks for leaves the mirror. -/
inductive Filled (env : Env) (fuel : ℕ) (w : World) : World → Prop where
  | start : Filled env fuel w w
  | fill {w₁ : World} (c parent : Res) (parentId : String) : Filled env fuel w w₁ →
      Filled env fuel w (w₁.after (attempt (ensureParentWalked env c parent parentId fuel)))

/-- A row that was live when the read came upon it. -/
def LiveOnce (env : Env) (fuel : ℕ) (w : World) (r : Res) (held : Held) : Prop :=
  ∃ w', Filled env fuel w w' ∧ held ∈ w'.db.liveRows r

/-- The mirror stands where walks have left it since the read began. -/
def Reading.FilledFrom (env : Env) (fuel : ℕ) (w : World) (x : Reading) : Prop :=
  Filled env fuel w x.world

variable {env : Env} {fuel : ℕ} {w : World} {P Q : Reading → Prop}

/-! ## Steps -/

/-- A program of the mirror leaves a read where it leaves the mirror. -/
theorem run_onExchange {α : Type} (m : Serving α) (x : Reading) :
    (onExchange m).run x = match m.run x.toExchange with
      | .ok a e => .ok a { x with toExchange := e }
      | .error fault e => .error fault { x with toExchange := e } := by
  have hget : (get : Read Reading).run x = .ok x x := rfl
  rw [onExchange, run_bind_of_ok hget]
  cases m.run x.toExchange <;> rfl

theorem spec_onMirror {α : Type} {m : Proc α}
    (h : ∀ x : Reading, P x → Q { x with world := x.world.after m }) :
    Spec P (onExchange (onMirror m)) (fun _ => Q) fun _ => Q := by
  intro x hx
  have hq := h x hx
  rw [run_onExchange, run_onMirror]
  unfold World.after at hq
  cases hm : m.run x.world with
  | ok a w' => simpa only [hm] using hq
  | error halt w' => cases halt <;> simpa only [hm] using hq

theorem spec_readPy {α : Type} (e : Except PyError α) :
    Spec P (readPy e) (fun a x => e = .ok a ∧ P x) fun _ _ => True := by
  cases e with
  | ok a => exact Spec.pure fun _ h => ⟨rfl, h⟩
  | error e => exact Spec.throw fun _ _ => trivial

theorem spec_readSql {α : Type} (e : Except SqlError α) :
    Spec P (readSql e) (fun a x => e = .ok a ∧ P x) fun _ _ => True := by
  cases e with
  | ok a => exact Spec.pure fun _ h => ⟨rfl, h⟩
  | error e => exact Spec.throw fun _ _ => trivial

theorem spec_ofFault {α : Type} (e : Except Fault α) :
    Spec P (ofFault e) (fun _ => P) fun _ _ => True := by
  cases e with
  | ok a => exact Spec.pure fun _ h => h
  | error e => exact Spec.throw fun _ _ => trivial

theorem spec_reading : Spec P (get : Read Reading) (fun _ => P) fun _ _ => True :=
  fun _ h => h

/-- The tables as the read came upon them. -/
def DbOnce (env : Env) (fuel : ℕ) (w : World) (db : Db) : Prop :=
  ∃ w', Filled env fuel w w' ∧ w'.db = db

theorem spec_database :
    Spec (Reading.FilledFrom env fuel w) database
      (fun db x => x.FilledFrom env fuel w ∧ DbOnce env fuel w db) fun _ _ => True :=
  fun x hx => ⟨hx, x.world, hx, rfl⟩

theorem keeps_present (collections : Db → List (Res × String)) :
    Keeps (Reading.FilledFrom env fuel w) (present collections) :=
  Keeps.modify fun _ h => h

/-! ## Walks -/

theorem keeps_fillParent (c parent : Res) (budget : ℕ) (parentId : String) :
    Keeps (Reading.FilledFrom env fuel w) (fillParent env fuel c parent budget parentId) := by
  have hnote : Keeps (Reading.FilledFrom env fuel w) (noteEnsured c parentId) :=
    Keeps.modify fun _ h => h
  refine Keeps.bind Keeps.get fun x => ?_
  refine Spec.ite (fun _ => Keeps.bind hnote fun _ => Keeps.pure _) fun _ =>
    Spec.ite (fun _ => Keeps.pure _) fun _ => Spec.ite (fun _ => Keeps.throw _) fun _ => ?_
  refine Keeps.bind (spec_onMirror fun _ hx => .fill c parent parentId hx) fun tried => ?_
  cases tried with
  | ok _ => exact Keeps.bind hnote fun _ => Keeps.pure _
  | error e => exact Keeps.throw _

theorem keeps_fillRow (r c parent : Res) (budget : ℕ) (held : Held) :
    Keeps (Reading.FilledFrom env fuel w) (fillRow env fuel r c parent budget held) := by
  refine Keeps.bind (fun _ hx => hx) fun db => ?_
  refine Keeps.bind ?_ fun ids => Spec.foldlM ids (fun budget id _ =>
    keeps_fillParent c parent budget id) budget
  cases db.parentIds r parent held with
  | ok ids => exact Keeps.pure _
  | error e => exact Keeps.throw _

theorem keeps_ensureWalked (r : Res) (rel : Rel) (rows : List Held) :
    Keeps (Reading.FilledFrom env fuel w) (ensureWalked env fuel r rel rows) := by
  unfold ensureWalked
  cases rel.walkedUnder with
  | none => exact Keeps.pure _
  | some parent =>
      exact Keeps.bind (Spec.foldlM rows (fun budget held _ =>
        keeps_fillRow r rel.target parent budget held) 25) fun _ => Keeps.pure _

/-! ## Rows -/

theorem Db.mem_live?_liveRows {db : Db} {t : Res} {id : String} {held : Held}
    (h : db.live? t id = some held) : held ∈ db.liveRows t :=
  (Db.live?_eq_some.mp h).2

/-- An include finds live rows only. -/
theorem live_of_mem_relatedRows {db : Db} {r : Res} {rel : Rel} {rows found : List Held}
    (h : db.relatedRows r rel rows = .ok found) {held : Held} (hheld : held ∈ found) :
    held ∈ db.liveRows rel.target := by
  unfold Db.relatedRows at h
  cases hkind : rel.kind with
  | json =>
      rw [hkind] at h
      obtain ⟨targets, -, hfound⟩ := except_bind_eq_ok.mp h
      cases hfound
      obtain ⟨id, -, hlive⟩ := List.mem_filterMap.mp hheld
      exact Db.mem_live?_liveRows hlive
  | many =>
      rw [hkind] at h
      cases h
      exact (List.mem_filter.mp hheld).1
  | one =>
      rw [hkind] at h
      cases h
      exact (List.mem_filter.mp hheld).1

/-- The rows were live when the read came upon them. -/
def AllLive (env : Env) (fuel : ℕ) (w : World) (r : Res) (rows : List Held) : Prop :=
  ∀ held ∈ rows, LiveOnce env fuel w r held

theorem spec_readRelated (r : Res) (rel : Rel) (rows : List Held) :
    Spec (Reading.FilledFrom env fuel w) (readRelated r rel rows)
      (fun found x => x.FilledFrom env fuel w ∧ AllLive env fuel w rel.target found)
      fun _ _ => True := by
  refine Spec.bind ((keeps_present _).mono_halt fun _ _ _ => trivial) fun _ => Spec.bind spec_database fun db => ?_
  refine (spec_readPy _).conseq (fun _ h => h) ?_ fun _ _ h => h
  rintro found x ⟨hfound, hx, w', hw, rfl⟩
  exact ⟨hx, fun held hheld => ⟨w', hw, live_of_mem_relatedRows hfound hheld⟩⟩

end PcoMirror
