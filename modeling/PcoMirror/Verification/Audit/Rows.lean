import PcoMirror.Verification.Writer.Operations

/-! What the programs of an audit do to the audited table, and which of them leave it alone. -/

namespace PcoMirror

open Program

/-! ## Single rows -/

theorem row?_settle_apart {t u : Res} {id k : String} (howned : ownedFk t u = none)
    (hother : ¬ (u = t ∧ k = id)) (now : String) (db : Db) :
    (settle t id now db).row? u k = db.row? u k := by
  have huncascade : (uncascade t id now db).row? u k = db.row? u k := by
    rw [row?_uncascade, howned, ite_self]
  rw [settle]
  split_ifs with ht
  · rw [projectFieldDatum, Db.row?_updateRow, if_neg (by rwa [← ht]), huncascade]
  · exact huncascade

theorem row?_confirmLive_ne {t : Res} {id k : String} (hne : k ≠ id) (raw : Json) (w : Stamp)
    (db : Db) : (confirmLive t id raw w db).row? t k = db.row? t k := by
  have hother : ¬ (t = t ∧ k = id) := fun h => hne h.2
  rw [confirmLive_eq, row?_settle_apart (ownedFk_self t) hother, Db.row?_put, if_neg hother]

theorem row?_tombstone_ne {t : Res} {id k : String} (hne : k ≠ id) (evidence : Option Json)
    (reason : Reason) (mergedInto : Option String) (now : String) (db : Db) :
    (tombstone t id evidence reason mergedInto now db).row? t k = db.row? t k := by
  rw [row?_tombstone, if_neg fun h => hne h.2, ownedFk_self, ite_self]

/-- A tombstone that brings no evidence of its own is accepted by every row. -/
theorem not_isLive_tombstone (t : Res) (id : String) (reason : Reason)
    (mergedInto : Option String) (now : String) (db : Db) :
    (tombstone t id none reason mergedInto now db).isLive t id = false := by
  rw [Db.isLive, row?_tombstone_self]
  cases db.row? t id with
  | none => rfl
  | some row =>
      have hguard : row.tombstoneGuard (stableTs none) reason = true := by
        rw [Row.tombstoneGuard]
        cases huat : row.uat <;> simp [stableTs]
      simp [Row.tombstoned, hguard, Row.tombstone, Row.live]

/-- Writing a row of one table leaves another alone that it does not own. -/
theorem row?_write_apart {t u : Res} (hne : u ≠ t) (howned : ownedFk t u = none) (id : String)
    (stored : Json) (w : Stamp) (db : Db) (k : String) :
    (write t id stored w db).row? u k = db.row? u k := by
  have hother : ¬ (u = t ∧ k = id) := fun h => hne h.1
  rw [write]
  split_ifs
  · rw [upsert_eq, row?_settle_apart howned hother, Db.row?_put, if_neg hother]
  · rw [row?_upsertUntimed, if_neg hother]

/-- The resources that arrive with a record fetched with its includes. -/
def sideloaded (r : Res) : List Res :=
  r.info.includes.filterMap fun name => (r.info.relationships.lookup name).map (·.target)

/-- No resource is sideloaded with its own kind, or with an owner of it. -/
theorem sideloaded_apart (r : Res) : ∀ t ∈ sideloaded r, r ≠ t ∧ ownedFk t r = none := by
  cases r <;> decide

/-! ## Programs that leave the audited table alone -/

/-- The confirmations in the record. -/
def World.confirmations (w : World) : List (Res × String) :=
  w.log.filterMap fun
    | .confirmed t id => some (t, id)
    | _ => none

/-- Nothing an audit of this resource is about has changed. -/
structure Apart (r : Res) (w w' : World) : Prop where
  rows : ∀ id, w'.db.row? r id = w.db.row? r id
  tombstones : w'.tombstones = w.tombstones
  confirmations : w'.confirmations = w.confirmations
  scratch : w'.scratch r = w.scratch r
  round : w'.auditRound r = w.auditRound r

variable {r : Res}

theorem Apart.refl (w : World) : Apart r w w :=
  ⟨fun _ => rfl, rfl, rfl, rfl, rfl⟩

theorem Apart.trans {w w' w'' : World} (h : Apart r w w') (h' : Apart r w' w'') : Apart r w w'' :=
  ⟨fun id => (h'.rows id).trans (h.rows id), h'.tombstones.trans h.tombstones,
    h'.confirmations.trans h.confirmations, h'.scratch.trans h.scratch, h'.round.trans h.round⟩

theorem Apart.isLive {w w' : World} (h : Apart r w w') (id : String) :
    w'.db.isLive r id = w.db.isLive r id := by
  rw [Db.isLive, Db.isLive, h.rows]

/-- A property of what an audit is about. -/
def Stable (r : Res) (I : World → Prop) : Prop :=
  ∀ w w', Apart r w w' → I w → I w'

/-- The program returns, and leaves alone what an audit is about. -/
def Aside {α : Type} (r : Res) (m : Proc α) : Prop :=
  ∀ w₀, Spec (Apart r w₀) m (fun _ => Apart r w₀) fun _ _ => False

variable {α β : Type} {I : World → Prop} {Q : β → World → Prop} {E : Halt → World → Prop}

theorem Aside.keeps {m : Proc α} (h : Aside r m) (hI : Stable r I) :
    Spec I m (fun _ => I) fun _ _ => False := by
  intro w hw
  have hm := h w w (Apart.refl w)
  cases hr : m.run w with
  | ok a w' =>
      simp only [hr] at hm ⊢
      exact hI w w' hm hw
  | error e w' => simp only [hr] at hm

theorem aside_pure (a : α) : Aside r (pure a : Proc α) :=
  fun _ => Spec.pure fun _ h => h

theorem Aside.bind {m : Proc α} {f : α → Proc β} (hm : Aside r m) (hf : ∀ a, Aside r (f a)) :
    Aside r (m >>= f) :=
  fun w => Spec.bind (hm w) fun a => hf a w

theorem aside_modify {f : World → World} (h : ∀ w, Apart r w (f w)) :
    Aside r (modify f : Proc PUnit) :=
  fun _ => Spec.modify fun w hw => hw.trans (h w)

theorem Aside.forEach {action : β → Proc Unit} (xs : List β) (h : ∀ x ∈ xs, Aside r (action x)) :
    Aside r (forEach action xs) :=
  fun w => Spec.forEach xs fun x hx => h x hx w

theorem spec_aside_bind {m : Proc α} {f : α → Proc β} (hm : Aside r m) (hI : Stable r I)
    (hf : ∀ a, Spec I (f a) Q E) : Spec I (m >>= f) Q E :=
  Spec.bind ((hm.keeps hI).mono_halt fun _ _ h => h.elim) hf

/-- A request that is answered leaves the audited table alone. -/
theorem spec_answer_bind {env : Env} {request : Request} {f : Response → Proc β}
    (hI : Stable r I) (h : ∀ tick, ∃ resp, env.respond tick request = .ok resp ∧
      Spec I (f resp) Q E) : Spec I (clientGet env request >>= f) Q E := by
  intro w hw
  obtain ⟨resp, hresp, hrest⟩ := h w.tick
  rw [clientGet_bind_run hresp]
  exact hrest _ (hI w _ ⟨fun _ => rfl, rfl, rfl, rfl, rfl⟩ hw)

/-- A sideload that neither holds records of the audited kind nor of an owner of it. -/
theorem aside_sideload {env : Env} {status : ℕ} {included : List Json} {source : Source}
    (h : ∀ doc ∈ included, ∃ target, routeTarget doc none [] = .ok target ∧
      ∀ e ∈ target, r ≠ e.1 ∧ ownedFk e.1 r = none) :
    Aside r (routePage env status (.obj [("data", .arr []), ("included", .arr included)]) source) := by
  have hdata : pageData (.obj [("data", .arr []), ("included", .arr included)]) = .ok [] := rfl
  have hincluded : pageIncluded (.obj [("data", .arr []), ("included", .arr included)]) =
      .ok included := rfl
  simp only [routePage, hdata, hincluded, ofPy, pure_bind, List.map_nil, List.nil_append]
  refine Aside.bind (aside_modify fun _ => Apart.refl _) fun _ => Aside.bind ?_ fun _ =>
    Aside.bind (aside_pure _) fun _ => aside_pure _
  refine Aside.forEach included fun doc hdoc w₀ w hw => ?_
  obtain ⟨target, htarget, hapart⟩ := h doc hdoc
  rw [routeOne_run htarget]
  refine hw.trans ⟨fun id => ?_, rfl, rfl, rfl, rfl⟩
  simp only [World.routedOne, routed, htarget]
  cases target with
  | none => rfl
  | some e => exact row?_write_apart (hapart e rfl).1 (hapart e rfl).2 _ _ _ _ _

end PcoMirror
