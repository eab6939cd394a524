import PcoMirror.Model.Ingest.Walk
import PcoMirror.Verification.Writer.Frame

/-! A walk writes the tables, and then the one record of it. -/

namespace PcoMirror

open Program

variable {env : Env} {r parent : Res} {parentId : String}

theorem Writes.parentWalked {w w' : World} (h : Writes w w') : w'.parentWalked = w.parentWalked := by
  obtain ⟨db, tick, entries, rfl⟩ := h
  rfl

theorem Writing.whileTrue {ρ α : Type} {halt : Halt} {body : ρ → Proc (Pass ρ α)}
    (h : ∀ p, Writing (body p)) (fuel : ℕ) (p : ρ) : Writing (whileTrue halt body fuel p) :=
  fun w => Keeps.whileTrue (fun p => h p w) fuel p

theorem writing_tombstoneIfAbsent (env : Env) (r : Res) (id : String) :
    Writing (tombstoneIfAbsent env r id) := by
  refine (writing_clientGet env _).attempt.bind fun answer => ?_
  cases answer with
  | error e => exact writing_pure _
  | ok resp => exact .ite (fun _ => writing_tombstoneOne env r id _ _ _) fun _ => writing_pure _

theorem writing_walkPage (env : Env) (r parent : Res) (parentId : String) (source : Source)
    (p : WalkPass) : Writing (walkPage env r parent parentId source p) := by
  refine (writing_clientGet env _).bind fun resp => ?_
  have hrest : Writing (do
      let body ← ofPy resp.document
      let data ← ofPy (dataOf body)
      let _ ← routePage env resp.status body source
      let items ← ofPy (pyItems data)
      let ids ← ofPy (items.mapM itemId)
      if items.length < 100 then return .leave (some (p.seen ++ ids))
      return .again ⟨p.offset + 100, p.seen ++ ids⟩ :
        Proc (Pass WalkPass (Option (List Json)))) :=
    (writing_ofPy _).bind fun body => (writing_ofPy _).bind fun data =>
      (writing_routePage env resp.status body source [] none).bind fun _ =>
        (writing_ofPy _).bind fun items => (writing_ofPy _).bind fun ids =>
          .ite (fun _ => writing_pure _) fun _ => writing_pure _
  refine .ite (fun _ => (writing_tombstoneIfAbsent env parent parentId).bind fun _ =>
    writing_pure _) fun _ => ?_
  cases resp.ok with
  | true => exact hrest
  | false => exact fun _ => Keeps.throw _

theorem writing_walkOne (env : Env) (r parent : Res) (parentId : String) (source : Source)
    (fuel : ℕ) : Writing (walkOne env r parent parentId source fuel) := by
  refine (Writing.whileTrue (writing_walkPage env r parent parentId source) fuel _).bind
    fun seen => ?_
  cases seen with
  | none => exact writing_pure _
  | some seen =>
      exact writing_get.bind fun _ =>
        (Writing.forEach (fun id => writing_tombstoneOne env r id _ _ _) _).bind fun _ =>
          writing_pure _

/-- The mirror with one more walk on record. -/
def World.withWalk (w : World) (r : Res) (parentId : String) (walk : WalkState) : World :=
  { w with walks := fun u => if u = r then (w.walks u).insert parentId walk else w.walks u }

theorem parentWalked_withWalk (w : World) (r : Res) (parentId : String) (walk : WalkState)
    (c : Res) (id : String) : (w.withWalk r parentId walk).parentWalked c id =
      (decide (c = r ∧ id = parentId) || w.parentWalked c id) := by
  simp only [World.parentWalked, World.withWalk]
  by_cases hc : c = r
  · by_cases hid : id = parentId
    · rw [if_pos hc, hid, AList.lookup_insert]
      simp [hc]
    · rw [if_pos hc, AList.lookup_insert_ne hid]
      simp [hid]
  · simp [hc]

/-- A walk that returns is on record, and no walk goes off it. -/
theorem walkParent_recorded {I : World → Prop} (hI : ∀ w w', Writes w w' → I w → I w')
    (source : Source) (fuel : ℕ) :
    Spec I (walkParent env r parent parentId source fuel)
      (fun _ w => ∃ w' walk, I w' ∧ w = w'.withWalk r parentId walk) fun _ => I := by
  refine Spec.bind ((writing_walkOne env r parent parentId source fuel).keeps hI) fun n =>
    Spec.bind ((writing_nowIso env).keeps hI) fun now => ?_
  exact Spec.bind (R := fun _ w => ∃ w' walk, I w' ∧ w = w'.withWalk r parentId walk)
    (Spec.modify fun w hw => ⟨w, ⟨now, n⟩, hw, rfl⟩) fun _ => Spec.pure fun _ h => h

end PcoMirror
