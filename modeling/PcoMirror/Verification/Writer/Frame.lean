import PcoMirror.Model.Ingest.Sweep
import PcoMirror.Verification.Writer.Operations

/-! Programs that write the tables and the record, and nothing else of the state. -/

namespace PcoMirror

open Program

/-- Only the tables and the clock have changed, and the record has grown. -/
def Writes (w w' : World) : Prop :=
  ∃ db tick entries, w' = { w with db := db, tick := tick, log := entries ++ w.log }

theorem Writes.refl (w : World) : Writes w w :=
  ⟨w.db, w.tick, [], rfl⟩

theorem Writes.trans {w w' w'' : World} (h : Writes w w') (h' : Writes w' w'') : Writes w w'' := by
  obtain ⟨db, tick, entries, rfl⟩ := h
  obtain ⟨db', tick', entries', rfl⟩ := h'
  exact ⟨db', tick', entries' ++ entries, by simp⟩

theorem Writes.log {w w' : World} (h : Writes w w') : w.log <:+ w'.log := by
  obtain ⟨db, tick, entries, rfl⟩ := h
  exact List.suffix_append _ _

theorem Writes.hydration {w w' : World} (h : Writes w w') : w'.hydration = w.hydration := by
  obtain ⟨db, tick, entries, rfl⟩ := h
  rfl

/-- However the program ends, it has written nothing else. -/
def Writing {α : Type} (m : Proc α) : Prop :=
  ∀ w, Keeps (Writes w) m

variable {α β : Type}

theorem Writing.keeps {m : Proc α} (h : Writing m) {I : World → Prop}
    (hI : ∀ w w', Writes w w' → I w → I w') : Keeps I m := by
  intro w hw
  have hm := h w w (Writes.refl w)
  cases hr : m.run w <;> simp only [hr] at hm ⊢ <;> exact hI w _ hm hw

theorem writing_pure (a : α) : Writing (pure a : Proc α) :=
  fun _ => Keeps.pure a

theorem Writing.bind {m : Proc α} {f : α → Proc β} (hm : Writing m) (hf : ∀ a, Writing (f a)) :
    Writing (m >>= f) :=
  fun w => Keeps.bind (hm w) fun a => hf a w

theorem Writing.ite {c : Prop} [Decidable c] {m m' : Proc α} (h : c → Writing m)
    (h' : ¬ c → Writing m') : Writing (if c then m else m') :=
  fun w => Spec.ite (fun hc => h hc w) fun hc => h' hc w

theorem Writing.forEach {action : β → Proc Unit} (h : ∀ x, Writing (action x)) (xs : List β) :
    Writing (forEach action xs) :=
  fun w => Keeps.forEach xs fun x _ => h x w

theorem Writing.whenSome {action : β → Proc Unit} (h : ∀ x, Writing (action x)) (x : Option β) :
    Writing (whenSome x action) :=
  fun w => Keeps.whenSome x fun b _ => h b w

theorem writing_modify {f : World → World} (h : ∀ w, Writes w (f w)) :
    Writing (modify f : Proc PUnit) :=
  fun _ => Keeps.modify fun w hw => hw.trans (h w)

theorem writing_get : Writing (get : Proc World) :=
  fun _ => Keeps.get

theorem writing_ofPy (e : Except PyError α) : Writing (ofPy e) := by
  cases e with
  | ok a => exact writing_pure a
  | error e => exact fun _ => Keeps.throw _

theorem writing_nowIso (env : Env) : Writing (nowIso env) :=
  fun _ w hw => hw.trans ⟨w.db, w.tick + 1, [], rfl⟩

theorem writing_stampNow (env : Env) (source : Source) : Writing (stampNow env source) :=
  (writing_nowIso env).bind fun _ => writing_pure _

theorem writing_logEntry (entry : Entry) : Writing (logEntry entry) :=
  writing_modify fun w => ⟨w.db, w.tick, [entry], rfl⟩

theorem writing_clientGet (env : Env) (request : Request) : Writing (clientGet env request) := by
  intro w₀ w hw
  have hasked : Writes w (w.asked env request) :=
    ⟨w.db, w.tick + 1, [.exchange request (env.respond w.tick request)], rfl⟩
  rw [clientGet_run]
  cases env.respond w.tick request <;> exact hw.trans hasked

theorem Writing.attempt {m : Proc α} (h : Writing m) : Writing (attempt m) := by
  intro w₀ w hw
  have hm := h w₀ w hw
  rw [run_attempt]
  match hrun : m.run w with
  | .ok a w' => simpa only [hrun] using hm
  | .error (.raised e) w' => simpa only [hrun] using hm
  | .error .stopped w' => simpa only [hrun] using hm

theorem writing_onDb (m : DbM Unit) : Writing (onDb m) := by
  intro w₀ w hw
  have hget : (get : Proc World).run w = .ok w w := rfl
  rw [onDb, run_bind_of_ok hget]
  cases m.run w.db <;> exact hw.trans ⟨_, w.tick, [], rfl⟩

/-! ## The writer's calls -/

theorem writing_routeOne (env : Env) (source : Source) (ownerHint : Option Json)
    (synthesized : List String) (resource : Json) :
    Writing (routeOne env source ownerHint synthesized resource) :=
  (writing_stampNow env source).bind fun _ => writing_onDb _

theorem writing_tombstoneOne (env : Env) (t : Res) (id : String) (evidence : Option Json)
    (reason : Reason) (mergedInto : Option String) :
    Writing (tombstoneOne env t id evidence reason mergedInto) :=
  (writing_nowIso env).bind fun _ => (writing_logEntry _).bind fun _ =>
    writing_modify fun w => ⟨_, w.tick, [], rfl⟩

theorem writing_confirmLiveOne (env : Env) (t : Res) (id : String) (raw : Json) (source : Source) :
    Writing (confirmLiveOne env t id raw source) :=
  (writing_stampNow env source).bind fun _ => (writing_logEntry _).bind fun _ =>
    writing_modify fun w => ⟨_, w.tick, [], rfl⟩

theorem writing_routePage (env : Env) (status : ℕ) (body : Json) (source : Source)
    (synthesized : List String) (dataOwnerHint : Option Json) :
    Writing (routePage env status body source synthesized dataOwnerHint) := by
  refine (writing_ofPy _).bind fun items => ?_
  refine (writing_modify fun w => ⟨w.db, w.tick, items.map (.handed status), rfl⟩).bind fun _ => ?_
  exact (writing_ofPy _).bind fun included =>
    (Writing.forEach (writing_routeOne env source none synthesized) included).bind fun _ =>
      (Writing.forEach (writing_routeOne env source dataOwnerHint synthesized) items).bind fun _ =>
        writing_pure _

theorem writing_includeDiff (env : Env) (included : List Json) (requested : List String)
    (person : Json) : Writing (includeDiff env included requested person) := by
  refine (writing_ofPy _).bind fun pid => (writing_ofPy _).bind fun present =>
    (writing_ofPy _).bind fun claimed => Writing.forEach (fun child => ?_) _
  exact writing_get.bind fun _ =>
    Writing.forEach (fun id => writing_tombstoneOne env child id none _ _) _

end PcoMirror
