import PcoMirror.Model.Ingest.Hydration
import PcoMirror.Verification.Writer.Operations

/-! Programs that return or raise, and are never stopped short. -/

namespace PcoMirror

open Program

/-- However it is run, the program comes to an end of its own. -/
def Finishes {α : Type} (m : Proc α) : Prop :=
  ∀ w w', m.run w ≠ .error .stopped w'

variable {α β : Type}

theorem finishes_pure (a : α) : Finishes (pure a : Proc α) := nofun

theorem finishes_raise (e : PyError) : Finishes (raise e : Proc α) := nofun

theorem finishes_get : Finishes (get : Proc World) := nofun

theorem finishes_modify (f : World → World) : Finishes (modify f : Proc PUnit) := nofun

theorem finishes_ofPy (e : Except PyError α) : Finishes (ofPy e) := by
  cases e with
  | ok a => exact finishes_pure a
  | error e => exact finishes_raise e

theorem Finishes.bind {m : Proc α} {f : α → Proc β} (hm : Finishes m) (hf : ∀ a, Finishes (f a)) :
    Finishes (m >>= f) := by
  intro w w'
  rw [EStateM.run_bind]
  cases hrun : m.run w with
  | ok a w₁ => exact hf a w₁ w'
  | error e w₁ =>
      intro heq
      cases heq
      exact hm w w' hrun

theorem Finishes.ite {c : Prop} [Decidable c] {m m' : Proc α} (h : Finishes m) (h' : Finishes m') :
    Finishes (if c then m else m') := by
  split_ifs
  · exact h
  · exact h'

theorem Finishes.forEach {action : β → Proc Unit} (h : ∀ x, Finishes (action x)) (xs : List β) :
    Finishes (forEach action xs) := by
  induction xs with
  | nil => exact finishes_pure ()
  | cons x xs ih => exact (h x).bind fun _ => ih

theorem Finishes.whenSome {action : β → Proc Unit} (h : ∀ x, Finishes (action x)) (x : Option β) :
    Finishes (whenSome x action) := by
  cases x with
  | none => exact finishes_pure ()
  | some b => exact h b

theorem finishes_clientGet (env : Env) (request : Request) : Finishes (clientGet env request) := by
  intro w w'
  rw [clientGet_run]
  cases env.respond w.tick request <;> nofun

theorem finishes_logEntry (entry : Entry) : Finishes (logEntry entry) := nofun

/-! ## The writer's calls -/

theorem finishes_routeOne (env : Env) (source : Source) (ownerHint : Option Json)
    (synthesized : List String) (resource : Json) :
    Finishes (routeOne env source ownerHint synthesized resource) := by
  intro w w'
  cases htarget : routeTarget resource ownerHint synthesized with
  | ok target => rw [routeOne_run htarget]; nofun
  | error e => rw [routeOne_raises htarget]; nofun

theorem finishes_tombstoneOne (env : Env) (t : Res) (id : String) (evidence : Option Json)
    (reason : Reason) (mergedInto : Option String) :
    Finishes (tombstoneOne env t id evidence reason mergedInto) := nofun

theorem finishes_confirmLiveOne (env : Env) (t : Res) (id : String) (raw : Json) (source : Source) :
    Finishes (confirmLiveOne env t id raw source) := nofun

theorem finishes_enqueueHydrationWith (env : Env) (r : Res) (id reason : String)
    (includes : List String) (delayS : ℕ) :
    Finishes (enqueueHydrationWith env r id reason includes delayS) := nofun

theorem finishes_routePage (env : Env) (status : ℕ) (body : Json) (source : Source)
    (synthesized : List String) (dataOwnerHint : Option Json) :
    Finishes (routePage env status body source synthesized dataOwnerHint) :=
  (finishes_ofPy _).bind fun items => (finishes_modify _).bind fun _ => (finishes_ofPy _).bind fun included =>
    (Finishes.forEach (finishes_routeOne env source none synthesized) included).bind fun _ =>
      (Finishes.forEach (finishes_routeOne env source dataOwnerHint synthesized) items).bind fun _ =>
        finishes_pure _

theorem finishes_includeDiff (env : Env) (included : List Json) (requested : List String)
    (person : Json) : Finishes (includeDiff env included requested person) := by
  refine (finishes_ofPy _).bind fun pid => (finishes_ofPy _).bind fun present =>
    (finishes_ofPy _).bind fun claimed => Finishes.forEach (fun child => ?_) _
  exact finishes_get.bind fun _ => Finishes.forEach (fun id => finishes_tombstoneOne env child id none _ _) _

/-! ## Hydration -/

theorem finishes_storeHydrated (env : Env) (r : Res) (id : String) (status : ℕ) (record : Json) :
    Finishes (storeHydrated env r id status record) :=
  ((finishes_logEntry _).bind fun _ => finishes_routeOne env _ _ _ _).ite
    (finishes_confirmLiveOne env r id record _)

theorem finishes_hydrate (env : Env) (r : Res) (id : String) (includes : List String) :
    Finishes (hydrate env r id includes) := by
  refine (finishes_clientGet env _).bind fun resp => Finishes.ite (finishes_tombstoneOne env r id none _ _) ?_
  refine Finishes.ite ?_ (finishes_pure ())
  refine (finishes_ofPy _).bind fun record => Finishes.whenSome (fun record => ?_) _
  refine (finishes_storeHydrated env r id _ record).bind fun _ => (finishes_ofPy _).bind fun included => ?_
  refine (Finishes.forEach (finishes_routeOne env .reconcile _ []) included).bind fun _ => ?_
  exact (finishes_includeDiff env included includes record).ite (finishes_pure ())

end PcoMirror
