import PcoMirror.Verification.Ingest.Listing
import PcoMirror.Verification.Writer.Frame

/-! What a run has handed to the router, and the programs that leave the sync state
alone while they add to it. -/

namespace PcoMirror

open Program

/-! ## Deliveries -/

/-- A `2xx` answer has brought this document to the router. -/
def World.delivered (w : World) (doc : Json) : Prop :=
  ∃ status, 200 ≤ status ∧ status < 300 ∧ Entry.handed status doc ∈ w.log

/-- The sync state is the same and nothing of the record is lost. -/
structure Follows (w w' : World) : Prop where
  sync : w'.sync = w.sync
  log : w.log <:+ w'.log

theorem Follows.refl (w : World) : Follows w w :=
  ⟨rfl, List.suffix_rfl⟩

theorem Follows.trans {w w' w'' : World} (h : Follows w w') (h' : Follows w' w'') :
    Follows w w'' :=
  ⟨h'.sync.trans h.sync, h.log.trans h'.log⟩

theorem Follows.delivered {w w' : World} (h : Follows w w') {doc : Json} (hdoc : w.delivered doc) :
    w'.delivered doc := by
  obtain ⟨status, hlow, hhigh, hentry⟩ := hdoc
  exact ⟨status, hlow, hhigh, h.log.mem hentry⟩

/-- A request that was not answered with `2xx`. -/
def Entry.failed : Entry → Bool
  | .exchange _ (.ok resp) => !resp.ok
  | .exchange _ (.error _) => true
  | _ => false

/-- How many requests have failed. -/
def World.failures (w : World) : ℕ :=
  w.log.countP Entry.failed

theorem Follows.failures {w w' : World} (h : Follows w w') : w.failures ≤ w'.failures :=
  h.log.sublist.countP_le

/-- A property of the sync state that deliveries do not spoil. -/
def Persists (I : World → Prop) : Prop :=
  ∀ w w', Follows w w' → I w → I w'

/-- A program that leaves the sync state alone. -/
def Quiet {α : Type} (m : Proc α) : Prop :=
  ∀ w, Keeps (Follows w) m

variable {I : World → Prop} {α β : Type}

theorem Quiet.keeps {m : Proc α} (h : Quiet m) (hI : Persists I) : Keeps I m := by
  intro w hw
  have hm := h w w (Follows.refl w)
  cases hr : m.run w <;> simp only [hr] at hm ⊢ <;> exact hI w _ hm hw

theorem quiet_pure (a : α) : Quiet (pure a : Proc α) :=
  fun _ => Keeps.pure a

theorem Quiet.bind {m : Proc α} {f : α → Proc β} (hm : Quiet m) (hf : ∀ a, Quiet (f a)) :
    Quiet (m >>= f) :=
  fun w => Keeps.bind (hm w) fun a => hf a w

theorem Quiet.ite {c : Prop} [Decidable c] {m m' : Proc α} (h : Quiet m) (h' : Quiet m') :
    Quiet (if c then m else m') :=
  fun w => Spec.ite (fun _ => h w) fun _ => h' w

theorem Quiet.forEach {action : β → Proc Unit} (h : ∀ x, Quiet (action x)) (xs : List β) :
    Quiet (forEach action xs) :=
  fun w => Keeps.forEach xs fun x _ => h x w

theorem quiet_modify {f : World → World} (h : ∀ w, Follows w (f w)) :
    Quiet (modify f : Proc PUnit) :=
  fun _ => Keeps.modify fun w hw => hw.trans (h w)

theorem quiet_get : Quiet (get : Proc World) :=
  fun _ => Keeps.get

theorem quiet_ofPy (e : Except PyError α) : Quiet (ofPy e) := by
  cases e with
  | ok a => exact quiet_pure a
  | error e => exact fun _ => Keeps.throw _

/-- What writes nothing but the tables leaves the sync state alone. -/
theorem Writing.quiet {m : Proc α} (h : Writing m) : Quiet m := by
  intro w₀
  refine h.keeps ?_
  rintro w w' ⟨db, tick, entries, rfl⟩ hw
  exact hw.trans ⟨rfl, List.suffix_append _ _⟩

theorem quiet_routeOne (env : Env) (source : Source) (ownerHint : Option Json)
    (synthesized : List String) (resource : Json) :
    Quiet (routeOne env source ownerHint synthesized resource) :=
  (writing_routeOne env source ownerHint synthesized resource).quiet

theorem quiet_noteParent (body : Json) : Quiet (noteParent body) := by
  refine (quiet_ofPy _).bind fun id => ?_
  cases id with
  | none => exact quiet_pure _
  | some id => exact quiet_modify fun _ => ⟨rfl, List.suffix_rfl⟩

theorem quiet_includeDiff (env : Env) (included : List Json) (requested : List String)
    (person : Json) : Quiet (includeDiff env included requested person) :=
  (writing_includeDiff env included requested person).quiet

theorem quiet_diffPeople (env : Env) (r : Res) (body : Json) (items : List Json) :
    Quiet (diffPeople env r body items) :=
  Quiet.ite ((quiet_ofPy _).bind fun included =>
    Quiet.forEach (quiet_includeDiff env included r.info.includes) items) (quiet_pure _)

theorem quiet_maxUat (r : Res) : Quiet (maxUat r) :=
  quiet_get.bind fun _ => quiet_pure _

/-- A routed page has been handed over, also where the router halts in it. -/
theorem spec_routePage_hands (hI : Persists I) {env : Env} {status : ℕ} {body : Json}
    {source : Source} {items : List Json} (hdata : pageData body = .ok items) :
    Spec I (routePage env status body source)
      (fun _ w => I w ∧ ∀ item ∈ items, .handed status item ∈ w.log) fun _ => I := by
  have hhands : Persists fun w => I w ∧ ∀ item ∈ items, .handed status item ∈ w.log :=
    fun w w' hfollows h => ⟨hI w w' hfollows h.1, fun item hitem => hfollows.log.mem (h.2 item hitem)⟩
  have hrest : Quiet (do
      forEach (routeOne env source none []) (← ofPy (pageIncluded body))
      forEach (routeOne env source none []) items
      return items.length : Proc ℕ) :=
    (quiet_ofPy _).bind fun included =>
      (Quiet.forEach (quiet_routeOne env source none []) included).bind fun _ =>
        (Quiet.forEach (quiet_routeOne env source none []) items).bind fun _ => quiet_pure _
  have hhand : Spec I (modify fun w : World =>
      { w with log := items.map (.handed status) ++ w.log })
      (fun _ : PUnit => fun w => I w ∧ ∀ item ∈ items, .handed status item ∈ w.log)
      fun _ : Halt => I := by
    exact Spec.modify fun w hw => ⟨hI w _ ⟨rfl, List.suffix_append _ _⟩ hw, fun item hitem =>
      List.mem_append_left _ (List.mem_map_of_mem hitem)⟩
  simp only [routePage, hdata, ofPy, pure_bind]
  refine Spec.bind hhand fun _ => ?_
  exact (hrest.keeps hhands).conseq (fun _ hw => hw) (fun _ _ hw => hw) fun _ _ hw => hw.1

/-! ## Steps of a program -/

variable {P : World → Prop} {Q : β → World → Prop} {E : Halt → World → Prop}

theorem spec_quiet_bind {m : Proc α} {f : α → Proc β} (hm : Quiet m) (hP : Persists P)
    (hE : ∀ e w, P w → E e w) (hf : ∀ a, Spec P (f a) Q E) : Spec P (m >>= f) Q E :=
  Spec.bind ((hm.keeps hP).conseq (fun _ hw => hw) (fun _ _ hw => hw) hE) hf

theorem spec_clientGet_bind {env : Env} {request : Request} {f : Response → Proc β}
    (hP : Persists P) (hE : ∀ e w, P w → E e w)
    (hf : ∀ tick resp, env.respond tick request = .ok resp → Spec P (f resp) Q E) :
    Spec P (clientGet env request >>= f) Q E := by
  intro w hw
  have hasked : Follows w (w.asked env request) :=
    ⟨rfl, List.suffix_cons _ _⟩
  rw [EStateM.run_bind, clientGet_run]
  cases hresp : env.respond w.tick request with
  | ok resp => exact hf w.tick resp hresp _ (hP w _ hasked hw)
  | error e => exact hE _ _ (hP w _ hasked hw)

/-- A request whose failure counts. -/
theorem spec_ask_bind {env : Env} {request : Request} {f : Response → Proc β} {n : ℕ}
    (hP : Persists P) (hbegun : ∀ w, P w → n ≤ w.failures) (hE : ∀ e w, P w → E e w)
    (hf : ∀ tick resp, env.respond tick request = .ok resp →
      Spec (fun w => P w ∧ (resp.ok = false → n < w.failures)) (f resp) Q E) :
    Spec P (clientGet env request >>= f) Q E := by
  intro w hw
  have hasked : Follows w (w.asked env request) := ⟨rfl, List.suffix_cons _ _⟩
  rw [EStateM.run_bind, clientGet_run]
  cases hresp : env.respond w.tick request with
  | ok resp =>
      refine hf w.tick resp hresp _ ⟨hP w _ hasked hw, fun hfailed => ?_⟩
      have hcount : (w.asked env request).failures = w.failures + 1 := by
        simp [World.failures, World.asked, hresp, Entry.failed, hfailed]
      have hbefore := hbegun w hw
      omega
  | error e => exact hE _ _ (hP w _ hasked hw)

end PcoMirror
