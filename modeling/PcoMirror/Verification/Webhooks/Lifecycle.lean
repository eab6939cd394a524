import PcoMirror.Verification.Webhooks.Events
import PcoMirror.Verification.Webhooks.Reception
import PcoMirror.Verification.Writer.Finishes
import PcoMirror.Verification.Writer.Frame

/-! The life of a captured event: pending, tried up to eight times, then done, ignored or dead. -/

namespace PcoMirror

open Program

variable {env : Env} {w w' w₁ : World} {id : String} {ev : WebhookEvent}

/-! ## Steps that leave the inbox alone -/

/-- The rows of the inbox and of the dead letters. -/
def World.letters (w : World) :
    Sql.Table WebhookEvent × List WebhookEvent × Sql.Table WebhookEvent × List WebhookEvent :=
  (w.inbox, w.nameless, w.deadLetters, w.namelessDead)

/-- However the program ends, the inbox is as it was. -/
def Spares {α : Type} (m : Proc α) : Prop :=
  ∀ l, Keeps (fun w => w.letters = l) m

variable {α β : Type}

theorem spares_pure (a : α) : Spares (pure a : Proc α) :=
  fun _ => Keeps.pure a

theorem spares_get : Spares (get : Proc World) :=
  fun _ => Keeps.get

theorem spares_ofPy (e : Except PyError α) : Spares (ofPy e) :=
  fun _ => keeps_ofPy e

theorem spares_modify {f : World → World} (h : ∀ w, (f w).letters = w.letters) :
    Spares (modify f : Proc PUnit) :=
  fun _ => Keeps.modify fun w hw => (h w).trans hw

theorem Spares.bind {m : Proc α} {f : α → Proc β} (hm : Spares m) (hf : ∀ a, Spares (f a)) :
    Spares (m >>= f) :=
  fun l => Keeps.bind (hm l) fun a => hf a l

theorem Spares.ite {c : Prop} [Decidable c] {m m' : Proc α} (h : Spares m) (h' : Spares m') :
    Spares (if c then m else m') :=
  fun l => Spec.ite (fun _ => h l) fun _ => h' l

theorem Spares.whenSome {action : β → Proc Unit} (h : ∀ x, Spares (action x)) (x : Option β) :
    Spares (whenSome x action) :=
  fun l => Keeps.whenSome x fun b _ => h b l

theorem Writing.spares {m : Proc α} (h : Writing m) : Spares m := by
  intro l
  refine h.keeps ?_
  rintro w w' ⟨db, tick, entries, rfl⟩ hw
  exact hw

theorem spares_enqueueHydration (env : Env) (r : Res) (id reason : String) :
    Spares (enqueueHydration env r id reason) :=
  (writing_nowIso env).spares.bind fun _ => spares_modify fun _ => rfl

theorem spares_handleMerge (env : Env) (payload : Json) : Spares (handleMerge env payload) := by
  refine (spares_ofPy _).bind fun a => (spares_ofPy _).bind fun keep =>
    (spares_ofPy _).bind fun gone => (spares_ofPy _).bind fun id => spares_get.bind fun _ => Spares.ite (spares_pure _) ?_
  refine (Spares.whenSome (fun gone => ?_) _).bind fun _ => ?_
  · exact (writing_tombstoneOne env _ _ _ _ _).spares
  refine (Spares.whenSome (fun keep => spares_enqueueHydration env _ _ _) _).bind fun _ => ?_
  refine (writing_stampNow env _).spares.bind fun stamp => spares_modify fun w => ?_
  split_ifs <;> rfl

theorem spares_applyEvent (env : Env) (r : Option Res) (ev : WebhookEvent) (payload : Json) :
    Spares (applyEvent env r ev payload) := by
  refine Spares.ite (spares_handleMerge env payload) ?_
  cases r with
  | none => exact spares_pure _
  | some r =>
      refine Spares.ite ?_ ?_
      · exact (spares_ofPy _).bind fun _ => (spares_ofPy _).bind fun uat =>
          (spares_ofPy _).bind fun id =>
          (writing_tombstoneOne env r id uat .destroyed none).spares
      · have hforget : Spares (if ev.action = "refreshed" then do
            let id ← ofPy (idOf payload)
            forgetChildWalks r id
          else pure ()) :=
          Spares.ite ((spares_ofPy _).bind fun id => spares_modify fun _ => rfl) (spares_pure _)
        refine (writing_routeOne env .webhook none [] payload).spares.bind fun _ =>
          Spares.ite ((spares_ofPy _).bind fun id => Spares.bind ?_ fun _ => hforget) hforget
        exact spares_get.bind fun _ => Spares.ite ((writing_nowIso env).spares.bind fun _ =>
          spares_modify fun _ => rfl) (spares_enqueueHydration env r id _)

/-! ## Applying an event comes to an end -/

theorem finishes_enqueueHydration (env : Env) (r : Res) (id reason : String) :
    Finishes (enqueueHydration env r id reason) :=
  Finishes.bind (m := nowIso env) nofun fun _ => finishes_modify _

theorem finishes_handleMerge (env : Env) (payload : Json) : Finishes (handleMerge env payload) := by
  refine (finishes_ofPy _).bind fun a => (finishes_ofPy _).bind fun keep =>
    (finishes_ofPy _).bind fun gone => (finishes_ofPy _).bind fun id => finishes_get.bind fun _ =>
    (finishes_pure _).ite ?_
  refine (Finishes.whenSome (fun gone => finishes_tombstoneOne env _ _ _ _ _) _).bind fun _ => ?_
  refine (Finishes.whenSome (fun keep => finishes_enqueueHydration env _ _ _) _).bind fun _ => ?_
  exact Finishes.bind (m := stampNow env .webhook) nofun fun stamp => finishes_modify _

theorem finishes_applyEvent (env : Env) (r : Option Res) (ev : WebhookEvent) (payload : Json) :
    Finishes (applyEvent env r ev payload) := by
  refine (finishes_handleMerge env payload).ite ?_
  cases r with
  | none => exact finishes_pure _
  | some r =>
      refine Finishes.ite ?_ ?_
      · exact (finishes_ofPy _).bind fun _ => (finishes_ofPy _).bind fun uat =>
          (finishes_ofPy _).bind fun id => finishes_tombstoneOne env r id uat .destroyed none
      · have hforget : Finishes (if ev.action = "refreshed" then do
            let id ← ofPy (idOf payload)
            forgetChildWalks r id
          else pure ()) :=
          ((finishes_ofPy _).bind fun id => finishes_modify _).ite (finishes_pure _)
        refine (finishes_routeOne env .webhook none [] payload).bind fun _ =>
          ((finishes_ofPy _).bind fun id => Finishes.bind ?_ fun _ => hforget).ite hforget
        exact finishes_get.bind fun _ => Finishes.ite nofun (finishes_enqueueHydration env r id _)

/-! ## What a row may say -/

/-- A captured event can be read again, and is done with after eight failures. -/
structure WebhookEvent.Sound (ev : WebhookEvent) : Prop where
  readable : ev.payload = .empty ∨ ∃ members, ev.payload = .json (.obj members)
  tried : ev.status = "pending" → ev.processAttempts ≤ 7

/-- What a drain makes of an event it selects. -/
def WebhookEvent.Ends (ev ev' : WebhookEvent) : Prop :=
  ev'.status = "done" ∨ ev'.status = "ignored" ∨ ev'.status = "dead" ∨
    ev'.status = "pending" ∧ ev'.processAttempts = ev.processAttempts + 1

/-- An event is dead where the dead letters hold its id. -/
structure World.Sound (w : World) : Prop where
  events : ∀ id ev, w.inbox.lookup id = some ev → ev.Sound
  dead_iff : ∀ id, (∃ ev, w.inbox.lookup id = some ev ∧ ev.status = "dead") ↔
    (w.deadLetters.lookup id).isSome = true

/-- No row of the inbox or of the dead letters is without an id. -/
def World.Named (w : World) : Prop :=
  w.nameless = [] ∧ w.namelessDead = []

theorem World.Sound.of_letters (h : w.Sound) (hletters : w'.letters = w.letters) : w'.Sound := by
  obtain ⟨hinbox, -, hdead, -⟩ : w'.inbox = w.inbox ∧ w'.nameless = w.nameless ∧
      w'.deadLetters = w.deadLetters ∧ w'.namelessDead = w.namelessDead := by
    simpa [World.letters] using hletters
  exact ⟨hinbox ▸ h.events, by rw [hinbox, hdead]; exact h.dead_iff⟩

/-! ## One event -/

/-- What processing one event does to the inbox. -/
structure Processed (w : World) (id : String) (ev : WebhookEvent) (w' : World) : Prop where
  event : ∃ ev', w'.inbox.lookup id = some ev' ∧ ev.Ends ev' ∧ ev'.Sound ∧
    (ev'.status = "dead" ↔ (w'.deadLetters.lookup id).isSome = true)
  elsewhere : ∀ k ≠ id, w'.inbox.lookup k = w.inbox.lookup k ∧
    w'.deadLetters.lookup k = w.deadLetters.lookup k
  nameless : w'.nameless = w.nameless ∧ w'.namelessDead = w.namelessDead

theorem Processed.sound (h : Processed w id ev w') (hw : w.Sound) : w'.Sound := by
  obtain ⟨ev', hev', -, hsound, hdead⟩ := h.event
  constructor
  · intro k ev₁ hk
    by_cases heq : k = id
    · subst heq
      cases hev'.symm.trans hk
      exact hsound
    · exact hw.events k ev₁ ((h.elsewhere k heq).1 ▸ hk)
  · intro k
    by_cases heq : k = id
    · subst heq
      rw [← hdead, hev']
      exact ⟨fun ⟨_, h, hstatus⟩ => by cases h; exact hstatus, fun h => ⟨ev', rfl, h⟩⟩
    · rw [(h.elsewhere k heq).1, (h.elsewhere k heq).2]
      exact hw.dead_iff k

/-- A row is rewritten in place, and the dead letters stay as they are. -/
theorem processed_setEvent (w₁ : World) {f : WebhookEvent → WebhookEvent} (hletters : w₁.letters = w.letters)
    (hev : w.inbox.lookup id = some ev) (hheld : w.deadLetters.lookup id = none)
    (hends : ev.Ends (f ev)) (hsound : (f ev).Sound) (halive : (f ev).status ≠ "dead") :
    Processed w id ev { w₁ with
      inbox := w₁.inbox.update fun k ev => if some k = some id then f ev else ev } := by
  simp only [World.letters, Prod.mk.injEq] at hletters
  obtain ⟨hinbox, hnameless, hdead, hnamelessDead⟩ := hletters
  refine ⟨⟨f ev, ?_, hends, hsound, ?_⟩, fun k hk => ⟨?_, by rw [hdead]⟩, hnameless, hnamelessDead⟩
  · simp [hinbox, hev]
  · simp [hdead, hheld, halive]
  · simp [hinbox, hk]

theorem spec_deadEvent (hev : w.inbox.lookup id = some ev) (hsound : ev.Sound) (error : String) :
    Spec (fun w₁ => w₁.letters = w.letters) (deadEvent (some id) ev error)
      (fun _ => Processed w id ev) fun _ _ => False := by
  intro w₁ hletters
  simp only [World.letters, Prod.mk.injEq] at hletters
  obtain ⟨hinbox, hnameless, hdead, hnamelessDead⟩ := hletters
  refine ⟨⟨{ ev with status := "dead", lastError := some error }, ?_, .inr (.inr (.inl rfl)),
    ⟨hsound.readable, fun h => by simp at h⟩, ?_⟩, fun k hk => ⟨?_, ?_⟩, hnameless, hnamelessDead⟩
  · simp [hinbox, hev]
  · simp
  · simp [hinbox, hk]
  · simp [hdead, hk]

theorem spec_retryOrDead (hev : w.inbox.lookup id = some ev)
    (hheld : w.deadLetters.lookup id = none) (hsound : ev.Sound) (hpending : ev.status = "pending")
    (env : Env) (error : String) :
    Spec (fun w₁ => w₁.letters = w.letters) (retryOrDead env (some id) ev error)
      (fun _ => Processed w id ev) fun _ _ => False := by
  refine Spec.ite (fun _ => spec_deadEvent hev hsound error) fun hfew => ?_
  intro w₁ hletters
  refine processed_setEvent { w₁ with tick := w₁.tick + 1 } hletters hev hheld
    (.inr (.inr (.inr ⟨hpending, rfl⟩))) ⟨hsound.readable, fun _ => ?_⟩ ?_
  · exact Nat.lt_succ_iff.mp (Nat.lt_of_not_le hfew)
  · rw [hpending]
    decide

theorem succeeds_unwrap (members : List (String × Json)) : Succeeds (unwrap (.obj members)) := by
  have hget : pyGet (.obj members) "data" = .ok (members.lookup "data") := rfl
  rw [unwrap, hget, succeeds_bind]
  refine ⟨members.lookup "data", rfl, ?_⟩
  split <;> exact succeeds_pure _

/-- The payload of an event that is sound is a record, or none at all. -/
theorem processEvent_eq (hsound : ev.Sound) (env : Env) (eventId : Option String) :
    ∃ payload, processEvent env eventId ev =
      if (byEventResource ev.resourceType).isNone ∧ ev.resourceType ≠ "person_merger" then
        ignoreEvent env eventId ("no table for " ++ ev.resourceType)
      else
        catching (do
          applyEvent env (byEventResource ev.resourceType) ev payload
          let now ← nowIso env
          setEvent eventId fun ev => { ev with status := "done", processedAt := some now })
          fun e => retryOrDead env eventId ev e.text := by
  rcases hsound.readable with hempty | ⟨members, hjson⟩
  · obtain ⟨payload, hpayload⟩ := succeeds_unwrap []
    exact ⟨payload, by simp only [processEvent, hempty, hpayload, ofPy_ok_bind]⟩
  · obtain ⟨payload, hpayload⟩ := succeeds_unwrap members
    exact ⟨payload, by simp only [processEvent, hjson, hpayload, ofPy_ok_bind]⟩

/-- An event that is selected is processed, whatever its payload leads to. -/
theorem spec_processEvent (hev : w.inbox.lookup id = some ev)
    (hheld : w.deadLetters.lookup id = none) (hsound : ev.Sound) (hpending : ev.status = "pending")
    (env : Env) :
    Spec (fun w' => w' = w) (processEvent env (some id) ev) (fun _ => Processed w id ev)
      fun _ _ => False := by
  have hnow : ∀ f : String → WebhookEvent → WebhookEvent, (∀ now, ev.Ends (f now ev)) →
      (∀ now, (f now ev).Sound) → (∀ now, (f now ev).status ≠ "dead") →
      Spec (fun w₁ => w₁.letters = w.letters)
        (do let now ← nowIso env; setEvent (some id) (f now))
        (fun _ => Processed w id ev) fun _ _ => False := by
    intro f hends hsound halive w₁ hletters
    exact processed_setEvent { w₁ with tick := w₁.tick + 1 } hletters hev hheld
      (hends _) (hsound _) (halive _)
  obtain ⟨payload, hprocess⟩ := processEvent_eq hsound env (some id)
  rw [hprocess]
  refine Spec.ite (fun _ => ?_) fun _ => ?_
  · rintro w' rfl
    exact hnow (fun now ev => { ev with
      status := "ignored", processedAt := some now, lastError := some _ })
      (fun _ => .inr (.inl rfl)) (fun _ => ⟨hsound.readable, fun h => by simp at h⟩)
      (fun _ => by simp) _ rfl
  · refine Spec.tryCatch (R := fun halt w₁ => w₁.letters = w.letters ∧ halt ≠ .stopped) ?_
      fun halt => ?_
    · refine Spec.bind (R := fun _ w₁ => w₁.letters = w.letters) ?_ fun _ => ?_
      · rintro w' rfl
        have hspares := spares_applyEvent env (byEventResource ev.resourceType) ev payload
          w'.letters w' rfl
        cases hrun : (applyEvent env (byEventResource ev.resourceType) ev payload).run w' with
        | ok _ w₁ =>
            rw [hrun] at hspares
            exact hspares
        | error halt w₁ =>
            rw [hrun] at hspares
            refine ⟨hspares, ?_⟩
            rintro rfl
            exact finishes_applyEvent env _ ev payload _ _ hrun
      · refine (hnow (fun now ev => { ev with status := "done", processedAt := some now })
          (fun _ => .inl rfl) (fun _ => ⟨hsound.readable, fun h => by simp at h⟩)
          fun _ => by simp).mono_halt ?_
        exact fun _ _ h => h.elim
    · cases halt with
      | raised e =>
          exact (spec_retryOrDead hev hheld hsound hpending env e.text).conseq (fun _ h => h.1)
            (fun _ _ h => h) fun _ _ h => h
      | stopped => exact Spec.throw fun _ h => h.2 rfl

/-! ## A drain -/

/-- A row a drain may select: an event that is in the inbox, and pending. -/
def World.Selects (w : World) (row : Option String × WebhookEvent) : Prop :=
  ∃ id, row.1 = some id ∧ w.inbox.lookup id = some row.2 ∧ row.2.status = "pending"

/-- The event of a row has come to an end of the drain. -/
def World.Ended (w : World) (row : Option String × WebhookEvent) : Prop :=
  ∃ id ev', row.1 = some id ∧ w.inbox.lookup id = some ev' ∧ row.2.Ends ev'

/-- Rows of different events are processed one after the other. -/
theorem run_processRows (env : Env) {rows : List (Option String × WebhookEvent)}
    (hkeys : (rows.map (·.1)).Nodup) (hrows : ∀ row ∈ rows, w.Selects row) (hsound : w.Sound) :
    ∃ w', (forEach (fun row => processEvent env row.1 row.2) rows).run w = .ok () w' ∧ w'.Sound ∧
      (w.Named → w'.Named) ∧ (∀ row ∈ rows, w'.Ended row) ∧
      ∀ k, some k ∉ rows.map (·.1) → w'.inbox.lookup k = w.inbox.lookup k := by
  induction rows generalizing w with
  | nil => exact ⟨w, rfl, hsound, id, nofun, fun _ _ => rfl⟩
  | cons row rows ih =>
      rw [List.map_cons, List.nodup_cons] at hkeys
      obtain ⟨⟨key, hkey, hev, hpending⟩, hrest⟩ := List.forall_mem_cons.mp hrows
      have hheld : w.deadLetters.lookup key = none := by
        rw [← Option.not_isSome_iff_eq_none, ← hsound.dead_iff key]
        rintro ⟨ev, hlookup, hdead⟩
        cases hev.symm.trans hlookup
        rw [hpending] at hdead
        exact absurd hdead (by decide)
      obtain ⟨_, w₁, hrun, hprocessed⟩ := (spec_processEvent hev hheld
        (hsound.events key _ hev) hpending env).returns rfl
      have hfresh : ∀ row' ∈ rows, ∀ k, row'.1 = some k → k ≠ key := by
        rintro row' hmem k hk rfl
        exact hkeys.1 (hkey ▸ hk ▸ List.mem_map_of_mem hmem)
      obtain ⟨w', hrun', hsound', hnamed, hended, helsewhere⟩ := ih (w := w₁) hkeys.2
        (fun row' hmem => by
          obtain ⟨k, hk, hlookup, hstatus⟩ := hrest row' hmem
          exact ⟨k, hk, (hprocessed.elsewhere k (hfresh row' hmem k hk)).1.trans hlookup, hstatus⟩)
        (hprocessed.sound hsound)
      have hkeyRest : some key ∉ rows.map (·.1) := hkey ▸ hkeys.1
      refine ⟨w', run_forEach_cons_eq_ok.mpr ⟨w₁, by rw [hkey]; exact hrun, hrun'⟩, hsound', ?_, ?_,
        ?_⟩
      · exact fun h => hnamed ⟨hprocessed.nameless.1.trans h.1, hprocessed.nameless.2.trans h.2⟩
      · refine List.forall_mem_cons.mpr ⟨?_, hended⟩
        obtain ⟨ev', hev', hends, -⟩ := hprocessed.event
        exact ⟨key, ev', hkey, (helsewhere key hkeyRest).trans hev', hends⟩
      · intro k hk
        rw [List.map_cons, List.mem_cons, not_or, hkey, Option.some_inj] at hk
        exact (helsewhere k hk.2).trans (hprocessed.elsewhere k hk.1).1

/-- What a drain selects are pending events, each once. -/
theorem selected_selects (hnamed : w.Named) (now : String) (limit : ℕ) :
    ((w.selected now limit).map (·.1)).Nodup ∧ ∀ row ∈ w.selected now limit, w.Selects row := by
  have hevents : w.events = w.inbox.entries.map fun e => (some e.1, e.2) := by
    rw [World.events, hnamed.1, List.map_nil, List.append_nil]
  have hsub : ∀ row ∈ w.selected now limit, row ∈ w.events ∧ row.2.due now = true := by
    intro row hrow
    exact List.mem_filter.mp ((List.mem_insertionSort _).mp (List.mem_of_mem_take hrow))
  constructor
  · have hkeys : (w.events.map (·.1)).Nodup := by
      have hids : (w.inbox.entries.map Sigma.fst).Nodup := w.inbox.nodupKeys
      have hsome := hids.map (Option.some_injective _)
      rw [List.map_map] at hsome
      rw [hevents, List.map_map]
      exact hsome
    have hdue : ((w.events.filter fun row => row.2.due now).map (·.1)).Nodup :=
      hkeys.sublist (List.filter_sublist.map _)
    refine List.Nodup.sublist ((List.take_sublist _ _).map _) ?_
    exact (((List.perm_insertionSort _ _).map _).nodup_iff).mpr hdue
  · intro row hrow
    obtain ⟨hmem, hdue⟩ := hsub row hrow
    rw [hevents] at hmem
    obtain ⟨e, he, rfl⟩ := List.mem_map.mp hmem
    rw [WebhookEvent.due, Bool.and_eq_true, decide_eq_true_eq] at hdue
    exact ⟨e.1, rfl, AList.mem_lookup_iff.mpr he, hdue.1⟩

theorem run_drain (hsound : w.Sound) (hnamed : w.Named) (env : Env) (limit : ℕ) :
    ∃ n w', (drain env limit).run w = .ok n w' ∧ w'.Sound ∧ w'.Named ∧
      (∀ row ∈ w.selected (env.now w.tick) limit, w'.Ended row) ∧
      ∀ k, some k ∉ (w.selected (env.now w.tick) limit).map (·.1) →
        w'.inbox.lookup k = w.inbox.lookup k := by
  obtain ⟨hkeys, hrows⟩ := selected_selects hnamed (env.now w.tick) limit
  obtain ⟨w', hrun, hsound', hnamed', hended, helsewhere⟩ := run_processRows
    (w := { w with tick := w.tick + 1 }) env hkeys hrows (hsound.of_letters rfl)
  refine ⟨(w.selected (env.now w.tick) limit).length, w', ?_, hsound', hnamed' hnamed, hended,
    helsewhere⟩
  have hnow : (nowIso env).run w = .ok (env.now w.tick) { w with tick := w.tick + 1 } := rfl
  have hget : (get : Proc World).run { w with tick := w.tick + 1 } =
      .ok { w with tick := w.tick + 1 } { w with tick := w.tick + 1 } := rfl
  rw [drain, run_bind_of_ok hnow, run_bind_of_ok hget]
  exact run_bind_eq_ok.mpr ⟨(), w', hrun, rfl⟩

/-! ## Retrying the dead -/

/-- An event that goes back to the inbox. -/
def WebhookEvent.revived (ev : WebhookEvent) : WebhookEvent :=
  { ev with
    status := "pending"
    processAttempts := 0
    nextAttemptAt := none
    lastError := none }

theorem run_retryAll (ids : List String) (w : World) :
    ∃ w', (forEach retryOne (ids.map some)).run w = .ok () w' ∧ w'.nameless = w.nameless ∧
      w'.namelessDead = w.namelessDead ∧
      (∀ k, w'.inbox.lookup k =
        if k ∈ ids then (w.inbox.lookup k).map WebhookEvent.revived else w.inbox.lookup k) ∧
      ∀ k, w'.deadLetters.lookup k = if k ∈ ids then none else w.deadLetters.lookup k := by
  induction ids generalizing w with
  | nil => exact ⟨w, rfl, rfl, rfl, fun _ => rfl, fun _ => rfl⟩
  | cons id ids ih =>
      have hone : (retryOne (some id)).run w = .ok () { w with
          inbox := w.inbox.update fun k ev => if some k = some id then ev.revived else ev
          deadLetters := w.deadLetters.erase id } := rfl
      obtain ⟨w', hrun, hnameless, hnamelessDead, hinbox, hdead⟩ := ih { w with
          inbox := w.inbox.update fun k ev => if some k = some id then ev.revived else ev
          deadLetters := w.deadLetters.erase id }
      refine ⟨w', run_forEach_cons_eq_ok.mpr ⟨_, hone, hrun⟩, hnameless, hnamelessDead,
        fun k => ?_, fun k => ?_⟩
      · rw [hinbox k, Sql.Table.lookup_update]
        by_cases hk : k = id
        · subst hk
          cases w.inbox.lookup k <;> simp [WebhookEvent.revived]
        · simp [hk]
      · rw [hdead k]
        by_cases hk : k = id
        · subst hk
          simp
        · simp [hk]

/-- The dead go back, and nobody else. -/
theorem run_retryDeadLetters (hsound : w.Sound) (hnamed : w.Named) :
    ∃ n w', retryDeadLetters.run w = .ok n w' ∧ w'.Sound ∧ w'.Named ∧
      ∀ k ev, w.inbox.lookup k = some ev →
        w'.inbox.lookup k = some (if ev.status = "dead" then ev.revived else ev) := by
  obtain ⟨w', hrun, hnameless, hnamelessDead, hinbox, hdead⟩ := run_retryAll w.deadLetters.keys w
  have hkey : ∀ k ev, w.inbox.lookup k = some ev →
      (k ∈ w.deadLetters.keys ↔ ev.status = "dead") := by
    intro k ev hev
    rw [← AList.mem_keys, ← AList.lookup_isSome, ← hsound.dead_iff k, hev]
    exact ⟨fun ⟨_, h, hstatus⟩ => by cases h; exact hstatus, fun h => ⟨ev, rfl, h⟩⟩
  have hevent : ∀ k ev, w.inbox.lookup k = some ev →
      w'.inbox.lookup k = some (if ev.status = "dead" then ev.revived else ev) := by
    intro k ev hev
    rw [hinbox k, hev]
    simp only [hkey k ev hev]
    split_ifs <;> rfl
  have hback : ∀ k ev', w'.inbox.lookup k = some ev' → ∃ ev, w.inbox.lookup k = some ev := by
    intro k ev' hev'
    cases hev : w.inbox.lookup k with
    | some ev => exact ⟨ev, rfl⟩
    | none =>
        rw [hinbox k, hev] at hev'
        simp at hev'
  have hrows : w.deadLetters.keys.map some ++ w.namelessDead.map (fun _ => none) =
      w.deadLetters.keys.map some := by
    rw [hnamed.2, List.map_nil, List.append_nil]
  refine ⟨(w.deadLetters.keys.map some).length, w', ?_, ⟨?_, ?_⟩,
    ⟨hnameless.trans hnamed.1, hnamelessDead.trans hnamed.2⟩, hevent⟩
  · have hget : (get : Proc World).run w = .ok w w := rfl
    rw [retryDeadLetters, run_bind_of_ok hget]
    dsimp only
    rw [hrows]
    exact run_bind_eq_ok.mpr ⟨(), w', hrun, rfl⟩
  · intro k ev' hev'
    obtain ⟨ev, hev⟩ := hback k ev' hev'
    rw [hevent k ev hev] at hev'
    cases hev'
    have hheld := hsound.events k ev hev
    split_ifs
    · exact ⟨hheld.readable, fun _ => Nat.zero_le 7⟩
    · exact hheld
  · intro k
    have hnone : w'.deadLetters.lookup k = none := by
      rw [hdead k]
      split_ifs with hmem
      · rfl
      · rw [← AList.mem_keys, ← AList.lookup_isSome, Option.not_isSome_iff_eq_none] at hmem
        exact hmem
    rw [hnone]
    refine ⟨?_, nofun⟩
    rintro ⟨ev', hev', hstatus⟩
    obtain ⟨ev, hev⟩ := hback k ev' hev'
    rw [hevent k ev hev] at hev'
    cases hev'
    split_ifs at hstatus with hdeadEv
    · exact absurd hstatus (by simp [WebhookEvent.revived])
    · exact absurd hstatus hdeadEv

/-! ## A delivery -/

/-- The inbox is sound, and holds the events it held as they were. -/
def World.Receives (w w' : World) : Prop :=
  w'.Sound ∧ w'.Named ∧ ∀ id ev, w.inbox.lookup id = some ev → w'.inbox.lookup id = some ev

/-- What capture keeps of a payload is a record, or no payload at all. -/
theorem readable_of_payloadOf {edge : Edge} {payload : Option Json} {body : Body}
    {pcoId : Option Json} (h : edge.payloadOf payload = .ok body)
    (hid : payloadId body = .ok pcoId) :
    body = .empty ∨ ∃ members, body = .json (.obj members) := by
  cases body with
  | empty => exact .inl rfl
  | json document =>
      obtain ⟨inner, hinner, -⟩ := except_bind_eq_ok.mp hid
      obtain ⟨data, hdata, -⟩ := except_bind_eq_ok.mp hinner
      cases document <;> first | exact .inr ⟨_, rfl⟩ | cases hdata
  | invalid =>
      unfold Edge.payloadOf at h
      split at h
      · cases h
      · obtain ⟨document, -, h⟩ := except_bind_eq_ok.mp h
        cases h
      · cases h
      · cases h

/-- An event is captured pending and untried, and without an id only where its id is null. -/
theorem readEvent_parts {edge : Edge} {fallback : String} {item : Json} {id : Option String}
    (h : edge.readEvent fallback item = .ok (id, ev)) :
    (ev.payload = .empty ∨ ∃ members, ev.payload = .json (.obj members)) ∧
      ev.status = "pending" ∧ ev.processAttempts = 0 ∧
      (id = none → item.member? "id" = some .null) := by
  simp only [Edge.readEvent, except_bind_eq_ok] at h
  obtain ⟨attributes, -, name, -, text, -, payload, -, v, hv, body, hbody, pcoId, hpcoId, bound,
    hbound, _, -, h⟩ := h
  cases h
  refine ⟨readable_of_payloadOf hbody hpcoId, rfl, rfl, ?_⟩
  rintro rfl
  rw [pyItem_eq_ok hv]
  obtain ⟨htext, harr, hobj⟩ := bindText_eq_ok hbound
  cases v with
  | null => rfl
  | arr items => exact absurd rfl (harr items)
  | obj members => exact absurd rfl (hobj members)
  | _ => cases htext

theorem stores_receives {edge : Edge} {post : Post} {sub : Subscription} {body : Json}
    (hnames : ∀ item, Captures edge body item → item.member? "id" ≠ some .null) :
    Stores w.Receives edge post sub body where
  tick _ _ h := ⟨h.1.of_letters rfl, h.2⟩
  filed _ _ _ h := ⟨h.1.of_letters rfl, h.2⟩
  touched _ _ h := ⟨h.1.of_letters rfl, h.2⟩
  received w' fallback item id ev now hitem hread h := by
    obtain ⟨hpayload, hstatus, hattempts, hnull⟩ := readEvent_parts hread
    cases id with
    | none => exact absurd (hnull rfl) (hnames item hitem)
    | some id =>
        rw [World.received]
        split_ifs with hheld
        · exact h
        have hnone : w'.inbox.lookup id = none := Option.not_isSome_iff_eq_none.mp hheld
        have hlookup : ∀ k, k ≠ id → ((w'.inbox.insert id { ev with receivedAt := now }).lookup k =
            w'.inbox.lookup k) := fun k hk => AList.lookup_insert_ne hk
        refine ⟨⟨fun k ev' hk => ?_, fun k => ?_⟩, h.2.1, fun k ev' hk => ?_⟩
        · by_cases heq : k = id
          · subst heq
            rw [AList.lookup_insert] at hk
            cases hk
            exact ⟨hpayload, fun _ => by rw [hattempts]; exact Nat.zero_le 7⟩
          · exact h.1.events k ev' ((hlookup k heq).symm.trans hk)
        · rw [← h.1.dead_iff k]
          by_cases heq : k = id
          · subst heq
            simp [hnone, hstatus]
          · rw [hlookup k heq]
        · have hk' := h.2.2 k ev' hk
          rw [hlookup k ?_]
          · exact hk'
          · rintro rfl
            rw [hnone] at hk'
            cases hk'

/-! ## Runs -/

/-- A call that writes the inbox. -/
inductive InboxCall where
  | receive (edge : Edge) (env : Env) (post : Post)
  | drain (env : Env) (limit : ℕ)
  | retryDeadLetters

def InboxCall.exec (w : World) : InboxCall → World
  | .receive edge env post => w.after (PcoMirror.receive edge env post)
  | .drain env limit => w.after (PcoMirror.drain env limit)
  | .retryDeadLetters => w.after PcoMirror.retryDeadLetters

/-- No item that a delivery is captured from has null for an id. -/
def InboxCall.Names (w : World) : InboxCall → Prop
  | .receive edge _ post => post.Admitted edge w → ∀ body, edge.loads post.raw = .ok body →
      ∀ item, Captures edge body item → item.member? "id" ≠ some .null
  | _ => True

/-- What holds of the inbox between two calls. -/
structure World.Orderly (w : World) : Prop where
  dead_iff : ∀ id, (∃ ev, w.inbox.lookup id = some ev ∧ ev.status = "dead") ↔
    (w.deadLetters.lookup id).isSome = true
  tried : ∀ row ∈ w.events, row.2.status = "pending" → row.2.processAttempts ≤ 7

/-- What a call may do to an event. -/
structure InboxCall.Proper (w : World) (call : InboxCall) : Prop where
  /-- What is done or ignored stays so. -/
  final : ∀ id ev, w.inbox.lookup id = some ev → ev.status = "done" ∨ ev.status = "ignored" →
    (call.exec w).inbox.lookup id = some ev
  /-- The dead stay dead, or are retried from the start. -/
  dead : ∀ id ev, w.inbox.lookup id = some ev → ev.status = "dead" →
    (call.exec w).inbox.lookup id = some ev ∨ call = .retryDeadLetters ∧
      ∃ ev', (call.exec w).inbox.lookup id = some ev' ∧ ev'.status = "pending" ∧
        ev'.processAttempts = 0
  /-- A redelivery leaves an event as it was. -/
  redelivered : ∀ edge env post, call = .receive edge env post →
    ∀ id ev, w.inbox.lookup id = some ev → (call.exec w).inbox.lookup id = some ev
  /-- A drain comes to its end, and what it selected has been tried once more. -/
  drained : ∀ env limit, call = .drain env limit → ∃ n w',
    (PcoMirror.drain env limit).run w = .ok n w' ∧
      ∀ row ∈ w.selected (env.now w.tick) limit, w'.Ended row

theorem World.Sound.orderly (hsound : w.Sound) (hnamed : w.Named) : w.Orderly where
  dead_iff := hsound.dead_iff
  tried := by
    intro row hrow hpending
    rw [World.events, hnamed.1, List.map_nil, List.append_nil] at hrow
    obtain ⟨e, he, rfl⟩ := List.mem_map.mp hrow
    exact (hsound.events e.1 e.2 (AList.mem_lookup_iff.mpr he)).tried hpending

/-- A call on a sound inbox does what it should and leaves the inbox sound. -/
theorem InboxCall.step (call : InboxCall) (hsound : w.Sound) (hnamed : w.Named)
    (hnames : call.Names w) :
    ((call.exec w).Sound ∧ (call.exec w).Named) ∧ call.Proper w := by
  cases call with
  | receive edge env post =>
      have hreceives : w.Receives (w.after (PcoMirror.receive edge env post)) := by
        by_cases hadmitted : post.Admitted edge w
        · have hspec := spec_receive env (fun sub body _ hbody =>
            stores_receives (hnames hadmitted body hbody)) (w := w) ⟨hsound, hnamed, fun _ _ h => h⟩
          refine spec_after (hspec.conseq (fun _ h => h) ?_ fun _ _ h => h.2) rfl
          rintro reply w' (⟨rfl, -⟩ | ⟨-, h, -⟩)
          · exact ⟨hsound, hnamed, fun _ _ h => h⟩
          · exact h
        · rw [(after_receive_of_not_admitted hadmitted env).1]
          exact ⟨hsound, hnamed, fun _ _ h => h⟩
      refine ⟨⟨hreceives.1, hreceives.2.1⟩, ?_⟩
      exact ⟨fun id ev hev _ => hreceives.2.2 id ev hev,
        fun id ev hev _ => .inl (hreceives.2.2 id ev hev),
        fun _ _ _ _ => hreceives.2.2, by rintro _ _ ⟨⟩⟩
  | drain env limit =>
      obtain ⟨n, w', hrun, hsound', hnamed', hended, helsewhere⟩ :=
        run_drain hsound hnamed env limit
      have hafter : InboxCall.exec w (.drain env limit) = w' := by
        rw [InboxCall.exec, World.after, hrun]
      have hkept : ∀ id ev, w.inbox.lookup id = some ev → ev.status ≠ "pending" →
          w'.inbox.lookup id = some ev := by
        intro id ev hev hstatus
        rw [helsewhere id, hev]
        intro hmem
        obtain ⟨row, hrow, hkey⟩ := List.mem_map.mp hmem
        obtain ⟨k, hk, hlookup, hpending⟩ := (selected_selects hnamed _ limit).2 row hrow
        obtain rfl : k = id := Option.some_inj.mp (hk.symm.trans hkey)
        cases hev.symm.trans hlookup
        exact hstatus hpending
      rw [hafter]
      refine ⟨⟨hsound', hnamed'⟩, ?_, ?_, by rintro _ _ _ ⟨⟩, ?_⟩
      · intro id ev hev hfinal
        rw [hafter]
        exact hkept id ev hev (by rcases hfinal with h | h <;> simp [h])
      · intro id ev hev hdead
        rw [hafter]
        exact .inl (hkept id ev hev (by simp [hdead]))
      · rintro env' limit' ⟨⟩
        exact ⟨n, w', hrun, hended⟩
  | retryDeadLetters =>
      obtain ⟨n, w', hrun, hsound', hnamed', hevent⟩ := run_retryDeadLetters hsound hnamed
      have hafter : InboxCall.exec w .retryDeadLetters = w' := by
        rw [InboxCall.exec, World.after, hrun]
      rw [hafter]
      refine ⟨⟨hsound', hnamed'⟩, ?_, ?_, by rintro _ _ _ ⟨⟩, by rintro _ _ ⟨⟩⟩
      · intro id ev hev hfinal
        rw [hafter, hevent id ev hev, if_neg]
        rcases hfinal with h | h <;> simp [h]
      · intro id ev hev hdead
        refine .inr ⟨rfl, ev.revived, ?_, rfl, rfl⟩
        rw [hafter, hevent id ev hev, if_pos hdead]

/-- An inbox that nothing has been received in. -/
structure World.Fresh (w : World) : Prop where
  inbox : w.inbox = ∅
  deadLetters : w.deadLetters = ∅
  nameless : w.Named

theorem World.Fresh.sound (h : w.Fresh) : w.Sound where
  events id ev hev := by simp [h.inbox] at hev
  dead_iff id := by simp [h.inbox, h.deadLetters]

/-- Where no captured item has null for an id, every event lives as it should. -/
theorem lifecycle_of_named (calls : List InboxCall) (hfresh : w.Fresh)
    (hnames : Run.Each InboxCall.exec (fun w call => call.Names w) w calls) :
    Run.Each InboxCall.exec (fun w call => w.Orderly ∧ call.Proper w) w calls ∧
      (Run.exec InboxCall.exec w calls).Orderly := by
  have hstart : w.Sound ∧ w.Named := ⟨hfresh.sound, hfresh.nameless⟩
  constructor
  · refine hnames.mono (I := fun w => w.Sound ∧ w.Named) hstart fun w call hw hcall => ?_
    obtain ⟨hkept, hproper⟩ := call.step hw.1 hw.2 hcall
    exact ⟨hkept, hw.1.orderly hw.2, hproper⟩
  · have hend := hnames.invariant (I := fun w => w.Sound ∧ w.Named) hstart
      fun w call hw hcall => (call.step hw.1 hw.2 hcall).1
    exact hend.1.orderly hend.2

/-- An event that there is no table for. -/
def reportItem (id : Json) : Json :=
  .obj [("id", id), ("attributes", .obj [("name", .str "people.v2.events.report.updated"),
    ("payload", .str "\x7b\"id\": \"7\"\x7d")])]

def reportEdge (id : Json) : Edge :=
  { exampleEdge with loads := fun text =>
      if text = exampleRaw then .ok (.obj [("data", .arr [reportItem id])])
      else exampleEdge.loads text }

def reportDelivered : InboxCall :=
  .receive (reportEdge (.str "e1")) exampleClock examplePost

theorem lifecycle_of_named_report :
    Run.Each InboxCall.exec (fun w call => w.Orderly ∧ call.Proper w) subscribedWorld
        [reportDelivered, .drain exampleClock 500, reportDelivered, .retryDeadLetters] ∧
      (Run.exec InboxCall.exec subscribedWorld
        [reportDelivered, .drain exampleClock 500, reportDelivered, .retryDeadLetters]).Orderly := by
  have hnames : ∀ w, reportDelivered.Names w := by
    intro w _ body hbody item hitem
    obtain ⟨-, items, hdata, hmem⟩ := hitem
    have hloads : (reportEdge (.str "e1")).loads exampleRaw =
        .ok (.obj [("data", .arr [reportItem (.str "e1")])]) := by simp [reportEdge]
    cases hloads.symm.trans hbody
    cases hdata
    obtain rfl := List.mem_singleton.mp ((List.takeWhile_sublist _).subset hmem)
    simp [reportItem, Json.member?]
  exact lifecycle_of_named _ ⟨rfl, rfl, rfl, rfl⟩ ⟨hnames _, trivial, hnames _, trivial, trivial⟩

/-! ## An event without an id -/

def namelessEvent : WebhookEvent where
  eventName := "people.v2.events.report.updated"
  resourceType := "report"
  action := "updated"
  payload := .json (.obj [("id", .str "7")])
  receivedAt := "2026-07-01T00:00:00Z"

theorem received_nameless :
    (InboxCall.exec subscribedWorld (.receive (reportEdge .null) exampleClock examplePost)).events =
      [(none, namelessEvent)] := by
  have hsubs : subscribedWorld.subscriptionsOf examplePost.urlToken =
      subscribedWorld.subscriptions := by
    simp [World.subscriptionsOf, subscribedWorld, examplePost]
  have hget : (get : Proc World).run subscribedWorld = .ok subscribedWorld subscribedWorld := rfl
  rw [InboxCall.exec, World.after, receive, run_bind_of_ok hget, hsubs]
  decide +kernel

/-- No row is written where the id is null. -/
theorem run_processEvent_nameless (w : World) :
    ∃ w', (processEvent exampleClock none namelessEvent).run w = .ok () w' ∧
      w'.events = w.events := by
  refine ⟨_, rfl, ?_⟩
  simp only [World.events, Sql.Table.update, List.map_map]
  rfl

/-- However often the inbox is drained, the event is selected, and stays as it was captured. -/
theorem nameless_never_ends :
    subscribedWorld.Fresh ∧
      let w := InboxCall.exec subscribedWorld (.receive (reportEdge .null) exampleClock examplePost)
      w.selected "2026-07-01T00:00:00Z" 500 = [(none, namelessEvent)] ∧
        ¬ namelessEvent.Ends namelessEvent ∧
        ∀ n, (Run.exec InboxCall.exec w (.replicate n (.drain exampleClock 500))).events =
          [(none, namelessEvent)] := by
  have hselected : ∀ w : World, w.events = [(none, namelessEvent)] →
      w.selected "2026-07-01T00:00:00Z" 500 = [(none, namelessEvent)] := by
    intro w hevents
    rw [World.selected, hevents]
    decide +kernel
  refine ⟨⟨rfl, rfl, rfl, rfl⟩, hselected _ received_nameless, ?_, fun n => ?_⟩
  · simp [WebhookEvent.Ends, namelessEvent]
  · generalize hw : InboxCall.exec subscribedWorld _ = w
    have hevents : w.events = [(none, namelessEvent)] := hw ▸ received_nameless
    clear hw
    induction n generalizing w with
    | zero => exact hevents
    | succ n ih =>
        rw [List.replicate_succ, Run.exec_cons]
        apply ih
        obtain ⟨w', hrun, hsame⟩ := run_processEvent_nameless { w with tick := w.tick + 1 }
        have hnow : (nowIso exampleClock).run w =
          .ok "2026-07-01T00:00:00Z" { w with tick := w.tick + 1 } := rfl
        have hget : (get : Proc World).run { w with tick := w.tick + 1 } =
          .ok { w with tick := w.tick + 1 } { w with tick := w.tick + 1 } := rfl
        have hall : (forEach (fun row => processEvent exampleClock row.1 row.2)
            [(none, namelessEvent)]).run { w with tick := w.tick + 1 } = .ok () w' :=
          run_forEach_cons_eq_ok.mpr ⟨w', hrun, rfl⟩
        rw [InboxCall.exec, World.after, drain, run_bind_of_ok hnow, run_bind_of_ok hget]
        have hrows : World.selected { w with tick := w.tick + 1 } "2026-07-01T00:00:00Z" 500 =
            [(none, namelessEvent)] := hselected _ hevents
        dsimp only at hrows ⊢
        rw [hrows, run_bind_of_ok hall]
        exact hsame.trans hevents

end PcoMirror
