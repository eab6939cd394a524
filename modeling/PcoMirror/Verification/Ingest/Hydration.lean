import PcoMirror.Model.Ingest.Hydration
import PcoMirror.Verification.Writer.Frame

/-! The hydration queue: what leaves it, and after which answer. -/

namespace PcoMirror

open Program

/-! ## What a request is owed -/

/-- The includes asked for of a key since it last left the queue. -/
def pending (r : Res) (id : String) : List QueueEvent → List (List String)
  | [] => []
  | .requested u k includes :: history =>
    if u = r ∧ k = id then includes :: pending r id history else pending r id history
  | .removed u k :: history => if u = r ∧ k = id then [] else pending r id history
  | .sent .. :: history | .answered .. :: history => pending r id history

/-- The answer was `404` and the record was tombstoned, or `200` and it was applied. -/
def Settled (r : Res) (id : String) (resp : Response) (entries : List Entry) : Prop :=
  resp.status = 404 ∧ .tombstoned r id .auditAbsent ∈ entries ∨
    resp.status = 200 ∧ (.confirmed r id ∈ entries ∨ ∃ record stored,
      .handed 200 record ∈ entries ∧ routeTarget record none [] = .ok (some (r, id, stored)))

/-- A request for a key has gone out with everything asked for, and nobody has asked since. -/
def Asked (r : Res) (id : String) (newer history : List QueueEvent) : Prop :=
  ∃ older includes, history = newer ++ .sent r id includes :: older ∧
    (∀ asked, .requested r id asked ∉ newer) ∧ ∀ asked ∈ pending r id older, asked ⊆ includes

/-- That request has been answered, and the answer settles the key. -/
def Honoured (r : Res) (id : String) (history : List QueueEvent) : Prop :=
  ∃ newer, Asked r id newer history ∧
    ∃ resp entries, .answered r id resp entries ∈ newer ∧ Settled r id resp entries

/-- Whatever has left the queue had been honoured by then. -/
def LosesNone (history : List QueueEvent) : Prop :=
  ∀ newer r id older, history = newer ++ .removed r id :: older → Honoured r id older

variable {r : Res} {id : String} {history newer : List QueueEvent} {e : QueueEvent}

theorem Asked.cons (h : Asked r id newer history) (he : ∀ asked, e ≠ .requested r id asked) :
    Asked r id (e :: newer) (e :: history) := by
  obtain ⟨older, includes, rfl, hnone, hcover⟩ := h
  refine ⟨older, includes, rfl, fun asked hmem => ?_, hcover⟩
  rcases List.mem_cons.mp hmem with heq | hmem
  · exact he asked heq.symm
  · exact hnone asked hmem

theorem Honoured.cons (h : Honoured r id history) (he : ∀ asked, e ≠ .requested r id asked) :
    Honoured r id (e :: history) := by
  obtain ⟨newer, hasked, resp, entries, hmem, hsettled⟩ := h
  exact ⟨e :: newer, hasked.cons he, resp, entries, List.mem_cons_of_mem _ hmem, hsettled⟩

theorem Settled.mono {resp : Response} {entries entries' : List Entry}
    (h : Settled r id resp entries) (hsub : entries ⊆ entries') : Settled r id resp entries' := by
  rcases h with ⟨hstatus, hmem⟩ | ⟨hstatus, hmem | ⟨record, stored, hmem, htarget⟩⟩
  · exact .inl ⟨hstatus, hsub hmem⟩
  · exact .inr ⟨hstatus, .inl (hsub hmem)⟩
  · exact .inr ⟨hstatus, .inr ⟨record, stored, hsub hmem, htarget⟩⟩

theorem LosesNone.cons (h : LosesNone history)
    (he : ∀ r id, e = .removed r id → Honoured r id history) : LosesNone (e :: history) := by
  intro newer r id older heq
  cases newer with
  | nil =>
      obtain ⟨rfl, rfl⟩ := List.cons.inj heq
      exact he r id rfl
  | cons e' newer => exact h newer r id older (List.cons.inj heq).2

/-! ## Answers -/

variable {env : Env} {asked : List String} {resp : Response}

theorem writing_storeHydrated (env : Env) (r : Res) (id : String) (status : ℕ) (record : Json) :
    Writing (storeHydrated env r id status record) :=
  Writing.ite (fun _ => (writing_logEntry _).bind fun _ => writing_routeOne env _ _ _ _)
    fun _ => writing_confirmLiveOne env r id record _

/-- What `hydrate` does once it has stored the record. -/
theorem writing_hydrateRest (env : Env) (r : Res) (id : String) (asked : List String)
    (resp : Response) (record : Json) : Writing (do
      let included ← ofPy (resp.document >>= pageIncluded)
      let owner : Json := .obj [("type", .str r.info.type), ("id", .str id)]
      forEach (routeOne env .reconcile (some owner) []) included
      if r = .person then includeDiff env included asked record) :=
  (writing_ofPy _).bind fun _ => (Writing.forEach (writing_routeOne env _ _ _) _).bind fun _ =>
    Writing.ite (fun _ => writing_includeDiff env _ asked record) fun _ => writing_pure _

theorem writing_hydrateAnswer (env : Env) (r : Res) (id : String) (asked : List String)
    (resp : Response) : Writing (hydrateAnswer env r id asked resp) :=
  Writing.ite (fun _ => writing_tombstoneOne env r id _ _ _) fun _ =>
    Writing.ite (fun _ => (writing_ofPy _).bind fun record =>
      Writing.whenSome (fun record => (writing_storeHydrated env r id _ record).bind fun _ =>
        writing_hydrateRest env r id asked resp record) record) fun _ => writing_pure _

/-- An answer after which `hydrate` has settled the key, or raises: `404`, a `2xx` answer
that cannot be read or whose person cannot be routed, or a `200` answer with the record. -/
def Conclusive (r : Res) (id : String) (resp : Response) : Prop :=
  resp.status = 404 ∨ resp.ok = true ∧ match recordOf resp with
    | .error _ => True
    | .ok none => False
    | .ok (some record) =>
      if r = .person then match routeTarget record none [] with
        | .error _ => True
        | .ok target => resp.status = 200 ∧ ∃ stored, target = some (.person, id, stored)
      else resp.status = 200

/-- An entry that settles the key does so with whatever has been entered after it. -/
theorem settled_of_entry {entry : Entry} {w w₁ w' : World} (hlog : w₁.log = entry :: w.log)
    (hwrites : Writes w₁ w') (h : Settled r id resp [entry]) :
    Settled r id resp (w'.log.take (w'.log.length - w.log.length)) := by
  obtain ⟨db, tick, entries, rfl⟩ := hwrites
  have htake : (entries ++ w₁.log).take ((entries ++ w₁.log).length - w.log.length) =
      entries ++ [entry] := by
    rw [hlog, List.append_cons, List.take_left']
    simp
    omega
  refine h.mono ?_
  change [entry] ⊆ (entries ++ w₁.log).take _
  rw [htake]
  exact List.subset_append_right _ _

/-- Handling a conclusive answer, where it returns, settles the key. -/
theorem settled_of_conclusive (h : Conclusive r id resp) {w w' : World}
    (hrun : (hydrateAnswer env r id asked resp).run w = .ok () w') :
    Settled r id resp (w'.log.take (w'.log.length - w.log.length)) := by
  unfold hydrateAnswer at hrun
  rcases h with h404 | ⟨hok, hrecord⟩
  · rw [if_pos h404, tombstoneOne_run] at hrun
    cases hrun
    refine .inl ⟨h404, ?_⟩
    simp [World.bury]
  · have h404 : ¬ resp.status = 404 := by
      intro h404
      simp [Response.ok, h404] at hok
    rw [if_neg h404, if_pos hok] at hrun
    obtain ⟨record, w₁, hread, hrun⟩ := run_bind_eq_ok.mp hrun
    obtain ⟨hvalue, rfl⟩ := run_ofPy_eq_ok.mp hread
    rw [hvalue] at hrecord
    cases record with
    | none => exact hrecord.elim
    | some record =>
        obtain ⟨⟨⟩, w₂, hstore, hrest⟩ := run_bind_eq_ok.mp hrun
        have hwrites := writing_hydrateRest env r id asked resp record w₂ w₂ (Writes.refl w₂)
        rw [hrest] at hwrites
        unfold storeHydrated at hstore
        by_cases hperson : r = .person
        · subst hperson
          rw [if_pos rfl] at hstore
          simp only [if_true] at hrecord
          obtain ⟨⟨⟩, w₃, hhand, hroute⟩ := run_bind_eq_ok.mp hstore
          cases hhand
          cases htarget : routeTarget record none [] with
          | error e =>
              rw [routeOne_raises htarget] at hroute
              cases hroute
          | ok target =>
              rw [htarget] at hrecord
              obtain ⟨hstatus, stored, rfl⟩ := hrecord
              rw [routeOne_run htarget] at hroute
              cases hroute
              refine settled_of_entry rfl hwrites (.inr ⟨hstatus, .inr ⟨record, stored, ?_, htarget⟩⟩)
              rw [hstatus]
              exact List.mem_singleton_self _
        · rw [if_neg hperson] at hstore
          simp only [if_neg hperson] at hrecord
          cases hstore
          exact settled_of_entry rfl hwrites (.inr ⟨hrecord, .inl (List.mem_singleton_self _)⟩)

/-! ## Steps -/

/-- The condition on a step: nobody asks for a key between its request and its removal, or
for more than its task holds, and every answer is conclusive. -/
def QueueOp.Heeded (q : HydrationQueue) : QueueOp → Prop
  | .enqueue _ r id _ includes _ =>
    (∀ held, (q.world.hydration r).lookup id = some held →
        askedIncludes r includes ⊆ held.includes) ∧
      ∀ task rows, q.drain = .asking task rows ∨ q.drain = .hydrated task rows →
        ¬ (task.r = r ∧ task.id = id)
  | .answer env => ∀ task rows resp, q.drain = .asking task rows →
      env.respond q.world.tick (.record task.r task.id task.includes) = .ok resp →
        Conclusive task.r task.id resp
  | .select .. | .send | .delete | .stop => True

/-- The tasks a drain has still to remove. -/
def Drain.tasks : Drain → List DueTask
  | .idle => []
  | .next rows => rows
  | .asking task rows | .hydrated task rows => task :: rows

/-- The rows a drain holds are in the queue, each once, with their includes. -/
structure Queued (w : World) (tasks : List DueTask) : Prop where
  nodup : (tasks.map fun task => (task.r, task.id)).Nodup
  held : ∀ task ∈ tasks, ∃ held, (w.hydration task.r).lookup task.id = some held ∧
    held.includes = task.includes

/-- Everything asked for of a key is among the includes of its task. -/
def Covered (w : World) (history : List QueueEvent) : Prop :=
  ∀ r id, match (w.hydration r).lookup id with
    | none => pending r id history = []
    | some held => ∀ asked ∈ pending r id history, asked ⊆ held.includes

/-- How far the drain has come with the task it is at. -/
def Drain.Stands (history : List QueueEvent) : Drain → Prop
  | .asking task _ => ∃ newer, Asked task.r task.id newer history
  | .hydrated task _ => Honoured task.r task.id history
  | .idle | .next _ => True

structure HydrationQueue.Safe (q : HydrationQueue) : Prop where
  losesNone : LosesNone q.history
  covered : Covered q.world q.history
  queued : Queued q.world q.drain.tasks
  stands : q.drain.Stands q.history

/-! ## The rows of the queue -/

theorem includes_enqueue (w : World) (r : Res) (id reason : String) (includes : List String)
    (due : String) : ∃ task, ((w.enqueue r id reason includes due).hydration r).lookup id = some task ∧
      task.includes = (((w.hydration r).lookup id).map (·.includes)).getD includes := by
  simp only [World.enqueue, if_true, AList.lookup_insert]
  cases (w.hydration r).lookup id <;> exact ⟨_, rfl, rfl⟩

theorem lookup_enqueue_ne {r u : Res} {id k : String} (h : ¬ (u = r ∧ k = id)) (w : World)
    (reason : String) (includes : List String) (due : String) :
    ((w.enqueue r id reason includes due).hydration u).lookup k = (w.hydration u).lookup k := by
  simp only [World.enqueue]
  split_ifs with hu
  · subst hu
    rw [AList.lookup_insert_ne fun hk => h ⟨rfl, hk⟩]
  · rfl

theorem lookup_dequeue (w : World) (r u : Res) (id k : String) :
    ((w.dequeue r id).hydration u).lookup k =
      if u = r ∧ k = id then none else (w.hydration u).lookup k := by
  simp only [World.dequeue]
  by_cases hu : u = r
  · subst hu
    by_cases hk : k = id
    · subst hk
      simp
    · simp [hk, AList.lookup_erase_ne hk]
  · simp [hu]

theorem mem_tasks {w : World} {task : DueTask} (h : task ∈ w.tasks) :
    ∃ held, (w.hydration task.r).lookup task.id = some held ∧ held.includes = task.includes := by
  simp only [World.tasks, List.mem_flatMap, List.mem_map] at h
  obtain ⟨r, -, e, he, rfl⟩ := h
  exact ⟨e.2, AList.mem_lookup_iff.mpr he, rfl⟩

theorem nodup_tasks (w : World) : (w.tasks.map fun task => (task.r, task.id)).Nodup := by
  have hall : Res.all.Nodup := by decide
  rw [World.tasks, List.map_flatMap, List.nodup_flatMap]
  constructor
  · intro r _
    rw [List.map_map]
    have hkeys : ((w.hydration r).entries.map Sigma.fst).Nodup := (w.hydration r).nodupKeys
    have hpair : (fun task : DueTask => (task.r, task.id)) ∘ (fun e : Sigma fun _ => HydrationTask =>
        (⟨r, e.1, e.2.includes, e.2.notBefore⟩ : DueTask)) = Prod.mk r ∘ Sigma.fst := rfl
    rw [hpair, ← List.map_map]
    exact hkeys.map fun _ _ heq => (Prod.mk.inj heq).2
  · refine hall.imp fun hne => ?_
    rw [Function.onFun, List.disjoint_left]
    intro key hkey hkey'
    simp only [List.mem_map] at hkey hkey'
    obtain ⟨_, ⟨_, _, rfl⟩, rfl⟩ := hkey
    obtain ⟨_, ⟨_, _, rfl⟩, heq⟩ := hkey'
    exact hne (Prod.mk.inj heq).1.symm

theorem queued_dueTasks (w : World) (now : String) (limit : ℕ) :
    Queued w (w.dueTasks now limit) where
  nodup := by
    refine List.Nodup.sublist ((List.take_sublist _ _).map _) ?_
    refine (((List.perm_insertionSort _ _).map _).nodup_iff).mpr ?_
    exact (nodup_tasks w).sublist (List.filter_sublist.map _)
  held := by
    intro task htask
    refine mem_tasks ?_
    have hmem := List.mem_of_mem_take htask
    rw [List.mem_insertionSort] at hmem
    exact List.mem_of_mem_filter hmem

/-- Tasks stay queued where their rows keep their includes. -/
theorem Queued.mono {w w' : World} {tasks : List DueTask} (h : Queued w tasks)
    (hkept : ∀ task ∈ tasks, ∀ held, (w.hydration task.r).lookup task.id = some held →
      ∃ held', (w'.hydration task.r).lookup task.id = some held' ∧
        held'.includes = held.includes) : Queued w' tasks where
  nodup := h.nodup
  held := by
    intro task htask
    obtain ⟨held, hheld, hincludes⟩ := h.held task htask
    obtain ⟨held', hheld', hsame⟩ := hkept task htask held hheld
    exact ⟨held', hheld', hsame.trans hincludes⟩

theorem Queued.of_hydration {w w' : World} {tasks : List DueTask} (h : Queued w tasks)
    (hsame : w'.hydration = w.hydration) : Queued w' tasks :=
  h.mono fun _ _ held hheld => ⟨held, hsame ▸ hheld, rfl⟩

theorem Covered.of_hydration {w w' : World} (h : Covered w history)
    (hsame : w'.hydration = w.hydration) : Covered w' history := by
  intro r id
  rw [hsame]
  exact h r id

theorem Covered.of_pending {w : World} {history' : List QueueEvent} (h : Covered w history)
    (hsame : ∀ r id, pending r id history' = pending r id history) : Covered w history' := by
  intro r id
  rw [hsame]
  exact h r id

/-! ## Steps -/

variable {q : HydrationQueue}

theorem HydrationQueue.Safe.enqueue (h : q.Safe) {env : Env} {reason : String}
    {includes : List String} {delayS : ℕ}
    (hheeded : (QueueOp.enqueue env r id reason includes delayS).Heeded q) :
    (q.apply (.enqueue env r id reason includes delayS)).Safe := by
  obtain ⟨hcover, hfree⟩ := hheeded
  let due := (Iso8601.plusSeconds (env.now q.world.tick) delayS).getD (env.now q.world.tick)
  let ticked : World := { q.world with tick := q.world.tick + 1 }
  have hworld : (q.apply (.enqueue env r id reason includes delayS)).world =
      ticked.enqueue r id reason (askedIncludes r includes) due := rfl
  obtain ⟨task, htask, hincludes⟩ :=
    includes_enqueue ticked r id reason (askedIncludes r includes) due
  constructor
  · exact h.losesNone.cons nofun
  · intro u k
    rw [hworld]
    by_cases hkey : u = r ∧ k = id
    · obtain ⟨rfl, rfl⟩ := hkey
      rw [htask]
      intro asked hasked
      have hheld := h.covered u k
      have hmem : asked = askedIncludes u includes ∨ asked ∈ pending u k q.history := by
        simpa [HydrationQueue.apply, pending] using hasked
      rw [hincludes]
      change asked ⊆ (((q.world.hydration u).lookup k).map _).getD _
      cases hlookup : (q.world.hydration u).lookup k with
      | none =>
          rw [hlookup] at hheld
          rcases hmem with rfl | hmem
          · exact List.Subset.refl _
          · simp [hheld] at hmem
      | some held =>
          rw [hlookup] at hheld
          rcases hmem with rfl | hmem
          · exact hcover held hlookup
          · exact hheld asked hmem
    · have hpending : pending u k (q.apply (.enqueue env r id reason includes delayS)).history =
          pending u k q.history := by
        simp only [HydrationQueue.apply, pending]
        rw [if_neg fun heq => hkey ⟨heq.1.symm, heq.2.symm⟩]
      rw [lookup_enqueue_ne hkey, hpending]
      exact h.covered u k
  · refine h.queued.mono fun task' _ held hheld => ?_
    rw [hworld]
    by_cases hkey : task'.r = r ∧ task'.id = id
    · obtain ⟨rfl, rfl⟩ := hkey
      have hsome : (ticked.hydration task'.r).lookup task'.id = some held := hheld
      exact ⟨task, htask, by rw [hincludes, hsome]; rfl⟩
    · exact ⟨held, (lookup_enqueue_ne hkey ..).trans hheld, rfl⟩
  · have hstands := h.stands
    change q.drain.Stands (.requested r id (askedIncludes r includes) :: q.history)
    cases hdrain : q.drain with
    | idle => trivial
    | next rows => trivial
    | asking task' rows =>
        rw [hdrain] at hstands
        obtain ⟨newer, hasked⟩ := hstands
        refine ⟨_ :: newer, hasked.cons fun asked heq => ?_⟩
        cases heq
        exact hfree task' rows (.inl hdrain) ⟨rfl, rfl⟩
    | hydrated task' rows =>
        rw [hdrain] at hstands
        refine hstands.cons fun asked heq => ?_
        cases heq
        exact hfree task' rows (.inr hdrain) ⟨rfl, rfl⟩

theorem HydrationQueue.Safe.select (h : q.Safe) (env : Env) (limit : ℕ) :
    (q.select env limit).Safe := by
  unfold HydrationQueue.select
  cases hdrain : q.drain with
  | idle =>
      exact ⟨h.losesNone, h.covered, (queued_dueTasks ..).of_hydration rfl, trivial⟩
  | _ => exact h

theorem HydrationQueue.Safe.send (h : q.Safe) : q.send.Safe := by
  unfold HydrationQueue.send
  have hqueued := h.queued
  cases hdrain : q.drain with
  | next rows =>
      rw [hdrain] at hqueued
      cases rows with
      | nil => exact ⟨h.losesNone, h.covered, hqueued, trivial⟩
      | cons task rows =>
          refine ⟨h.losesNone.cons nofun, h.covered.of_pending fun _ _ => rfl, hqueued, [], ?_⟩
          refine ⟨q.history, task.includes, rfl, nofun, fun asked hasked => ?_⟩
          obtain ⟨held, hheld, hincludes⟩ := hqueued.held task (List.mem_cons_self)
          have hcover := h.covered task.r task.id
          rw [hheld] at hcover
          exact hincludes ▸ hcover asked hasked
  | _ => exact h

theorem HydrationQueue.Safe.answer (h : q.Safe) {env : Env}
    (hheeded : (QueueOp.answer env).Heeded q) : (q.answer env).Safe := by
  unfold HydrationQueue.answer
  cases hdrain : q.drain with
  | asking task rows =>
      have hqueued := h.queued
      have hstands := h.stands
      rw [hdrain] at hqueued hstands
      simp only
      cases hanswer : env.respond q.world.tick (.record task.r task.id task.includes) with
      | error e => exact ⟨h.losesNone, h.covered, ⟨List.nodup_nil, nofun⟩, trivial⟩
      | ok resp =>
          simp only
          generalize hasked : ({ q.world with
            tick := q.world.tick + 1
            log := .exchange (.record task.r task.id task.includes) (.ok resp) :: q.world.log } :
              World) = asked
          have hsame : asked.hydration = q.world.hydration := by rw [← hasked]
          have hwrites := writing_hydrateAnswer env task.r task.id task.includes resp asked asked
            (Writes.refl asked)
          cases hrun : (hydrateAnswer env task.r task.id task.includes resp).run asked with
          | error e w' =>
              rw [hrun] at hwrites
              have hkept : w'.hydration = q.world.hydration := hwrites.hydration.trans hsame
              exact ⟨h.losesNone, h.covered.of_hydration hkept, ⟨List.nodup_nil, nofun⟩, trivial⟩
          | ok _ w' =>
              rw [hrun] at hwrites
              have hkept : w'.hydration = q.world.hydration := hwrites.hydration.trans hsame
              have hsettled := settled_of_conclusive (hheeded task rows resp hdrain hanswer) hrun
              obtain ⟨newer, hnewer⟩ := hstands
              refine ⟨h.losesNone.cons nofun, ?_, hqueued.of_hydration hkept, ?_⟩
              · exact (h.covered.of_hydration hkept).of_pending fun _ _ => rfl
              · subst hasked
                exact ⟨_ :: newer, hnewer.cons nofun, resp, _, List.mem_cons_self, hsettled⟩
  | _ => exact h

theorem HydrationQueue.Safe.delete (h : q.Safe) : q.delete.Safe := by
  unfold HydrationQueue.delete
  cases hdrain : q.drain with
  | hydrated task rows =>
      have hqueued := h.queued
      have hstands := h.stands
      rw [hdrain] at hqueued hstands
      obtain ⟨held, hheld, -⟩ := hqueued.held task List.mem_cons_self
      obtain ⟨hfresh, hnodup⟩ := List.nodup_cons.mp hqueued.nodup
      simp only [hheld, Option.isSome_some, if_true]
      refine ⟨h.losesNone.cons fun r id heq => ?_, ?_, ⟨hnodup, ?_⟩, trivial⟩
      · cases heq
        exact hstands
      · intro u k
        rw [lookup_dequeue]
        by_cases hkey : u = task.r ∧ k = task.id
        · obtain ⟨rfl, rfl⟩ := hkey
          simp [pending]
        · have hkey' : ¬ (task.r = u ∧ task.id = k) := fun heq => hkey ⟨heq.1.symm, heq.2.symm⟩
          simp only [if_neg hkey, pending, if_neg hkey']
          exact h.covered u k
      · intro task' htask'
        rw [lookup_dequeue, if_neg]
        · exact hqueued.held task' (List.mem_cons_of_mem _ htask')
        · intro heq
          exact hfresh (List.mem_map.mpr ⟨task', htask', Prod.ext heq.1 heq.2⟩)
  | _ => exact h

/-- A step under the condition keeps the queue safe. -/
theorem HydrationQueue.Safe.apply (h : q.Safe) {op : QueueOp} (hheeded : op.Heeded q) :
    (q.apply op).Safe := by
  cases op with
  | enqueue env r id reason includes delayS => exact h.enqueue hheeded
  | select env limit => exact h.select env limit
  | send => exact h.send
  | answer env => exact h.answer hheeded
  | delete => exact h.delete
  | stop => exact ⟨h.losesNone, h.covered, ⟨List.nodup_nil, nofun⟩, trivial⟩

/-! ## The drain as a run -/

theorem drainRows_run_error {task : DueTask} {rows : List DueTask} {w : World} {e : PyError}
    (h : env.respond w.tick (.record task.r task.id task.includes) = .error e) :
    (forEach (drainTask env) (task :: rows)).run w =
      .error (.raised e) (w.asked env (.record task.r task.id task.includes)) := by
  rw [forEach, drainTask, hydrate, EStateM.run_bind, EStateM.run_bind, EStateM.run_bind,
    clientGet_run, h]

theorem drainRows_run {task : DueTask} {rows : List DueTask} {w : World}
    (h : env.respond w.tick (.record task.r task.id task.includes) = .ok resp) :
    (forEach (drainTask env) (task :: rows)).run w =
      match (hydrateAnswer env task.r task.id task.includes resp).run
        (w.asked env (.record task.r task.id task.includes)) with
      | .ok _ w' => (forEach (drainTask env) rows).run (w'.dequeue task.r task.id)
      | .error e w' => .error e w' := by
  rw [forEach, drainTask, hydrate, EStateM.run_bind, EStateM.run_bind, clientGet_bind_run h]
  cases (hydrateAnswer env task.r task.id task.includes resp).run
    (w.asked env (.record task.r task.id task.includes)) <;> rfl

/-- What the drain does with the answer to the request that is out. -/
theorem answer_asking {task : DueTask} {w : World} (rows : List DueTask)
    (history : List QueueEvent)
    (h : env.respond w.tick (.record task.r task.id task.includes) = .ok resp) :
    HydrationQueue.answer ⟨w, .asking task rows, history⟩ env =
      match (hydrateAnswer env task.r task.id task.includes resp).run
        (w.asked env (.record task.r task.id task.includes)) with
      | .ok _ w' => ⟨w', .hydrated task rows, .answered task.r task.id resp
          (w'.log.take (w'.log.length -
            (w.asked env (.record task.r task.id task.includes)).log.length)) :: history⟩
      | .error _ w' => ⟨w', .idle, history⟩ := by
  cases hrun : (hydrateAnswer env task.r task.id task.includes resp).run
      (w.asked env (.record task.r task.id task.includes)) <;>
    (rw [World.asked, h] at hrun; simp [HydrationQueue.answer, World.asked, h, hrun])

/-- A drain's own steps over the rows it has selected. -/
theorem drainRows_exec (env : Env) (rows : List DueTask) (w : World)
    (history : List QueueEvent) : ∃ ops : List QueueOp, ops ⊆ [.send, .answer env, .delete] ∧
      (Run.exec HydrationQueue.apply ⟨w, .next rows, history⟩ ops).world =
        w.after (forEach (drainTask env) rows) := by
  induction rows generalizing w history with
  | nil => exact ⟨[.send], by simp, rfl⟩
  | cons task rows ih =>
      cases hanswer : env.respond w.tick (.record task.r task.id task.includes) with
      | error e =>
          refine ⟨[.send, .answer env], by simp, ?_⟩
          rw [World.after, drainRows_run_error hanswer]
          simp [HydrationQueue.apply, HydrationQueue.send, HydrationQueue.answer, hanswer,
            World.asked]
      | ok resp =>
          have hstep := answer_asking rows (.sent task.r task.id task.includes :: history) hanswer
          cases hrun : (hydrateAnswer env task.r task.id task.includes resp).run
              (w.asked env (.record task.r task.id task.includes)) with
          | error e w' =>
              rw [hrun] at hstep
              refine ⟨[.send, .answer env], by simp, ?_⟩
              rw [World.after, drainRows_run hanswer, hrun]
              exact congrArg HydrationQueue.world hstep
          | ok _ w' =>
              rw [hrun] at hstep
              let entries := w'.log.take (w'.log.length -
                (w.asked env (.record task.r task.id task.includes)).log.length)
              let before : List QueueEvent := .answered task.r task.id resp entries ::
                .sent task.r task.id task.includes :: history
              let after : List QueueEvent :=
                if ((w'.hydration task.r).lookup task.id).isSome then
                  .removed task.r task.id :: before else before
              obtain ⟨ops, hops, hexec⟩ := ih (w'.dequeue task.r task.id) after
              refine ⟨.send :: .answer env :: .delete :: ops, by simpa using hops, ?_⟩
              rw [World.after, drainRows_run hanswer, hrun, ← World.after]
              refine Eq.trans ?_ hexec
              have hdelete : (HydrationQueue.mk w' (.hydrated task rows) before).delete =
                  ⟨w'.dequeue task.r task.id, .next rows, after⟩ := rfl
              rw [← hdelete, ← show _ = HydrationQueue.mk w' (.hydrated task rows) before from hstep]
              rfl

/-- A drain is its batch, selected on the first reading of the clock. -/
theorem drainHydration_after (env : Env) (limit : ℕ) (w : World) :
    w.after (drainHydration env limit) = World.after { w with tick := w.tick + 1 }
      (forEach (drainTask env) (w.dueTasks (env.now w.tick) limit)) := by
  have hrun : (drainHydration env limit).run w =
      (forEach (drainTask env) (w.dueTasks (env.now w.tick) limit) >>= fun _ =>
        pure (w.dueTasks (env.now w.tick) limit).length).run { w with tick := w.tick + 1 } := rfl
  rw [World.after, World.after, hrun, EStateM.run_bind]
  cases (forEach (drainTask env) (w.dueTasks (env.now w.tick) limit)).run
    { w with tick := w.tick + 1 } <;> rfl

/-- `drain_hydration` with nothing in between is a run of its steps. -/
theorem drainHydration_exec (env : Env) (limit : ℕ) (w : World) (history : List QueueEvent) :
    ∃ ops : List QueueOp, ops ⊆ [.select env limit, .send, .answer env, .delete] ∧
      (Run.exec HydrationQueue.apply ⟨w, .idle, history⟩ ops).world =
        w.after (drainHydration env limit) := by
  obtain ⟨ops, hops, hexec⟩ := drainRows_exec env (w.dueTasks (env.now w.tick) limit)
    { w with tick := w.tick + 1 } history
  refine ⟨.select env limit :: ops, ?_, ?_⟩
  · exact List.cons_subset.mpr ⟨List.mem_cons_self, List.subset_cons_of_subset _ hops⟩
  · rw [Run.exec_cons, drainHydration_after]
    exact hexec

/-! ## Runs -/

end PcoMirror
