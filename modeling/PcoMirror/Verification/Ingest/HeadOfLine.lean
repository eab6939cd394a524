import PcoMirror.Lib.Queue
import PcoMirror.Verification.Ingest.Hydration

/-! Drains called again and again over a queue that is all due: which tasks are hydrated while some
of the others raise every time. -/

namespace PcoMirror

open Program

/-! ## Hydrated tasks -/

/-- The tasks in the order they are drained, were all of them due. -/
def World.queue (w : World) : List DueTask :=
  w.tasks.insertionSort (·.notBefore ≤ ·.notBefore)

/-- `hydrate` raises for the task. -/
def DueTask.Raises (task : DueTask) (env : Env) (w : World) : Prop :=
  ∃ e w', (hydrate env task.r task.id task.includes).run w = .error e w'

/-- The rows of a batch for which `hydrate` returns: the first that raises ends the batch. -/
def hydratedOf (env : Env) : List DueTask → World → List DueTask
  | [], _ => []
  | task :: rows, w =>
    match (drainTask env task).run w with
    | .ok _ w' => task :: hydratedOf env rows w'
    | .error _ _ => []

/-- The tasks that one call hydrates. -/
def World.hydrated (w : World) (env : Env) (limit : ℕ) : List DueTask :=
  hydratedOf env (w.dueTasks (env.now w.tick) limit) { w with tick := w.tick + 1 }

/-- What is left after some of the calls. -/
def World.drained (w : World) (calls : ℕ → Env) (limit : ℕ) : ℕ → World
  | 0 => w
  | n + 1 => (w.drained calls limit n).after (drainHydration (calls n) limit)

variable {w w' : World} {env : Env} {task : DueTask} {rows : List DueTask}

/-! ## Rows -/

theorem tasks_of_hydration (h : w'.hydration = w.hydration) : w'.tasks = w.tasks := by
  rw [World.tasks, World.tasks, h]

theorem queue_of_hydration (h : w'.hydration = w.hydration) : w'.queue = w.queue := by
  rw [World.queue, World.queue, tasks_of_hydration h]

theorem mem_queue : task ∈ w.queue ↔ task ∈ w.tasks :=
  List.mem_insertionSort _

theorem nodup_queue_keys (w : World) : (w.queue.map fun task => (task.r, task.id)).Nodup :=
  ((List.perm_insertionSort _ _).map _).nodup_iff.mpr (nodup_tasks w)

theorem tasks_dequeue (w : World) (r : Res) (id : String) :
    (w.dequeue r id).tasks = w.tasks.filter fun task => (task.r, task.id) != (r, id) := by
  rw [World.tasks, World.tasks, List.filter_flatMap]
  congr 1
  funext u
  rw [List.filter_map]
  by_cases hu : u = r
  · subst hu
    simp only [World.dequeue, if_true, Sql.Table.entries_erase]
    congr 2
    funext e
    rw [Function.comp, Bool.eq_iff_iff]
    simp
  · simp only [World.dequeue, if_neg hu]
    congr 1
    rw [eq_comm, List.filter_eq_self]
    intro e _
    simp [hu]

theorem queue_dequeue (w : World) (r : Res) (id : String) :
    (w.dequeue r id).queue = w.queue.filter fun task => (task.r, task.id) != (r, id) := by
  have : IsTrans DueTask (fun a b => a.notBefore ≤ b.notBefore) :=
    ⟨fun _ _ _ => le_trans⟩
  have : Std.Total fun a b : DueTask => a.notBefore ≤ b.notBefore :=
    ⟨fun a b => le_total a.notBefore b.notBefore⟩
  rw [World.queue, World.queue, tasks_dequeue, Queue.filter_insertionSort]

/-- The first task leaves the others as they stand. -/
theorem queue_dequeue_head (h : w.queue = task :: rows) :
    (w.dequeue task.r task.id).queue = rows := by
  have hnodup := nodup_queue_keys w
  rw [h, List.map_cons, List.nodup_cons] at hnodup
  rw [queue_dequeue, h, List.filter_cons_of_neg (by simp), List.filter_eq_self]
  intro other hother
  refine bne_iff_ne.mpr fun heq => hnodup.1 ?_
  exact heq ▸ List.mem_map_of_mem hother

/-! ## One call -/

theorem writing_hydrate (env : Env) (r : Res) (id : String) (includes : List String) :
    Writing (hydrate env r id includes) :=
  (writing_clientGet env _).bind fun resp => writing_hydrateAnswer env r id includes resp

theorem drainTask_run (env : Env) (task : DueTask) (w : World) :
    (∃ w', (hydrate env task.r task.id task.includes).run w = .ok () w' ∧
      w'.hydration = w.hydration ∧
      (drainTask env task).run w = .ok () (w'.dequeue task.r task.id)) ∨
    ∃ e w', (hydrate env task.r task.id task.includes).run w = .error e w' ∧
      w'.hydration = w.hydration ∧ (drainTask env task).run w = .error e w' := by
  have hwrites := writing_hydrate env task.r task.id task.includes w w (Writes.refl w)
  cases hrun : (hydrate env task.r task.id task.includes).run w with
  | ok _ w' =>
      rw [hrun] at hwrites
      exact .inl ⟨w', rfl, hwrites.hydration, by rw [drainTask, EStateM.run_bind, hrun]; rfl⟩
  | error e w' =>
      rw [hrun] at hwrites
      exact .inr ⟨e, w', rfl, hwrites.hydration, by rw [drainTask, EStateM.run_bind, hrun]⟩

theorem hydratedOf_prefix (env : Env) (rows : List DueTask) (w : World) :
    hydratedOf env rows w <+: rows := by
  induction rows generalizing w with
  | nil => exact List.prefix_rfl
  | cons task rows ih =>
      rw [hydratedOf]
      cases (drainTask env task).run w with
      | ok _ w' => exact List.cons_prefix_cons.mpr ⟨rfl, ih w'⟩
      | error e w' => exact List.nil_prefix

theorem not_raises_of_mem_hydratedOf (h : task ∈ hydratedOf env rows w) :
    ∃ w', ¬task.Raises env w' := by
  induction rows generalizing w with
  | nil => cases h
  | cons first rows ih =>
      rw [hydratedOf] at h
      rcases drainTask_run env first w with ⟨w', hrun, -, hdrain⟩ | ⟨e, w', -, -, hdrain⟩
      · rw [hdrain] at h
        rcases List.mem_cons.mp h with rfl | h
        · exact ⟨w, fun ⟨e, w'', hraises⟩ => by cases hrun.symm.trans hraises⟩
        · exact ih h
      · rw [hdrain] at h
        cases h

/-- The rows of a batch that are hydrated leave the queue, and no other task does. -/
theorem queue_after_rows (h : rows <+: w.queue) :
    (w.after (forEach (drainTask env) rows)).queue =
      w.queue.drop (hydratedOf env rows w).length := by
  induction rows generalizing w with
  | nil => rfl
  | cons task rows ih =>
      obtain ⟨rest, hrest⟩ := h
      rw [hydratedOf]
      rcases drainTask_run env task w with ⟨w', -, hsame, hdrain⟩ | ⟨e, w', -, hsame, hdrain⟩
      · have hqueue : w'.queue = task :: (rows ++ rest) := (queue_of_hydration hsame).trans hrest.symm
        have hleft := queue_dequeue_head hqueue
        rw [forEach, after_bind_of_ok hdrain, ih ⟨rest, hleft.symm⟩, hleft, ← hrest, hdrain]
        rfl
      · rw [World.after, forEach, EStateM.run_bind, hdrain]
        exact queue_of_hydration hsame

/-! ## Repeated calls -/

/-- Every task is due whenever the clock is read. -/
def World.AllDue (w : World) (env : Env) : Prop :=
  ∀ tick, ∀ task ∈ w.tasks, task.notBefore ≤ env.now tick

theorem World.AllDue.dueTasks (h : w.AllDue env) (tick limit : ℕ) :
    w.dueTasks (env.now tick) limit = w.queue.take limit := by
  rw [World.dueTasks, World.queue, List.filter_eq_self.mpr]
  exact fun task htask => decide_eq_true (h tick task htask)

/-- One call hydrates tasks from the front of the queue, and leaves the rest of it. -/
theorem World.AllDue.step (h : w.AllDue env) (limit : ℕ) :
    w.hydrated env limit <+: w.queue.take limit ∧
      (w.after (drainHydration env limit)).queue = w.queue.drop (w.hydrated env limit).length := by
  have hrows := hydratedOf_prefix env (w.dueTasks (env.now w.tick) limit) { w with tick := w.tick + 1 }
  rw [World.hydrated, drainHydration_after]
  constructor
  · exact h.dueTasks w.tick limit ▸ hrows
  · refine queue_after_rows ?_
    rw [h.dueTasks]
    exact List.take_prefix limit _

/-- Over a queue that is all due, calls serve it from the front. -/
theorem served_drained {calls : ℕ → Env} (hdue : ∀ n, w.AllDue (calls n)) (limit n : ℕ) :
    (w.drained calls limit n).AllDue (calls n) ∧
      (w.drained calls limit n).queue ⊆ w.queue := by
  suffices hsub : (w.drained calls limit n).queue ⊆ w.queue from
    ⟨fun tick task htask => hdue n tick task (mem_queue.mp (hsub (mem_queue.mpr htask))), hsub⟩
  induction n with
  | zero => exact List.Subset.refl _
  | succ n ih =>
      have hall : (w.drained calls limit n).AllDue (calls n) := fun tick task htask =>
        hdue n tick task (mem_queue.mp (ih (mem_queue.mpr htask)))
      rw [World.drained, (hall.step limit).2]
      exact List.Subset.trans (List.drop_subset _ _) ih

theorem hydrated_pos {limit : ℕ} (hdue : w.AllDue env) (hlimit : 0 < limit)
    (hhead : w.queue.head? = some task) (hreturns : ∀ w', ¬task.Raises env w') :
    0 < (w.hydrated env limit).length := by
  obtain ⟨rows, hrows⟩ := List.head?_eq_some_iff.mp hhead
  obtain ⟨limit, rfl⟩ := Nat.exists_eq_succ_of_ne_zero hlimit.ne'
  rw [World.hydrated, hdue.dueTasks, hrows, List.take_succ_cons, hydratedOf]
  rcases drainTask_run env task { w with tick := w.tick + 1 } with
    ⟨w', -, -, hdrain⟩ | ⟨e, w', hraises, -, -⟩
  · rw [hdrain]
    exact Nat.succ_pos _
  · exact absurd ⟨e, w', hraises⟩ (hreturns _)

/-- Where the tasks of a subset raise every time, and each of the others returns again and again,
repeated calls hydrate all the others just where none of the subset is ahead of one of them. -/
theorem drains_reach_iff (w : World) (calls : ℕ → Env) {limit : ℕ} (hlimit : 0 < limit)
    (hdue : ∀ n, w.AllDue (calls n)) {fails : DueTask → Prop}
    (hfails : ∀ task ∈ w.tasks, fails task → ∀ n w', task.Raises (calls n) w')
    (hothers : ∀ task ∈ w.tasks, ¬fails task → ∀ n, ∃ m ≥ n, ∀ w', ¬task.Raises (calls m) w') :
    (∀ task ∈ w.tasks, ¬fails task →
        ∃ n, task ∈ (w.drained calls limit n).hydrated (calls n) limit) ↔
      w.queue.Pairwise fun task later => fails task → fails later := by
  let queue n := (w.drained calls limit n).queue
  let count n := ((w.drained calls limit n).hydrated (calls n) limit).length
  have hstep n := (served_drained hdue limit n).1.step limit
  have hserved : Queue.Served queue count := ⟨fun n => (hstep n).2⟩
  have hbatch n : (w.drained calls limit n).hydrated (calls n) limit = (queue n).take (count n) :=
    List.prefix_iff_eq_take.mp ((hstep n).1.trans (List.take_prefix _ _))
  have hnodup : (queue 0).Nodup := (nodup_queue_keys w).of_map
  have hfailed : ∀ n, ∀ task ∈ (queue n).take (count n), ¬fails task := by
    intro n task htask hfail
    have hmem : task ∈ w.tasks :=
      mem_queue.mp ((served_drained hdue limit n).2 (List.mem_of_mem_take htask))
    rw [← hbatch] at htask
    obtain ⟨w', hreturns⟩ := not_raises_of_mem_hydratedOf htask
    exact hreturns (hfails task hmem hfail n w')
  have hready : ∀ task ∈ queue 0, ¬fails task →
      ∀ n, ∃ m ≥ n, (queue m).head? = some task → 0 < count m := by
    intro task htask hfail n
    obtain ⟨m, hm, hreturns⟩ := hothers task (mem_queue.mp htask) hfail n
    exact ⟨m, hm, fun hhead =>
      hydrated_pos (served_drained hdue limit m).1 hlimit hhead hreturns⟩
  have hiff := hserved.reached_iff hnodup hfailed hready
  simp only [← hbatch] at hiff
  rw [← show queue 0 = w.queue from rfl, ← hiff]
  exact forall_congr' fun task => imp_congr_left mem_queue.symm

/-! ## One person who cannot be read -/

/-- PCO no longer has any record, and the connection fails whenever person 1 is asked for. -/
def unreadableEnv : Env :=
  { quietEnv with respond := fun _ request =>
      match request with
      | .record .person "1" _ => .error .transportError
      | _ => .ok ⟨404, .json (.obj [])⟩ }

/-- Persons 1 and 2 are queued, each from a time of its own. -/
def twoQueued (first second : String) : World :=
  (World.enqueue {} .person "1" "thin_webhook" [] first).enqueue .person "2" "thin_webhook" [] second

theorem raises_unreadableEnv (h : task.r = .person ∧ task.id = "1") (w : World) :
    task.Raises unreadableEnv w := by
  obtain ⟨r, id, includes, notBefore⟩ := task
  obtain ⟨rfl, rfl⟩ := h
  exact ⟨_, _, rfl⟩

theorem not_raises_unreadableEnv (h : ¬(task.r = .person ∧ task.id = "1")) (w : World) :
    ¬task.Raises unreadableEnv w := by
  rintro ⟨e, w', hraises⟩
  obtain ⟨r, id, includes, notBefore⟩ := task
  have hanswer : unreadableEnv.respond w.tick (.record r id includes) =
      .ok ⟨404, .json (.obj [])⟩ := by
    simp only [unreadableEnv]
    split
    · case h_1 heq =>
        cases heq
        exact absurd ⟨rfl, rfl⟩ h
    · rfl
  rw [hydrate, clientGet_bind_run hanswer] at hraises
  cases hraises

theorem allDue_twoQueued (hdue : (twoQueued first second).tasks.all
    (fun task => task.notBefore ≤ "2024-03-02T00:00:00Z") = true) :
    (twoQueued first second).AllDue unreadableEnv := by
  intro tick task htask
  exact of_decide_eq_true (List.all_eq_true.mp hdue task htask)

/-- Whoever cannot be read comes last. -/
theorem drains_reach_iff_last :
    let w := twoQueued "2024-03-01T00:00:01Z" "2024-03-01T00:00:00Z"
    ∀ task ∈ w.tasks, ¬(task.r = .person ∧ task.id = "1") →
      ∃ n, task ∈ (w.drained (fun _ => unreadableEnv) 100 n).hydrated unreadableEnv 100 := by
  intro w
  have hlast : w.queue.Pairwise fun task later => (task.r = .person ∧ task.id = "1") →
      later.r = .person ∧ later.id = "1" := by
    decide +kernel
  exact (drains_reach_iff w (fun _ => unreadableEnv) (by decide)
    (fun _ => allDue_twoQueued (by decide +kernel))
    (fun _ _ hfail _ w => raises_unreadableEnv hfail w)
    fun _ _ hfail n => ⟨n, Nat.le_refl n, not_raises_unreadableEnv hfail⟩).mpr hlast

/-- Behind a person who cannot be read, no call gets to the next one. -/
theorem drains_blocked : ¬ ∀ (w : World) (calls : ℕ → Env) (limit : ℕ) (fails : DueTask → Prop),
    0 < limit → (∀ n, w.AllDue (calls n)) →
    (∀ task ∈ w.tasks, fails task → ∀ n w', task.Raises (calls n) w') →
    (∀ task ∈ w.tasks, ¬fails task → ∀ n, ∃ m ≥ n, ∀ w', ¬task.Raises (calls m) w') →
    ∀ task ∈ w.tasks, ¬fails task →
      ∃ n, task ∈ (w.drained calls limit n).hydrated (calls n) limit := by
  intro h
  let w := twoQueued "2024-03-01T00:00:00Z" "2024-03-01T00:00:01Z"
  let first : DueTask := ⟨.person, "1", [], "2024-03-01T00:00:00Z"⟩
  let second : DueTask := ⟨.person, "2", [], "2024-03-01T00:00:01Z"⟩
  have hqueue : w.queue = [first, second] := by decide +kernel
  have hdue : w.AllDue unreadableEnv := allDue_twoQueued (by decide +kernel)
  have hnone (w' : World) (hdue : w'.AllDue unreadableEnv) (heq : w'.queue = [first, second]) :
      w'.hydrated unreadableEnv 100 = [] := by
    rw [World.hydrated, hdue.dueTasks, heq, List.take_succ_cons, hydratedOf]
    rcases drainTask_run unreadableEnv first { w' with tick := w'.tick + 1 } with
      ⟨w'', hreturns, -, -⟩ | ⟨e, w'', -, -, hdrain⟩
    · have hfirst : first.r = .person ∧ first.id = "1" := ⟨rfl, rfl⟩
      obtain ⟨e, w₁, hraises⟩ := raises_unreadableEnv hfirst { w' with tick := w'.tick + 1 }
      cases hreturns.symm.trans hraises
    · rw [hdrain]
  have hstays (n : ℕ) : (w.drained (fun _ => unreadableEnv) 100 n).queue = [first, second] := by
    induction n with
    | zero => exact hqueue
    | succ n ih =>
        have hall := (served_drained (fun _ => hdue) 100 n).1
        rw [World.drained, (hall.step 100).2, hnone _ hall ih, ih]
        rfl
  have hmem : second ∈ w.tasks := mem_queue.mp (hqueue ▸ List.mem_cons_of_mem _ List.mem_cons_self)
  obtain ⟨n, hn⟩ := h w (fun _ => unreadableEnv) 100 (fun task => task.r = .person ∧ task.id = "1")
    (by decide) (fun _ => hdue) (fun _ _ hfail _ w => raises_unreadableEnv hfail w)
    (fun _ _ hfail n => ⟨n, Nat.le_refl n, not_raises_unreadableEnv hfail⟩) second hmem (by decide)
  rw [hnone _ (served_drained (fun _ => hdue) 100 n).1 (hstays n)] at hn
  cases hn

end PcoMirror
