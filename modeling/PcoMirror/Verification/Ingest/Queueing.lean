import PcoMirror.Verification.Ingest.Hydration

/-! What queueing records for a re-read leaves: the tables as they are, and the records due. -/

namespace PcoMirror

open Program

variable {env : Env} {id : String} {w : World}

/-- The clock does not go back. -/
def Env.Ticks (env : Env) : Prop :=
  ∀ i j, i ≤ j → env.now i ≤ env.now j

/-- A record is queued, and due by now. -/
def World.HasDue (w : World) (env : Env) (r : Res) (id : String) : Prop :=
  ∃ task, (w.hydration r).lookup id = some task ∧ task.notBefore ≤ env.now w.tick

/-- Queueing records leaves the tables alone, and every one of the records due. -/
structure Queues (env : Env) (keys : List (Res × String)) (w w' : World) : Prop where
  db_eq : w'.db = w.db
  tick_eq : w'.tick = w.tick + keys.length
  kept : ∀ r id, w.HasDue env r id → w'.HasDue env r id
  due : ∀ key ∈ keys, w'.HasDue env key.1 key.2

theorem Queues.refl (w : World) : Queues env [] w w :=
  ⟨rfl, rfl, fun _ _ h => h, nofun⟩

theorem Queues.trans {keys keys' : List (Res × String)} {w' w'' : World}
    (h : Queues env keys w w') (h' : Queues env keys' w' w'') :
    Queues env (keys ++ keys') w w'' where
  db_eq := h'.db_eq.trans h.db_eq
  tick_eq := by rw [h'.tick_eq, h.tick_eq, List.length_append, Nat.add_assoc]
  kept := fun r id hdue => h'.kept r id (h.kept r id hdue)
  due := by
    intro key hkey
    rcases List.mem_append.mp hkey with hkey | hkey
    · exact h'.kept _ _ (h.due key hkey)
    · exact h'.due key hkey

/-- What is due stays due while the clock goes on. -/
theorem World.HasDue.tick (hticks : env.Ticks) {r : Res} (h : w.HasDue env r id) :
    World.HasDue { w with tick := w.tick + 1 } env r id := by
  obtain ⟨task, htask, hdue⟩ := h
  exact ⟨task, htask, hdue.trans (hticks _ _ (Nat.le_succ _))⟩

theorem enqueueHydration_queues (hticks : env.Ticks) (r : Res) (id reason : String) (w : World) :
    ∃ w', (enqueueHydration env r id reason).run w = .ok () w' ∧ Queues env [(r, id)] w w' := by
  let ticked : World := { w with tick := w.tick + 1 }
  let w' := ticked.enqueue r id reason r.info.includes (env.now w.tick)
  have hself : w'.HasDue env r id := by
    refine ⟨_, by simp only [w', World.enqueue, if_true, AList.lookup_insert]; rfl, ?_⟩
    refine le_trans ?_ (hticks _ _ (Nat.le_succ w.tick))
    cases (ticked.hydration r).lookup id with
    | none => exact le_rfl
    | some held =>
        change (if env.now w.tick < held.notBefore then _ else _) ≤ env.now w.tick
        split_ifs with hearlier
        · exact le_rfl
        · exact not_lt.mp hearlier
  refine ⟨w', rfl, rfl, rfl, fun u k hdue => ?_, fun key hkey => ?_⟩
  · by_cases hkey : u = r ∧ k = id
    · obtain ⟨rfl, rfl⟩ := hkey
      exact hself
    · obtain ⟨task, htask, hdue⟩ := hdue.tick hticks
      exact ⟨task, (lookup_enqueue_ne hkey ..).trans htask, hdue⟩
  · obtain rfl := List.mem_singleton.mp hkey
    exact hself

theorem run_enqueueAll (hticks : env.Ticks) (r : Res) (reason : String) (ids : List String)
    (w : World) : ∃ w', (forEach (fun id => enqueueHydration env r id reason) ids).run w =
      .ok () w' ∧ Queues env (ids.map (r, ·)) w w' := by
  induction ids generalizing w with
  | nil => exact ⟨w, rfl, .refl w⟩
  | cons id ids ih =>
      obtain ⟨w₁, hrun₁, hqueues₁⟩ := enqueueHydration_queues hticks r id reason w
      obtain ⟨w', hrun', hqueues'⟩ := ih w₁
      exact ⟨w', by rw [forEach, run_bind_of_ok hrun₁, hrun'], hqueues₁.trans hqueues'⟩

/-- The drain takes up every record that is due, where its batch is no shorter than the queue. -/
theorem mem_dueTasks {limit : ℕ} {r : Res} (h : w.HasDue env r id)
    (hlimit : w.tasks.length ≤ limit) :
    (r, id) ∈ (w.dueTasks (env.now w.tick) limit).map fun task => (task.r, task.id) := by
  obtain ⟨task, htask, hdue⟩ := h
  refine List.mem_map.mpr ⟨⟨r, id, task.includes, task.notBefore⟩, ?_, rfl⟩
  have hlength : ((w.tasks.filter (·.notBefore ≤ env.now w.tick)).insertionSort
      (·.notBefore ≤ ·.notBefore)).length ≤ limit := by
    rw [List.length_insertionSort]
    exact (List.length_filter_le _ _).trans hlimit
  rw [World.dueTasks, List.take_of_length_le hlength, List.mem_insertionSort, List.mem_filter]
  refine ⟨List.mem_flatMap.mpr ⟨r, by cases r <;> decide, ?_⟩, by simpa using hdue⟩
  exact List.mem_map.mpr ⟨⟨id, task⟩, AList.mem_lookup_iff.mp htask, rfl⟩

end PcoMirror
