import PcoMirror.Lib.Agreement
import PcoMirror.Verification.Ingest.Merges

/-! A merge whose application was stopped: the next call that applies it leaves what an
application that was not stopped would have left. -/

namespace PcoMirror

open Program

variable {env env' : Env} {m : Merge}

/-! ## Rows and tasks without their clocks -/

/-- A row less its clock columns. Where its document has no time of its own, a tombstone's
time is one of them. -/
def Row.unclocked (row : Row) : Row :=
  { row with
    firstSeenAt := ""
    lastSyncedAt := ""
    deletedAt := row.deletedAt.map fun _ => ""
    tombstoneUat := if row.uat = none then row.tombstoneUat.map fun _ => "" else row.tombstoneUat }

/-- A row as a merge leaves it, whatever buried it before. -/
def Row.merged (keep : String) (row : Row) : Row :=
  { row with
    firstSeenAt := ""
    lastSyncedAt := ""
    deletedAt := some ""
    tombstoneUat := some (row.uat.getD "")
    tombstoneReason := some .merged
    mergedInto := some keep
    source := .reconcile }

theorem Row.unclocked_tombstone (row : Row) (keep now : String) :
    (row.tombstone none .merged (some keep) now).unclocked = row.merged keep := by
  obtain ⟨raw, _, _, _, _, _, _, _, _, _⟩ := row
  cases h : pcoUpdatedAt raw <;>
    simp [Row.unclocked, Row.tombstone, Row.tombstoneTime, Row.merged, Row.uat, h]

theorem Row.merged_unclocked (row : Row) (keep : String) :
    row.unclocked.merged keep = row.merged keep := rfl

theorem Row.merged_tombstone (row : Row) (keep keep' now : String) :
    (row.tombstone none .merged (some keep') now).merged keep = row.merged keep := rfl

theorem Row.merged_merged (row : Row) (keep keep' : String) :
    (row.merged keep').merged keep = row.merged keep := rfl

/-- What a task asks for and why. -/
def HydrationTask.plan (task : HydrationTask) : List String × String :=
  (task.includes, task.reason)

/-- The task a request for a re-read leaves, less its time. -/
def planned (r : Res) (reason : String) (held : Option HydrationTask) : List String × String :=
  ((held.map HydrationTask.includes).getD r.info.includes, reason)

/-! ## States that differ by part of a merge -/

/-- The persons, the queue and the merger log agree, clocks aside. The persons in `G` may
differ in what a merge overwrites, and the tasks of those in `K` in what it asks anew. -/
structure Upto (G K : String → Prop) (w w' : World) : Prop where
  persons : ∀ id, ¬ G id →
    (w.db.row? .person id).map Row.unclocked = (w'.db.row? .person id).map Row.unclocked
  gone : ∀ id, (w.db.row? .person id).map (Row.merged "") =
    (w'.db.row? .person id).map (Row.merged "")
  tasks : ∀ r id, ¬ (r = .person ∧ K id) →
    ((w.hydration r).lookup id).map HydrationTask.plan =
      ((w'.hydration r).lookup id).map HydrationTask.plan
  kept : ∀ id, planned .person "" ((w.hydration .person).lookup id) =
    planned .person "" ((w'.hydration .person).lookup id)
  mergers : ∀ id, (w.db.row? .personMerger id).map Row.unclocked =
    (w'.db.row? .personMerger id).map Row.unclocked

/-- The same persons, queue and merger log, clocks aside. -/
def SameMerges (w w' : World) : Prop :=
  Upto (fun _ => False) (fun _ => False) w w'

variable {G K : String → Prop} {w w' w₁ : World}

theorem Upto.refl (w : World) : Upto G K w w :=
  ⟨fun _ _ => rfl, fun _ => rfl, fun _ _ _ => rfl, fun _ => rfl, fun _ => rfl⟩

theorem Upto.trans (h : Upto G K w w₁) (h' : Upto G K w₁ w') : Upto G K w w' where
  persons id hid := (h.persons id hid).trans (h'.persons id hid)
  gone id := (h.gone id).trans (h'.gone id)
  tasks r id hid := (h.tasks r id hid).trans (h'.tasks r id hid)
  kept id := (h.kept id).trans (h'.kept id)
  mergers id := (h.mergers id).trans (h'.mergers id)

theorem Upto.mono {G' K' : String → Prop} (h : Upto G K w w') (hG : ∀ id, G id → G' id)
    (hK : ∀ id, K id → K' id) : Upto G' K' w w' :=
  { h with
    persons := fun id hid => h.persons id (mt (hG id) hid)
    tasks := fun r id hid => h.tasks r id (mt (And.imp_right (hK id)) hid) }

theorem Upto.knowsMerge (h : Upto G K w w') (id : String) :
    w.knowsMerge id ↔ w'.knowsMerge id := by
  have hrow := congrArg Option.isSome (h.mergers id)
  simp only [Option.isSome_map] at hrow
  rw [World.knowsMerge, World.knowsMerge, hrow]

theorem Upto.congr {w₂ w₂' : World} (h : Upto G K w w') (hdb : w₂.db = w.db)
    (hhydration : w₂.hydration = w.hydration) (hdb' : w₂'.db = w'.db)
    (hhydration' : w₂'.hydration = w'.hydration) : Upto G K w₂ w₂' := by
  obtain ⟨hpersons, hgone, htasks, hkept, hmergers⟩ := h
  exact ⟨by rwa [hdb, hdb'], by rwa [hdb, hdb'], by rwa [hhydration, hhydration'],
    by rwa [hhydration, hhydration'], by rwa [hdb, hdb']⟩

/-! ## The statements of a merge -/

/-- The state after the merge's tombstone. -/
def World.buried (w : World) (env : Env) (m : Merge) : World :=
  w.after (m.upTo env 1)

/-- The state after its tombstone and its request for a re-read. -/
def World.asking (w : World) (env : Env) (m : Merge) : World :=
  w.after (m.upTo env 2)

theorem tombstone_merged (id keep now : String) (db : Db) :
    tombstone .person id none .merged (some keep) now db =
      db.updateRow .person id (·.tombstone none .merged (some keep) now) := rfl

theorem row?_buried (env : Env) (m : Merge) (w : World) (id : String) :
    (w.buried env m).db.row? .person id =
      if id = m.gone then
        (w.db.row? .person id).map (·.tombstone none .merged (some m.keep) (env.now w.tick))
      else w.db.row? .person id := by
  change (tombstone .person m.gone none .merged (some m.keep) (env.now w.tick) w.db).row?
    .person id = _
  rw [tombstone_merged, Db.row?_updateRow]
  simp

theorem merger_buried (env : Env) (m : Merge) (w : World) (id : String) :
    (w.buried env m).db.row? .personMerger id = w.db.row? .personMerger id :=
  row?_upTo_merger env m (by decide) w id

/-- A merge's tombstone makes the persons it buries agree. -/
theorem Upto.buried (h : Upto G K w w') (env env' : Env) (m : Merge) :
    Upto (fun id => G id ∧ id ≠ m.gone) K (w.buried env m) (w'.buried env' m) where
  persons id hid := by
    rw [row?_buried, row?_buried]
    by_cases hgone : id = m.gone
    · have hmerged := congrArg (Option.map (Row.merged m.keep)) (h.gone id)
      simp only [Option.map_map, Function.comp_def, Row.merged_merged] at hmerged
      simp only [hgone, if_true, Option.map_map, Function.comp_def, Row.unclocked_tombstone]
      rw [← hgone]
      exact hmerged
    · simp only [hgone, if_false]
      exact h.persons id fun hG => hid ⟨hG, hgone⟩
  gone id := by
    rw [row?_buried, row?_buried]
    split_ifs
    · have hmerged := h.gone id
      simp only [Option.map_map, Function.comp_def]
      simpa only [Row.merged_tombstone] using hmerged
    · exact h.gone id
  tasks := h.tasks
  kept := h.kept
  mergers id := by
    rw [merger_buried, merger_buried]
    exact h.mergers id

theorem hydration_asking_eq (env : Env) (m : Merge) (w : World) (r : Res) :
    (w.asking env m).hydration r =
      if r = .person then (w.hydration r).insert m.keep
        (match (w.hydration .person).lookup m.keep with
          | none => ⟨Res.person.info.includes, "merge_survivor", env.now (w.tick + 1)⟩
          | some held => { held with
              reason := "merge_survivor"
              notBefore := if env.now (w.tick + 1) < held.notBefore then env.now (w.tick + 1)
                else held.notBefore })
      else w.hydration r := rfl

theorem hydration_asking (env : Env) (m : Merge) (w : World) (r : Res) (id : String) :
    (((w.asking env m).hydration r).lookup id).map HydrationTask.plan =
      if r = .person ∧ id = m.keep then
        some (planned .person "merge_survivor" ((w.hydration .person).lookup id))
      else ((w.hydration r).lookup id).map HydrationTask.plan := by
  rw [hydration_asking_eq]
  by_cases hr : r = .person
  · subst hr
    simp only [if_true, true_and]
    by_cases hid : id = m.keep
    · subst hid
      simp only [AList.lookup_insert, Option.map_some, if_true]
      cases (w.hydration .person).lookup m.keep <;> rfl
    · simp only [AList.lookup_insert_ne hid, hid, if_false]
  · simp only [hr, if_false, false_and]

theorem planned_of_plan {r : Res} {held held' : Option HydrationTask}
    (h : held.map HydrationTask.plan = held'.map HydrationTask.plan) (reason : String) :
    planned r reason held = planned r reason held' := by
  have hincludes : ∀ held : Option HydrationTask,
      held.map HydrationTask.includes = (held.map HydrationTask.plan).map Prod.fst := by
    intro held
    cases held <;> rfl
  rw [planned, planned, hincludes, h, ← hincludes]

theorem planned_planned {held held' : Option HydrationTask} {reason : String}
    (h : planned .person reason held = planned .person reason held') (reason' : String) :
    planned .person reason' held = planned .person reason' held' := by
  have hincludes := congrArg Prod.fst h
  simp only [planned] at hincludes ⊢
  rw [hincludes]

/-- A merge's request makes the tasks it asks for agree. -/
theorem Upto.asking (h : Upto G K w w') (env env' : Env) (m : Merge) :
    Upto (fun id => G id ∧ id ≠ m.gone) (fun id => K id ∧ id ≠ m.keep) (w.asking env m)
      (w'.asking env' m) := by
  have hburied := h.buried env env' m
  refine ⟨hburied.persons, hburied.gone, fun r id hid => ?_, fun id => ?_, hburied.mergers⟩
  · rw [hydration_asking, hydration_asking]
    split_ifs with hkeep
    · rw [planned_planned (h.kept id)]
    · exact h.tasks r id fun ⟨hr, hK⟩ => hid ⟨hr, hK, fun heq => hkeep ⟨hr, heq⟩⟩
  · by_cases hkeep : id = m.keep
    · refine planned_of_plan ?_ _
      rw [hydration_asking, hydration_asking, if_pos ⟨rfl, hkeep⟩, if_pos ⟨rfl, hkeep⟩,
        planned_planned (h.kept id)]
    · have hheld : ∀ (env : Env) (w : World),
          (((w.asking env m).hydration .person).lookup id).map HydrationTask.plan =
            ((w.hydration .person).lookup id).map HydrationTask.plan := by
        intro env w
        rw [hydration_asking, if_neg fun h => hkeep h.2]
      rw [planned_of_plan (hheld env w), planned_of_plan (hheld env' w')]
      exact h.kept id

/-- The record comes last and touches neither the persons nor the queue. -/
theorem apply_asking (env : Env) (m : Merge) (w : World) :
    (w.after (m.apply env)).hydration = (w.asking env m).hydration ∧
      ∀ id, (w.after (m.apply env)).db.row? .person id = (w.asking env m).db.row? .person id := by
  have hrecord : w.after (m.apply env) =
      if ((w.asking env m).db.row? .personMerger m.id).isSome then
        { w.asking env m with tick := (w.asking env m).tick + 1 }
      else
        { w.asking env m with
          tick := (w.asking env m).tick + 1
          db := (w.asking env m).db.put .personMerger m.id
            (Row.fresh m.raw ⟨m.source, env.apiVersion, env.now (w.tick + 2)⟩) } := rfl
  rw [hrecord]
  split_ifs
  · exact ⟨rfl, fun _ => rfl⟩
  · refine ⟨rfl, fun id => ?_⟩
    simp only
    rw [Db.row?_put, if_neg (by simp)]

/-- An application leaves agreeing all that it writes. -/
theorem Upto.apply (h : Upto G K w w') (hversion : env.apiVersion = env'.apiVersion)
    (hnew : ¬ w.knowsMerge m.id) :
    Upto (fun id => G id ∧ id ≠ m.gone) (fun id => K id ∧ id ≠ m.keep) (w.after (m.apply env))
      (w'.after (m.apply env')) := by
  have hnew' : ¬ w'.knowsMerge m.id := mt (h.knowsMerge m.id).mpr hnew
  have hasking := h.asking env env' m
  obtain ⟨hhydration, hpersons⟩ := apply_asking env m w
  obtain ⟨hhydration', hpersons'⟩ := apply_asking env' m w'
  have habsent : w.db.row? .personMerger m.id = none := by simpa [World.knowsMerge] using hnew
  have habsent' : w'.db.row? .personMerger m.id = none := by simpa [World.knowsMerge] using hnew'
  refine ⟨fun id hid => ?_, fun id => ?_, fun r id hid => ?_, fun id => ?_, fun id => ?_⟩
  · rw [hpersons, hpersons']
    exact hasking.persons id hid
  · rw [hpersons, hpersons']
    exact hasking.gone id
  · rw [hhydration, hhydration']
    exact hasking.tasks r id hid
  · rw [hhydration, hhydration']
    exact hasking.kept id
  · rw [row?_apply_merger env m w habsent, row?_apply_merger env' m w' habsent', hversion]
    split_ifs
    · rfl
    · exact h.mergers id

/-- Part of a merge's application leaves a state that differs by part of the merge. -/
theorem upto_upTo (env : Env) (m : Merge) {k : ℕ} (hk : k < 3) (w : World) :
    Upto (· = m.gone) (· = m.keep) w (w.after (m.upTo env k)) := by
  have hburied : Upto (· = m.gone) (· = m.keep) w (w.buried env m) := by
    refine ⟨fun id hid => ?_, fun id => ?_, fun _ _ _ => rfl, fun _ => rfl, fun id => ?_⟩
    · rw [row?_buried, if_neg hid]
    · rw [row?_buried]
      split_ifs
      · simp only [Option.map_map, Function.comp_def, Row.merged_tombstone]
      · rfl
    · rw [merger_buried]
  have hasking : Upto (· = m.gone) (· = m.keep) w (w.asking env m) := by
    refine ⟨hburied.persons, hburied.gone, fun r id hid => ?_, fun id => ?_, hburied.mergers⟩
    · rw [hydration_asking, if_neg hid]
    · by_cases hkeep : id = m.keep
      · have hplan := hydration_asking env m w .person id
        rw [if_pos ⟨rfl, hkeep⟩] at hplan
        cases htask : ((w.asking env m).hydration .person).lookup id with
        | none => simp [htask] at hplan
        | some task =>
            rw [htask, Option.map_some, Option.some_inj] at hplan
            exact Prod.ext (congrArg Prod.fst hplan).symm rfl
      · refine planned_of_plan ?_ _
        rw [hydration_asking, if_neg fun h => hkeep h.2]
  match k with
  | 0 => exact Upto.refl w
  | 1 => exact hburied
  | 2 => exact hasking

/-! ## Two polls side by side -/

/-- PCO answers a request the same whenever and by whichever of the two it is asked. -/
structure AnswersAlike (env env' : Env) : Prop where
  respond : ∀ tick tick' request, env.respond tick request = env'.respond tick' request
  apiVersion : env.apiVersion = env'.apiVersion

/-- A row of some page PCO answers. -/
def Env.ListsMerger (env : Env) (d : Json) : Prop :=
  ∃ tick request resp, env.respond tick request = .ok resp ∧ d ∈ resp.mergers

/-- Wherever PCO lists the merge, it names the same two people. -/
def Env.Names (env : Env) (m : Merge) : Prop :=
  ∀ d, env.ListsMerger d → idOf d = .ok m.id → ∀ n, polledMerge m.id d = .ok n →
    n.gone = m.gone ∧ n.keep = m.keep

/-- A relation between two states that survives what a poll does to both. -/
structure Lockstep (env env' : Env) (R : World → World → Prop) : Prop where
  watermark {w w' : World} (h : R w w') :
    (w.sync .personMerger).mergerWatermark = (w'.sync .personMerger).mergerWatermark
  knowsMerge {w w' : World} (h : R w w') (id : String) : w.knowsMerge id ↔ w'.knowsMerge id
  congr {w w' w₂ w₂' : World} (h : R w w') (hdb : w₂.db = w.db)
    (hhydration : w₂.hydration = w.hydration) (hdb' : w₂'.db = w'.db)
    (hhydration' : w₂'.hydration = w'.hydration)
    (hwatermark : (w₂.sync .personMerger).mergerWatermark =
      (w₂'.sync .personMerger).mergerWatermark) : R w₂ w₂'
  apply {w w' : World} {d : Json} {n : Merge} (h : R w w') (hlists : env.ListsMerger d)
    (hid : idOf d = .ok n.id) (hpolled : polledMerge n.id d = .ok n)
    (hnew : ¬ w.knowsMerge n.id) : R (w.after (n.apply env)) (w'.after (n.apply env'))

/-- The states do not differ, clocks aside. -/
structure Level (w w' : World) : Prop where
  same : SameMerges w w'
  watermark : (w.sync .personMerger).mergerWatermark = (w'.sync .personMerger).mergerWatermark

/-- The states differ by part of the merge at most, and not at all once it is known. -/
structure Trailing (m : Merge) (w w' : World) : Prop where
  upto : Upto (fun id => id = m.gone ∧ ¬ w.knowsMerge m.id)
    (fun id => id = m.keep ∧ ¬ w.knowsMerge m.id) w w'
  watermark : (w.sync .personMerger).mergerWatermark = (w'.sync .personMerger).mergerWatermark

theorem lockstep_level (halike : AnswersAlike env env') : Lockstep env env' Level where
  watermark h := h.watermark
  knowsMerge h := h.same.knowsMerge
  congr h hdb hhydration hdb' hhydration' hwatermark :=
    ⟨h.same.congr hdb hhydration hdb' hhydration', hwatermark⟩
  apply h _ _ _ hnew := by
    refine ⟨(h.same.apply halike.apiVersion hnew).mono (fun _ h => h.1) fun _ h => h.1, ?_⟩
    rw [sync_apply, sync_apply]
    exact h.watermark

theorem lockstep_trailing (halike : AnswersAlike env env') (hnames : env.Names m) :
    Lockstep env env' (Trailing m) where
  watermark h := h.watermark
  knowsMerge h := h.upto.knowsMerge
  congr {w w' w₂ w₂'} h hdb hhydration hdb' hhydration' hwatermark := by
    have hknows : w₂.knowsMerge m.id ↔ w.knowsMerge m.id := by
      rw [World.knowsMerge, World.knowsMerge, hdb]
    refine ⟨?_, hwatermark⟩
    simp only [hknows]
    exact h.upto.congr hdb hhydration hdb' hhydration'
  apply {w w' d n} h hlists hid hpolled hnew := by
    have happlied := Applied.start.merge env n hnew
    have hknows : (w.after (n.apply env)).knowsMerge m.id ↔ w.knowsMerge m.id ∨ m.id = n.id := by
      simpa using happlied.ids.2 m.id
    have hsame : m.id = n.id → n.gone = m.gone ∧ n.keep = m.keep := fun heq =>
      hnames d hlists (heq ▸ hid) n (heq ▸ hpolled)
    refine ⟨(h.upto.apply halike.apiVersion hnew).mono ?_ ?_, ?_⟩
    · rintro id ⟨⟨rfl, hunknown⟩, hother⟩
      refine ⟨rfl, fun hknown => ?_⟩
      exact (hknows.mp hknown).elim hunknown fun heq => hother (hsame heq).1.symm
    · rintro id ⟨⟨rfl, hunknown⟩, hother⟩
      refine ⟨rfl, fun hknown => ?_⟩
      exact (hknows.mp hknown).elim hunknown fun heq => hother (hsame heq).2.symm
    · rw [sync_apply, sync_apply]
      exact h.watermark

section Lockstep

variable {R : World → World → Prop}

/-- Two cursors stand at one watermark, and both have applied something or neither has. -/
def SameCursor (q q' : String × ℕ) : Prop :=
  q.1 = q'.1 ∧ (q.2 = 0 ↔ q'.2 = 0)

theorem Lockstep.one (hR : Lockstep env env' R) {wm : String} {fresh fresh' : ℕ}
    (hfresh : fresh = 0 ↔ fresh' = 0) {d : Json} (hlists : env.ListsMerger d)
    (h : R w w') :
    Coupled SameCursor R ((pollOne env wm fresh d).run w)
      ((pollOne env' wm fresh' d).run w') := by
  rw [run_pollOne, run_pollOne]
  cases hread : readMerger d with
  | error e => exact .error _ h
  | ok read =>
      have hiff := hR.knowsMerge h read.2
      by_cases hknown : w.knowsMerge read.2
      · have hknown' := hiff.mp hknown
        rw [World.knowsMerge] at hknown hknown'
        simp only [hknown, hknown', if_true]
        exact .ok ⟨rfl, hfresh⟩ h
      · have hnew := hknown
        have hnew' := mt hiff.mpr hknown
        rw [World.knowsMerge] at hknown hnew'
        simp only [hknown, hnew', Bool.false_eq_true, if_false]
        cases hpolled : polledMerge read.2 d with
        | error e => exact .error _ h
        | ok n =>
            have hid := polledMerge_id hpolled
            simp only [run_bind_of_ok (run_apply env n w), run_bind_of_ok (run_apply env' n w')]
            rw [← hid] at hpolled hnew
            refine .ok ⟨rfl, by simp⟩ (hR.apply h hlists ?_ hpolled hnew)
            rw [hid]
            exact idOf_of_readMerger hread

theorem Lockstep.page (hR : Lockstep env env' R) {wm : String} {fresh fresh' : ℕ}
    (hfresh : fresh = 0 ↔ fresh' = 0) {items : List Json} (hlists : ∀ d ∈ items, env.ListsMerger d)
    (h : R w w') :
    Coupled SameCursor R ((pollPage env wm fresh items).run w)
      ((pollPage env' wm fresh' items).run w') := by
  induction items generalizing wm fresh fresh' w w' with
  | nil => exact .ok ⟨rfl, hfresh⟩ h
  | cons d items ih =>
      refine (hR.one hfresh (hlists d (by simp)) h).bind fun q q' t t' hq ht => ?_
      obtain ⟨wm₁, fresh₁⟩ := q
      obtain ⟨wm₂, fresh₂⟩ := q'
      obtain ⟨rfl, hfresh'⟩ := hq
      exact ih hfresh' (fun d' hd' => hlists d' (by simp [hd'])) ht

theorem coupled_ofPy {α : Type} (h : R w w') (e : Except PyError α) :
    Coupled (fun a b => a = b ∧ e = .ok a) R ((ofPy e).run w)
      ((ofPy e).run w') := by
  cases e with
  | ok a => exact .ok ⟨rfl, rfl⟩ h
  | error e => exact .error _ h

theorem Lockstep.ask (hR : Lockstep env env' R) (halike : AnswersAlike env env')
    (h : R w w') (request : Request) :
    Coupled (fun a b => a = b ∧ ∃ tick, env.respond tick request = .ok a) R
      ((clientGet env request).run w) ((clientGet env' request).run w') := by
  have hwatermark := hR.watermark h
  have hasked : R (w.asked env request) (w'.asked env' request) :=
    hR.congr h rfl rfl rfl rfl hwatermark
  rw [clientGet_run, clientGet_run, ← halike.respond w.tick w'.tick]
  cases hanswer : env.respond w.tick request with
  | error e => exact .error _ hasked
  | ok resp => exact .ok ⟨rfl, w.tick, hanswer⟩ hasked

/-- What a round does with the page it was answered. -/
theorem Lockstep.items (hR : Lockstep env env' R) {p p' : PollPass} (hp : p.wm = p'.wm) {items : List Json}
    (hread : Coupled SameCursor R ((pollPage env p.wm 0 items).run w)
      ((pollPage env' p'.wm 0 items).run w')) :
    Coupled (Pass.Both fun p p' => p.wm = p'.wm) R
      ((pollItems env p items).run w) ((pollItems env' p' items).run w') := by
  refine hread.bind fun q q' t t' hq ht => ?_
  obtain ⟨wm, fresh⟩ := q
  obtain ⟨wm', fresh'⟩ := q'
  obtain ⟨rfl, hfresh⟩ := hq
  have hset : R
      { t with sync := fun u => if u = .personMerger then
          { t.sync u with mergerWatermark := wm } else t.sync u }
      { t' with sync := fun u => if u = .personMerger then
          { t'.sync u with mergerWatermark := wm } else t'.sync u } :=
    hR.congr ht rfl rfl rfl rfl rfl
  have hagain : (items.length < 100 ∨ fresh = 0 ∧ wm = p.wm) ↔
      (items.length < 100 ∨ fresh' = 0 ∧ wm = p'.wm) := by
    rw [hfresh, hp]
  refine Coupled.bind (V := fun _ _ => True) (.ok trivial hset) fun _ _ u u' _ hu => ?_
  by_cases hleave : items.length < 100 ∨ fresh = 0 ∧ wm = p.wm
  · simp only [hleave, hagain.mp hleave, if_true]
    exact .ok (.leave _ _) hu
  · simp only [hleave, hagain.not.mp hleave, if_false]
    exact .ok (.again rfl) hu

theorem Lockstep.round (hR : Lockstep env env' R) (halike : AnswersAlike env env') {p p' : PollPass} (hp : p.wm = p'.wm)
    (h : R w w') :
    Coupled (Pass.Both fun p p' => p.wm = p'.wm) R ((pollRound env p).run w)
      ((pollRound env' p').run w') := by
  have hrequest : p'.request = p.request := by rw [PollPass.request, PollPass.request, hp]
  rw [pollRound_eq, pollRound_eq, hrequest]
  refine (hR.ask halike h _).bind fun resp _ t t' hresp ht => ?_
  obtain ⟨rfl, tick, hanswer⟩ := hresp
  refine (coupled_ofPy ht _).bind fun body _ t t' hbody ht => ?_
  obtain ⟨rfl, hbody⟩ := hbody
  refine (coupled_ofPy ht _).bind fun data _ t t' hdata ht => ?_
  obtain ⟨rfl, hdata⟩ := hdata
  by_cases htruthy : data.truthy
  · simp only [htruthy, Bool.not_true, Bool.false_eq_true, if_false]
    refine (coupled_ofPy ht _).bind fun items _ t t' hitems ht => ?_
    obtain ⟨rfl, hitems⟩ := hitems
    have hmergers : resp.mergers = items := by
      simp [Response.mergers, hbody, hdata, hitems, bind, Except.bind]
    have hlists : ∀ d ∈ items, env.ListsMerger d := fun d hd =>
      ⟨tick, p.request, resp, hanswer, hmergers ▸ hd⟩
    refine hR.items hp ?_
    rw [← hp]
    exact hR.page Iff.rfl hlists ht
  · simp only [htruthy, Bool.not_false, if_true]
    exact .ok (.leave _ _) ht

theorem run_mergerPoll (env : Env) (fuel : ℕ) (w : World) :
    (mergerPoll env fuel).run w = (whileTrue .stopped (pollRound env) fuel
      ⟨(w.sync .personMerger).mergerWatermark, 0⟩).run w := rfl

/-- Two polls that start in related states end in related states. -/
theorem Lockstep.poll (hR : Lockstep env env' R) (halike : AnswersAlike env env') (fuel : ℕ)
    (h : R w w') :
    Coupled (fun _ _ => True) R ((mergerPoll env fuel).run w)
      ((mergerPoll env' fuel).run w') := by
  rw [run_mergerPoll, run_mergerPoll]
  exact Coupled.whileTrue (fun p p' s s' hp hs => hR.round halike hp hs) fuel
    (hR.watermark h) h

end Lockstep

/-! ## Polls that are stopped -/

/-- Reading the rest of a page comes to a merge that is new in `before`. -/
inductive PageReaches (env : Env) (m : Merge) (before : World) :
    String → ℕ → List Json → World → Prop where
  | here {wm createdAt : String} {fresh : ℕ} {d : Json} {rest : List Json}
      (read : readMerger d = .ok (createdAt, m.id)) (polled : polledMerge m.id d = .ok m)
      (new : ¬ before.knowsMerge m.id) : PageReaches env m before wm fresh (d :: rest) before
  | later {wm : String} {fresh : ℕ} {q : String × ℕ} {d : Json} {rest : List Json} {w w₁ : World}
      (one : (pollOne env wm fresh d).run w = .ok q w₁)
      (reaches : PageReaches env m before q.1 q.2 rest w₁) :
      PageReaches env m before wm fresh (d :: rest) w

/-- The rounds from a cursor on come to a merge that is new in `before`. -/
inductive RoundReaches (env : Env) (m : Merge) (before : World) : PollPass → World → Prop where
  | here {p : PollPass} {w : World} {resp : Response} {body data : Json} {items : List Json}
      (answer : env.respond w.tick p.request = .ok resp) (document : resp.document = .ok body)
      (listed : dataOf body = .ok data) (truthy : data.truthy = true)
      (read : pyItems data = .ok items)
      (page : PageReaches env m before p.wm 0 items (w.asked env p.request)) :
      RoundReaches env m before p w
  | later {p p' : PollPass} {w w₁ : World} (round : (pollRound env p).run w = .ok (.again p') w₁)
      (reaches : RoundReaches env m before p' w₁) : RoundReaches env m before p w

/-- A poll started in `w` comes to the merge, new in `before`. -/
def PollReaches (env : Env) (m : Merge) (w before : World) : Prop :=
  RoundReaches env m before ⟨(w.sync .personMerger).mergerWatermark, 0⟩ w

theorem PageReaches.new {before : World} {wm : String} {fresh : ℕ} {items : List Json}
    (h : PageReaches env m before wm fresh items w) :
    ¬ before.knowsMerge m.id ∧ (∀ id, w.knowsMerge id → before.knowsMerge id) ∧
      before.sync = w.sync := by
  induction h with
  | here read polled new => exact ⟨new, fun _ h => h, rfl⟩
  | later one reaches ih =>
      obtain ⟨hnew, hkept, hsync⟩ := ih
      obtain ⟨-, hkept', -⟩ := pollOne_knows one
      exact ⟨hnew, fun id h => hkept id (hkept' id h), hsync.trans (pollOne_sync one)⟩

/-- A page read again, where it had stopped within a merge, ends as it would have. -/
theorem PageReaches.resumed {before wc : World} {wm : String} {fresh fresh' : ℕ}
    {items : List Json} (h : PageReaches env m before wm fresh items w)
    (halike : AnswersAlike env env') (hlists : ∀ d ∈ items, env.ListsMerger d)
    (hwc : Upto (· = m.gone) (· = m.keep) before wc)
    (hwatermark : (before.sync .personMerger).mergerWatermark =
      (wc.sync .personMerger).mergerWatermark) :
    Coupled SameCursor Level ((pollPage env wm fresh items).run w)
      ((pollPage env' wm fresh' items).run wc) := by
  have hlevel := lockstep_level halike
  induction h with
  | @here wm createdAt fresh d rest read polled new =>
      have hnew' := mt (hwc.knowsMerge m.id).mpr new
      have happlied : Level (before.after (m.apply env)) (wc.after (m.apply env')) := by
        refine ⟨(hwc.apply halike.apiVersion new).mono (fun _ h => h.2 h.1) fun _ h => h.2 h.1, ?_⟩
        rw [sync_apply, sync_apply]
        exact hwatermark
      have hone : Coupled SameCursor Level ((pollOne env wm fresh d).run before)
          ((pollOne env' wm fresh' d).run wc) := by
        rw [World.knowsMerge] at new hnew'
        rw [run_pollOne, run_pollOne]
        simp only [read, new, hnew', Bool.false_eq_true, if_false, polled]
        exact .ok ⟨rfl, by simp⟩ happlied
      refine hone.bind fun q q' t t' hq ht => ?_
      obtain ⟨wm₁, fresh₁⟩ := q
      obtain ⟨wm₂, fresh₂⟩ := q'
      obtain ⟨rfl, hfresh'⟩ := hq
      exact hlevel.page hfresh' (fun d' hd' => hlists d' (by simp [hd'])) ht
  | @later wm fresh q d rest w w₁ one reaches ih =>
      obtain ⟨createdAt, id, hread, hq, -⟩ := pollOne_cases one
      -- What was read before is known by now, and is read again to no effect.
      have hknown : wc.knowsMerge id :=
        (hwc.knowsMerge id).mp (reaches.new.2.1 id
          ((pollOne_knows one).2.2 id (idOf_of_readMerger hread)))
      have hagain : (pollOne env' wm fresh' d).run wc = .ok (q.1, fresh') wc := by
        rw [World.knowsMerge] at hknown
        rw [run_pollOne]
        simp only [hread, hknown, if_true, hq]
      change Coupled _ _ ((pollOne env wm fresh d >>= fun q => pollPage env q.1 q.2 rest).run w)
        ((pollOne env' wm fresh' d >>= fun q => pollPage env' q.1 q.2 rest).run wc)
      rw [run_bind_of_ok one, run_bind_of_ok hagain]
      exact ih (fun d' hd' => hlists d' (by simp [hd']))

theorem run_pollRound_of_page {p : PollPass} {resp : Response} {body data : Json}
    {items : List Json} (answer : env.respond w.tick p.request = .ok resp)
    (document : resp.document = .ok body) (listed : dataOf body = .ok data)
    (truthy : data.truthy = true) (read : pyItems data = .ok items) :
    (pollRound env p).run w = (pollItems env p items).run (w.asked env p.request) := by
  have hget : (clientGet env p.request).run w = .ok resp (w.asked env p.request) := by
    rw [clientGet_run, answer]
  rw [pollRound_eq, run_bind_of_ok hget]
  simp only [document, listed, read, ofPy_ok_bind, truthy, Bool.not_true, Bool.false_eq_true,
    if_false]

/-- A round that goes on has left its cursor in the table. -/
theorem watermark_of_again {p p' : PollPass}
    (h : (pollRound env p).run w = .ok (.again p') w') :
    p'.wm = (w'.sync .personMerger).mergerWatermark := by
  rw [pollRound_eq] at h
  obtain ⟨resp, w₁, -, h⟩ := run_bind_eq_ok.mp h
  obtain ⟨body, w₂, -, h⟩ := run_bind_eq_ok.mp h
  obtain ⟨data, w₃, -, h⟩ := run_bind_eq_ok.mp h
  split_ifs at h
  · cases h
  · obtain ⟨items, w₄, -, h⟩ := run_bind_eq_ok.mp h
    obtain ⟨q, w₅, -, h⟩ := run_bind_eq_ok.mp h
    obtain ⟨⟨⟩, w₆, hset, h⟩ := run_bind_eq_ok.mp h
    cases hset
    split_ifs at h <;> cases h
    rfl

theorem RoundReaches.new {before : World} {p : PollPass}
    (h : RoundReaches env m before p w) : ¬ before.knowsMerge m.id := by
  induction h with
  | here _ _ _ _ _ page => exact page.new.1
  | later _ _ ih => exact ih

/-- A poll that had come to a merge and stopped within it ends, run again, as it would have. -/
theorem RoundReaches.resumed {before wc : World} {p : PollPass}
    (h : RoundReaches env m before p w) (halike : AnswersAlike env env')
    (hp : p.wm = (w.sync .personMerger).mergerWatermark)
    (hwc : Upto (· = m.gone) (· = m.keep) before wc)
    (hwatermark : (before.sync .personMerger).mergerWatermark =
      (wc.sync .personMerger).mergerWatermark) {fuel fuel' : ℕ} (hfuel : fuel ≤ fuel')
    (hends : ∀ w', (whileTrue .stopped (pollRound env) fuel p).run w ≠ .error .stopped w') :
    Coupled (fun _ _ => True) Level ((whileTrue .stopped (pollRound env) fuel p).run w)
      ((mergerPoll env' fuel').run wc) := by
  have hlevel := lockstep_level halike
  induction h generalizing fuel with
  | @here p w resp body data items answer document listed truthy read page =>
      cases fuel with
      | zero => exact absurd rfl (hends w)
      | succ fuel =>
          let p₀ : PollPass := ⟨(wc.sync .personMerger).mergerWatermark, 0⟩
          have hp₀ : p.wm = p₀.wm := by
            have hsync : before.sync = w.sync := page.new.2.2
            rw [hp, ← hsync]
            exact hwatermark
          have hrequest : p₀.request = p.request := by rw [PollPass.request, PollPass.request, hp₀]
          have hanswer : env'.respond wc.tick p₀.request = .ok resp := by
            rw [hrequest, ← halike.respond w.tick, answer]
          have hmergers : resp.mergers = items := by
            simp [Response.mergers, document, listed, read, bind, Except.bind]
          have hpage : Coupled SameCursor Level
              ((pollPage env p.wm 0 items).run (w.asked env p.request))
              ((pollPage env' p.wm 0 items).run (wc.asked env' p₀.request)) :=
            page.resumed halike (fun d hd => ⟨w.tick, p.request, resp, answer, hmergers ▸ hd⟩)
              (hwc.congr rfl rfl rfl rfl) hwatermark
          have hround : Coupled (Pass.Both fun p p' => p.wm = p'.wm) Level
              ((pollRound env p).run w) ((pollRound env' p₀).run wc) := by
            rw [run_pollRound_of_page answer document listed truthy read,
              run_pollRound_of_page hanswer document listed truthy read]
            exact hlevel.items hp₀ (hp₀ ▸ hpage)
          have hloop : Coupled (fun _ _ => True) Level
              ((whileTrue .stopped (pollRound env) (fuel + 1) p).run w)
              ((whileTrue .stopped (pollRound env') (fuel + 1) p₀).run wc) := by
            refine hround.bind fun pass pass' t t' hpass ht => ?_
            cases hpass with
            | again hq =>
                exact Coupled.whileTrue (fun q q' s s' hq hs => hlevel.round halike hq hs) fuel hq ht
            | leave a b => exact .ok trivial ht
          rw [run_mergerPoll, whileTrue_of_le hfuel]
          · exact hloop
          · intro t hstopped
            rw [hstopped] at hloop
            generalize hrun : (whileTrue .stopped (pollRound env) (fuel + 1) p).run w = x at hloop
            cases hloop
            exact hends _ hrun
  | @later p p' w w₁ round reaches ih =>
      cases fuel with
      | zero => exact absurd rfl (hends w)
      | succ fuel =>
          rw [whileTrue, run_bind_of_ok round] at hends ⊢
          exact ih (watermark_of_again round) (by omega) hends

/-! ## Once, and again after a stop -/

theorem SameMerges.told {wc : World} (halike : AnswersAlike env env') {n : Merge}
    (hwc : Upto (· = m.gone) (· = m.keep) w wc) (hnew : ¬ w.knowsMerge m.id)
    (hid : n.id = m.id) (hgone : n.gone = m.gone) (hkeep : n.keep = m.keep) :
    SameMerges (w.told env n) (wc.told env' n) := by
  rw [← hid] at hnew
  have hnew' := mt (hwc.knowsMerge n.id).mpr hnew
  have happly := hwc.apply halike.apiVersion hnew
  rw [World.knowsMerge] at hnew hnew'
  rw [World.told, World.told, if_neg hnew, if_neg hnew']
  exact happly.mono (fun _ h => h.2 (h.1.trans hgone.symm)) fun _ h => h.2 (h.1.trans hkeep.symm)

/-- A delivery of a merge that was stopped within leaves what it would have left before. -/
theorem delivery_resumed {wc : World} (halike : AnswersAlike env env') {n : Merge}
    (hwc : Upto (· = m.gone) (· = m.keep) w wc) (hnew : ¬ w.knowsMerge m.id)
    (hid : n.id = m.id) (hgone : n.gone = m.gone) (hkeep : n.keep = m.keep) {ev : WebhookEvent}
    (hev : Brings ev n) (eventId : String) :
    SameMerges (w.after (processEvent env eventId ev)) (wc.after (processEvent env' eventId ev)) := by
  obtain ⟨hdb, hhydration, -⟩ := after_processEvent hev env eventId w
  obtain ⟨hdb', hhydration', -⟩ := after_processEvent hev env' eventId wc
  exact (SameMerges.told halike hwc hnew hid hgone hkeep).congr hdb hhydration hdb' hhydration'

theorem coupled_after {α β : Type} {V : α → β → Prop} {R : World → World → Prop} {p : Proc α}
    {q : Proc β} (h : Coupled V R (p.run w) (q.run w')) : R (w.after p) (w'.after q) := by
  rw [World.after, World.after]
  generalize p.run w = x, q.run w' = y at h
  cases h with
  | ok _ h => exact h
  | error _ h => exact h

/-- Over any calls each merge told of is applied once; and where the process stopped within
an application, what the next call leaves is what it would have left without the stop. -/
theorem merges_exactly_once :
    (∀ (calls : List MergeCall) (w : World), (∀ call ∈ calls, call.Whole) →
      ∃ ms, Applied w ms (Run.exec MergeCall.run w calls) ∧ (ms.map Merge.id).Nodup ∧
        (∀ id ∈ ms.map Merge.id, ¬ w.knowsMerge id) ∧
        ∀ pre call post id, calls = pre ++ call :: post →
          call.Tells (Run.exec MergeCall.run w pre) id → ¬ w.knowsMerge id →
          id ∈ ms.map Merge.id) ∧
    ∀ (env env' : Env) (m : Merge) (k : ℕ) (w : World), AnswersAlike env env' → k < 3 →
      ¬ w.knowsMerge m.id →
      (∀ (eventId : String) (ev : WebhookEvent) (n : Merge), Brings ev n → n.id = m.id →
        n.gone = m.gone → n.keep = m.keep →
        SameMerges (w.after (processEvent env eventId ev))
          ((w.after (m.upTo env k)).after (processEvent env' eventId ev))) ∧
      (∀ fuel, env.Names m → (w.after (mergerPoll env fuel)).knowsMerge m.id →
        SameMerges (w.after (mergerPoll env fuel))
          ((w.after (m.upTo env k)).after (mergerPoll env' fuel))) ∧
      ∀ (start : World) (fuel fuel' : ℕ), PollReaches env m start w → fuel ≤ fuel' →
        (∀ w', (mergerPoll env fuel).run start ≠ .error .stopped w') →
        SameMerges (start.after (mergerPoll env fuel))
          ((w.after (m.upTo env k)).after (mergerPoll env' fuel')) := by
  refine ⟨fun calls w hcalls => applied_once calls hcalls w, ?_⟩
  intro env env' m k w halike hk hnew
  have hcut := upto_upTo env m hk w
  have hwatermark : (w.sync .personMerger).mergerWatermark =
      ((w.after (m.upTo env k)).sync .personMerger).mergerWatermark := by
    match k with
    | 0 => rfl
    | 1 => rfl
    | 2 => rfl
  refine ⟨fun eventId ev n hev hid hgone hkeep => ?_, fun fuel hnames hknown => ?_,
    fun start fuel fuel' hreaches hfuel hends => ?_⟩
  · exact delivery_resumed halike hcut hnew hid hgone hkeep hev eventId
  · have htrailing : Trailing m w (w.after (m.upTo env k)) :=
      ⟨hcut.mono (fun _ h => ⟨h, hnew⟩) fun _ h => ⟨h, hnew⟩, hwatermark⟩
    have hafter := coupled_after ((lockstep_trailing halike hnames).poll halike fuel htrailing)
    exact hafter.upto.mono (fun _ h => h.2 hknown) fun _ h => h.2 hknown
  · rw [run_mergerPoll] at hends
    have hresumed := hreaches.resumed halike rfl hcut hwatermark hfuel hends
    exact (coupled_after hresumed).same

/-- A merge of two people, as the log of mergers lists it. -/
def exampleMerger : Json :=
  .obj [("type", .str "PersonMerger"), ("id", .str "9"), ("attributes", .obj [
    ("created_at", .str "2026-03-01T00:00:00Z"), ("person_to_keep_id", .int 1),
    ("person_to_remove_id", .int 2)])]

def exampleMerge (source : Source) : Merge :=
  ⟨"9", "1", "2", exampleMerger, source⟩

def exampleMergerEnv : Env where
  respond _ _ := .ok ⟨200, .json (.obj [("data", .arr [exampleMerger])])⟩
  now _ := "2026-03-02T00:00:00Z"
  apiVersion := "2025-11-10"

def exampleMergeEvent : WebhookEvent where
  eventName := "people.v2.events.person_merger.created"
  resourceType := "person_merger"
  action := "created"
  payload := .json (.obj [("data", exampleMerger)])

theorem exampleMergeEvent_brings : Brings exampleMergeEvent (exampleMerge .webhook) :=
  ⟨rfl, _, exampleMerger, rfl, rfl, ⟨.str "9", rfl, rfl⟩, rfl, rfl, rfl, rfl, rfl⟩

theorem exampleMerger_polled : polledMerge "9" exampleMerger = .ok (exampleMerge .reconcile) := rfl

theorem exampleMergerEnv_reaches :
    PollReaches exampleMergerEnv (exampleMerge .reconcile) {}
      (World.asked {} exampleMergerEnv (PollPass.request ⟨"", 0⟩)) :=
  .here rfl rfl rfl rfl rfl (.here rfl rfl (by simp [World.knowsMerge, World.asked]; decide))

theorem exampleMergerEnv_names : exampleMergerEnv.Names (exampleMerge .reconcile) := by
  rintro d ⟨tick, request, resp, hanswer, hd⟩ - n hpolled
  cases hanswer
  have hmergers : Response.mergers ⟨200, .json (.obj [("data", .arr [exampleMerger])])⟩ =
      [exampleMerger] := rfl
  obtain rfl : d = exampleMerger := by simpa [hmergers] using hd
  cases exampleMerger_polled.symm.trans hpolled
  exact ⟨rfl, rfl⟩

/-- A delivery, its redelivery and a poll; and a poll stopped after its tombstone. -/
theorem exampleMergerPoll_ends : (match (mergerPoll exampleMergerEnv 2).run {} with
    | .ok _ _ => true
    | .error _ _ => false) = true := by
  decide +kernel

theorem merges_exactly_once_oneMerge :
    (∃ ms, Applied {} ms (Run.exec MergeCall.run {}
        [.deliver exampleMergerEnv "1" exampleMergeEvent,
          .deliver exampleMergerEnv "2" exampleMergeEvent, .poll exampleMergerEnv 2]) ∧
      (ms.map Merge.id).Nodup) ∧
    ∀ w, w = World.asked {} exampleMergerEnv (PollPass.request ⟨"", 0⟩) →
      SameMerges (w.after (processEvent exampleMergerEnv "1" exampleMergeEvent))
        ((w.after ((exampleMerge .reconcile).upTo exampleMergerEnv 1)).after
          (processEvent exampleMergerEnv "1" exampleMergeEvent)) ∧
      SameMerges (w.after (mergerPoll exampleMergerEnv 2))
        ((w.after ((exampleMerge .reconcile).upTo exampleMergerEnv 1)).after
          (mergerPoll exampleMergerEnv 2)) ∧
      SameMerges (World.after {} (mergerPoll exampleMergerEnv 2))
        ((w.after ((exampleMerge .reconcile).upTo exampleMergerEnv 1)).after
          (mergerPoll exampleMergerEnv 2)) := by
  obtain ⟨honce, hresumed⟩ := merges_exactly_once
  refine ⟨?_, ?_⟩
  · obtain ⟨ms, happlied, hnodup, -⟩ := honce
      [.deliver exampleMergerEnv "1" exampleMergeEvent,
        .deliver exampleMergerEnv "2" exampleMergeEvent, .poll exampleMergerEnv 2] {} (by
        intro call hcall
        simp only [List.mem_cons, List.not_mem_nil, or_false] at hcall
        obtain rfl | rfl | rfl := hcall
        · exact ⟨_, exampleMergeEvent_brings⟩
        · exact ⟨_, exampleMergeEvent_brings⟩
        · exact trivial)
    exact ⟨ms, happlied, hnodup⟩
  · rintro w rfl
    obtain ⟨hdelivery, hpoll, hpollAgain⟩ := hresumed exampleMergerEnv exampleMergerEnv
      (exampleMerge .reconcile) 1 _ ⟨fun _ _ _ => rfl, rfl⟩ (by decide)
      exampleMergerEnv_reaches.new
    refine ⟨hdelivery "1" _ _ exampleMergeEvent_brings rfl rfl rfl,
      hpoll 2 exampleMergerEnv_names ?_, hpollAgain {} 2 2 exampleMergerEnv_reaches le_rfl ?_⟩
    · unfold World.knowsMerge
      decide +kernel
    · intro w' hstopped
      have hends := exampleMergerPoll_ends
      rw [hstopped] at hends
      cases hends

end PcoMirror
