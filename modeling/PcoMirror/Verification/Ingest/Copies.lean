import Mathlib.Logic.Relation
import PcoMirror.Verification.Ingest.HeadOfLine
import PcoMirror.Verification.Ingest.Rereads
import PcoMirror.Verification.Writer.Orphans
import PcoMirror.Verification.Writer.Staying

/-! What a drain leaves stored: of each record asked for the copy PCO serves, and of every other
the copy it had or one PCO served beside. -/

namespace PcoMirror

open Program

variable {env : Env} {id : String} {asked : List String} {resp : Response} {record : Json}
  {included : List Json} {r : Res}

/-! ## What PCO serves -/

/-- An answer to the re-read of a record, as a compound document is made, in a form that can
be read. -/
structure IsAnswer (r : Res) (id : String) (resp : Response) (record : Json)
    (included : List Json) : Prop where
  ok : resp.ok = true
  record_eq : recordOf resp = .ok (some record)
  included_eq : (resp.document >>= pageIncluded) = .ok included
  person : r = .person → (∃ uat, IsRecord .person id uat record) ∧ Succeeds (relatedIds record)
  resource : ∀ d ∈ included, ∃ type k, IsResource d type k
  routable : ∀ d ∈ included, Succeeds (routeTarget d (some (ownerHint r id)) [])

/-- Every re-read is answered, with the record or with its absence. -/
def Env.Answers (env : Env) : Prop :=
  ∀ tick r id asked, ∃ resp, env.respond tick (.record r id asked) = .ok resp ∧
    (resp.status = 404 ∨ ∃ record included, IsAnswer r id resp record included)

/-- A copy that some answer to a re-read carries, in the form it is stored in. -/
inductive Env.Offers (env : Env) : Res → String → Json → Prop
  | record {tick : ℕ} {r : Res} {id : String} {asked : List String} {resp : Response}
      {record : Json} {included : List Json}
      (hresp : env.respond tick (.record r id asked) = .ok resp)
      (hanswer : IsAnswer r id resp record included) : Offers env r id record
  | sideload {tick : ℕ} {r : Res} {id : String} {asked : List String} {resp : Response}
      {record : Json} {included : List Json} {d : Json} {t : Res} {k : String} {stored : Json}
      (hresp : env.respond tick (.record r id asked) = .ok resp)
      (hanswer : IsAnswer r id resp record included) (hd : d ∈ included)
      (htarget : routeTarget d (some (ownerHint r id)) [] = .ok (some (t, k, stored))) :
      Offers env t k stored

/-- PCO answers that the record is not there. -/
def Env.Lacks (env : Env) (r : Res) (id : String) : Prop :=
  ∃ tick asked resp, env.respond tick (.record r id asked) = .ok resp ∧ resp.status = 404

/-- PCO answers for a person without the child, neither sideloading nor naming it. -/
def Env.LeavesOut (env : Env) (id : String) (child : Res) (k : String) : Prop :=
  ∃ tick asked resp record included, env.respond tick (.record .person id asked) = .ok resp ∧
    IsAnswer .person id resp record included ∧ ¬ Sideloads included child k ∧
      ¬ Claims record child k

/-! ## What a re-read does to the tables -/

/-- What a re-read records beside a document. -/
def Env.stamp (env : Env) (tick : ℕ) : Stamp :=
  ⟨.reconcile, env.apiVersion, env.now tick⟩

/-- What is done about the record asked for. -/
inductive Env.Stores (env : Env) : Res → String → Db → Db → Prop
  | routed {id : String} {raw : Json} {db : Db} (tick : ℕ) (hoffers : env.Offers .person id raw) :
      Stores env .person id db (write .person id raw (env.stamp tick) db)
  | confirmed {r : Res} {id : String} {raw : Json} {db : Db} (tick : ℕ) (hr : r ≠ .person)
      (hoffers : env.Offers r id raw) :
      Stores env r id db (confirmLive r id raw (env.stamp tick) db)
  | absent {r : Res} {id : String} {db : Db} (tick : ℕ) (hlacks : env.Lacks r id) :
      Stores env r id db (tombstone r id none .auditAbsent none (env.now tick) db)

/-- What is done beside: a sideloaded resource is routed, a child left out is tombstoned. -/
inductive Env.Follows (env : Env) : Db → Db → Prop
  | sideloaded {t : Res} {k : String} {stored : Json} {db : Db} (tick : ℕ)
      (hoffers : env.Offers t k stored) : Follows env db (write t k stored (env.stamp tick) db)
  | leftOut {child : Res} {id k : String} {row : Row} {db : Db} (tick : ℕ)
      (hchild : child.info.ownerRel = some "person") (hrow : db.row? child k = some row)
      (hnames : child.column "person_pco_id" row.raw = some id)
      (hleft : env.LeavesOut id child k) :
      Follows env db (tombstone child k none .absent none (env.now tick) db)

/-- A re-read of a record. -/
def Env.Rereads (env : Env) (r : Res) (id : String) (db db' : Db) : Prop :=
  ∃ db₁, env.Stores r id db db₁ ∧ Relation.ReflTransGen env.Follows db₁ db'

/-- Re-reads of some records, one after another. -/
inductive Env.RereadsAll (env : Env) : List (Res × String) → Db → Db → Prop
  | nil (db : Db) : RereadsAll env [] db db
  | cons {key : Res × String} {keys : List (Res × String)} {db db₁ db' : Db}
      (hfirst : env.Rereads key.1 key.2 db db₁) (hrest : RereadsAll env keys db₁ db') :
      RereadsAll env (key :: keys) db db'

variable {w : World}

theorem run_sideloads_follows {tick : ℕ} (hresp : env.respond tick (.record r id asked) = .ok resp)
    (hanswer : IsAnswer r id resp record included) {ds : List Json} (hds : ds ⊆ included)
    (w : World) : ∃ w', (forEach (routeOne env .reconcile (some (ownerHint r id)) []) ds).run w =
      .ok () w' ∧ Relation.ReflTransGen env.Follows w.db w'.db := by
  induction ds generalizing w with
  | nil => exact ⟨w, rfl, .refl⟩
  | cons d ds ih =>
      have hd : d ∈ included := hds (by simp)
      obtain ⟨target, htarget⟩ := hanswer.routable d hd
      have hfirst : Relation.ReflTransGen env.Follows w.db
          (w.routedOne env .reconcile (some (ownerHint r id)) [] d).db := by
        simp only [World.routedOne, routed, htarget]
        cases target with
        | none => exact .refl
        | some target =>
            obtain ⟨t, k, stored⟩ := target
            exact .single (.sideloaded _ (.sideload hresp hanswer hd htarget))
      obtain ⟨w', hrun, hrest⟩ := ih (List.cons_subset.mp hds).2 _
      exact ⟨w', by rw [forEach, run_bind_of_ok (routeOne_run htarget ..), hrun],
        hfirst.trans hrest⟩

/-- The raw document of a child stays where others are tombstoned. -/
theorem run_absent_follows {child : Res} (hchild : child.info.ownerRel = some "person")
    (ids : List String) (hleft : ∀ k ∈ ids, env.LeavesOut id child k) (w : World)
    (hnames : ∀ k ∈ ids, ∃ row, w.db.row? child k = some row ∧
      child.column "person_pco_id" row.raw = some id) :
    ∃ w', (forEach (fun k => tombstoneOne env child k none .absent) ids).run w = .ok () w' ∧
      Relation.ReflTransGen env.Follows w.db w'.db := by
  induction ids generalizing w with
  | nil => exact ⟨w, rfl, .refl⟩
  | cons k ids ih =>
      obtain ⟨row, hrow, hcolumn⟩ := hnames k (by simp)
      let w₁ := World.bury { w with tick := w.tick + 1 } child k none .absent none (env.now w.tick)
      have hfirst : env.Follows w.db w₁.db :=
        .leftOut w.tick hchild hrow hcolumn (hleft k (by simp))
      have hlater : ∀ k' ∈ ids, ∃ row, w₁.db.row? child k' = some row ∧
          child.column "person_pco_id" row.raw = some id := by
        intro k' hk'
        obtain ⟨row, hrow, hcolumn⟩ := hnames k' (by simp [hk'])
        obtain ⟨row', hrow', hraw, -⟩ := row_after_tombstone child k none .absent none
          (env.now w.tick) hrow
        exact ⟨row', hrow', hraw ▸ hcolumn⟩
      obtain ⟨w', hrun, hrest⟩ := ih (fun k' hk' => hleft k' (by simp [hk'])) w₁ hlater
      exact ⟨w', by rw [forEach, run_bind_of_ok (tombstoneOne_run ..), hrun],
        .head hfirst hrest⟩

theorem run_includeDiff_follows {tick : ℕ}
    (hresp : env.respond tick (.record .person id asked) = .ok resp)
    (hanswer : IsAnswer .person id resp record included) (requested : List String) (w : World) :
    ∃ w', (includeDiff env included requested record).run w = .ok () w' ∧
      Relation.ReflTransGen env.Follows w.db w'.db := by
  obtain ⟨⟨uat, hrecord⟩, claimed, hclaimed⟩ := hanswer.person rfl
  obtain ⟨present, hpresent, hmem⟩ := presentChildren_of_resource hanswer.resource
  rw [includeDiff_eq hrecord.id_eq hclaimed hpresent]
  have hloop : ∀ (children : List Res), (∀ child ∈ children, child.info.ownerRel = some "person") →
      ∀ w : World, ∃ w', (forEach (fun child => diffChild env id (fun k =>
        present.contains (child, .str k) || claimed.contains (some (.str child.info.type), k)) child)
        children).run w = .ok () w' ∧ Relation.ReflTransGen env.Follows w.db w'.db := by
    intro children hchildren
    induction children with
    | nil => exact fun w => ⟨w, rfl, .refl⟩
    | cons child children ih =>
        intro w
        have hchild := hchildren child (by simp)
        obtain ⟨w₁, hrun₁, hfirst⟩ := run_absent_follows hchild
          ((w.db.select child fun _ row =>
            row.live && child.column "person_pco_id" row.raw == some id).filter fun k =>
              !(present.contains (child, .str k) ||
                claimed.contains (some (.str child.info.type), k))) (by
            intro k hk
            have hnot := (List.mem_filter.mp hk).2
            simp only [Bool.not_eq_true', Bool.or_eq_false_iff] at hnot
            refine ⟨tick, asked, resp, record, included, hresp, hanswer, fun hside => ?_, ?_⟩
            · rw [← hmem child hchild k, ← List.contains_iff_mem, hnot.1] at hside
              cases hside
            · rintro ⟨claimed', hclaimed', hclaims⟩
              cases hclaimed.symm.trans hclaimed'
              rw [← List.contains_iff_mem, hnot.2] at hclaims
              cases hclaims) w (by
            intro k hk
            obtain ⟨row, hrow, hheld⟩ := Db.mem_select.mp (List.mem_filter.mp hk).1
            simp only [Bool.and_eq_true, beq_iff_eq] at hheld
            exact ⟨row, hrow, hheld.2⟩)
        obtain ⟨w', hrun', hrest⟩ := ih (fun c hc => hchildren c (by simp [hc])) w₁
        refine ⟨w', ?_, hfirst.trans hrest⟩
        rw [forEach, run_bind_of_ok (show (diffChild env id _ child).run w = .ok () w₁ from hrun₁),
          hrun']
  exact hloop _ (fun child => ownerRel_of_mem_askedChildren) w

/-- A re-read that is answered returns, after the record and what comes beside it. -/
theorem run_hydrate (hanswers : env.Answers) (r : Res) (id : String) (asked : List String)
    (w : World) :
    ∃ w', (hydrate env r id asked).run w = .ok () w' ∧ env.Rereads r id w.db w'.db := by
  obtain ⟨resp, hresp, habsent | ⟨record, included, hanswer⟩⟩ := hanswers w.tick r id asked
  · rw [hydrate, clientGet_bind_run hresp, hydrateAnswer, if_pos habsent, tombstoneOne_run]
    exact ⟨_, rfl, _, .absent _ ⟨w.tick, asked, resp, hresp, habsent⟩, .refl⟩
  · have hstatus : resp.status ≠ 404 := by
      intro heq
      have hok := hanswer.ok
      simp [Response.ok, heq] at hok
    obtain ⟨w₁, hrun₁, hstores⟩ : ∃ w₁, (storeHydrated env r id resp.status record).run
        (w.asked env (.record r id asked)) = .ok () w₁ ∧ env.Stores r id w.db w₁.db := by
      by_cases hperson : r = .person
      · subst hperson
        obtain ⟨⟨uat, hrecord⟩, -⟩ := hanswer.person rfl
        refine ⟨_, routeOne_run hrecord.routeTarget env .reconcile _, ?_⟩
        simp only [World.routedOne, routed, hrecord.routeTarget]
        exact .routed _ (.record hresp hanswer)
      · rw [storeHydrated, if_neg hperson]
        exact ⟨_, rfl, .confirmed _ hperson (.record hresp hanswer)⟩
    obtain ⟨w₂, hrun₂, hsideloaded⟩ :=
      run_sideloads_follows hresp hanswer (List.Subset.refl _) w₁
    obtain ⟨w', hrun', hleft⟩ : ∃ w', (if r = .person then includeDiff env included asked record
        else pure ()).run w₂ = .ok () w' ∧ Relation.ReflTransGen env.Follows w₂.db w'.db := by
      by_cases hperson : r = .person
      · subst hperson
        rw [if_pos rfl]
        exact run_includeDiff_follows hresp hanswer asked w₂
      · rw [if_neg hperson]
        exact ⟨w₂, rfl, .refl⟩
    refine ⟨w', ?_, w₁.db, hstores, hsideloaded.trans hleft⟩
    rw [hydrate, clientGet_bind_run hresp, hydrateAnswer, if_neg hstatus, if_pos hanswer.ok,
      hanswer.record_eq]
    simp only [ofPy, pure_bind, whenSome]
    rw [run_bind_of_ok hrun₁, hanswer.included_eq]
    simp only [pure_bind]
    exact (run_bind_of_ok hrun₂ _).trans hrun'

theorem run_drainTasks (hanswers : env.Answers) (rows : List DueTask) (w : World) :
    ∃ w', (forEach (drainTask env) rows).run w = .ok () w' ∧
      env.RereadsAll (rows.map fun task => (task.r, task.id)) w.db w'.db := by
  induction rows generalizing w with
  | nil => exact ⟨w, rfl, .nil _⟩
  | cons task rows ih =>
      obtain ⟨w₁, hrun₁, hfirst⟩ := run_hydrate hanswers task.r task.id task.includes w
      obtain ⟨w', hrun', hrest⟩ := ih (w₁.dequeue task.r task.id)
      refine ⟨w', ?_, .cons hfirst hrest⟩
      have hdrain : (drainTask env task).run w = .ok () (w₁.dequeue task.r task.id) := by
        rw [drainTask, run_bind_of_ok hrun₁]
        rfl
      rw [forEach, run_bind_of_ok hdrain, hrun']

/-- A drain re-reads the records it has due. -/
theorem drainHydration_rereads (hanswers : env.Answers) (limit : ℕ) (w : World) :
    env.RereadsAll ((w.dueTasks (env.now w.tick) limit).map fun task => (task.r, task.id)) w.db
      (w.after (drainHydration env limit)).db := by
  obtain ⟨w', hrun, hrereads⟩ := run_drainTasks hanswers (w.dueTasks (env.now w.tick) limit)
    { w with tick := w.tick + 1 }
  rw [drainHydration_after, World.after_of_run hrun]
  exact hrereads

/-! ## Copies -/

/-- The resources looked at have timestamps and no owner, and PCO's copies of them are good.
Over a copy that is not, the guard takes PCO's copy of a person, and any that brings its row back
to life. -/
structure Supplies (env : Env) (watched : Res → Prop) (good : Res → String → Json → Prop)
    (db₀ : Db) : Prop where
  timestamped : ∀ t, watched t → t.info.timestamped = true
  unowned : ∀ t, watched t → ∀ u, ownedFk u t = none
  offers : ∀ t k stored, watched t → env.Offers t k stored → good t k stored
  yields : ∀ t k row stored, watched t → db₀.row? t k = some row → ¬ good t k row.raw →
    env.Offers t k stored → (t = .person ∨ row.revivedBy stored = true ∨ row.uat = none) →
    ¬ Refused row.raw stored

/-- A row holds what it held, is live only if it was, and is brought back only by what would
have brought it back, or by what is newer. -/
structure Row.Stands (row row₀ : Row) : Prop where
  raw_eq : row.raw = row₀.raw
  live : row.live = true → row₀.live = true
  revived : ∀ stored, row.revivedBy stored = true → row₀.revivedBy stored = true ∨
    Sql.gt (pcoUpdatedAt stored) row₀.uat = true ∨ row₀.uat = none

theorem Row.Stands.refl (row : Row) : row.Stands row :=
  ⟨rfl, id, fun _ h => .inl h⟩

/-- A copy the guard leaves aside changes nothing of it. -/
theorem Row.Stands.upsert {row row₀ : Row} (h : row.Stands row₀) {stored : Json}
    (hraw : upsertRaw row.raw stored = row.raw) (hrevived : row.revivedBy stored = false)
    (stamp : Stamp) (value : TypedValue) :
    ((row.upsert stored stamp).withTyped value).Stands row₀ where
  raw_eq := hraw.trans h.raw_eq
  live := by
    intro hlive
    apply h.live
    simpa [Row.live, Row.upsert, Row.withTyped, hrevived] using hlive
  revived := by
    intro stored' hstored'
    simp only [Row.upsert, Row.withTyped, hrevived, Bool.false_eq_true, if_false, false_and]
      at hstored'
    exact h.revived stored' hstored'

/-- A tombstone without evidence sets the bar at the document's own time. -/
theorem Row.Stands.tombstone {row row₀ : Row} (h : row.Stands row₀) (reason : Reason)
    (mergedInto : Option String) (now : String) :
    (row.tombstone none reason mergedInto now).Stands row₀ where
  raw_eq := h.raw_eq
  live := nofun
  revived := by
    intro stored hstored
    have huat : row.uat = row₀.uat := congrArg pcoUpdatedAt h.raw_eq
    rw [← huat]
    cases hrow : row.uat with
    | none => exact .inr (.inr rfl)
    | some uat =>
        refine .inr (.inl ?_)
        simp only [Row.revivedBy, Bool.and_eq_true] at hstored
        have hbar := hstored.2
        simpa only [Row.tombstone, Row.tombstoneTime, hrow, Option.none_or, Option.getD_some]
          using hbar

/-- Every copy is good, or it is as it was and not yet re-read. -/
def Db.Kept (watched : Res → Prop) (good : Res → String → Json → Prop) (db₀ : Db)
    (done : List (Res × String)) (db : Db) : Prop :=
  ∀ t k row, watched t → db.row? t k = some row → good t k row.raw ∨
    ∃ row₀, db₀.row? t k = some row₀ ∧ row.Stands row₀ ∧ (row.live = true → (t, k) ∉ done)

variable {watched : Res → Prop} {good : Res → String → Json → Prop} {db₀ db db' : Db}
  {done : List (Res × String)}

theorem Db.Kept.refl : db₀.Kept watched good [] db₀ :=
  fun _ _ row _ hrow => .inr ⟨row, hrow, .refl row, fun _ => List.not_mem_nil⟩

theorem Db.Kept.of_rows (h : db₀.Kept watched good done db)
    (hrows : ∀ t k, watched t → db'.row? t k = db.row? t k) : db₀.Kept watched good done db' :=
  fun t k row ht hrow => h t k row ht ((hrows t k ht).symm.trans hrow)

/-- A record that comes to hold a good copy, or to be tombstoned, is done. -/
theorem Db.Kept.finish {t : Res} {k : String} (h : db₀.Kept watched good done db)
    (hhere : watched t → ∀ row, db'.row? t k = some row → good t k row.raw ∨
      ∃ row₀, db₀.row? t k = some row₀ ∧ row.Stands row₀ ∧ row.live = false)
    (hothers : ∀ u k', watched u → ¬ (u = t ∧ k' = k) → db'.row? u k' = db.row? u k') :
    db₀.Kept watched good ((t, k) :: done) db' := by
  intro u k' row hu hrow
  by_cases hself : u = t ∧ k' = k
  · obtain ⟨rfl, rfl⟩ := hself
    rcases hhere hu row hrow with hgood | ⟨row₀, hrow₀, hstands, hdead⟩
    · exact .inl hgood
    · refine .inr ⟨row₀, hrow₀, hstands, fun hlive => ?_⟩
      rw [hdead] at hlive
      cases hlive
  · rw [hothers u k' hu hself] at hrow
    rcases h u k' row hu hrow with hgood | ⟨row₀, hrow₀, hstands, hundone⟩
    · exact .inl hgood
    · refine .inr ⟨row₀, hrow₀, hstands, fun hlive => ?_⟩
      rintro (_ | ⟨_, hmem⟩)
      · exact hself ⟨rfl, rfl⟩
      · exact hundone hlive hmem

/-! ## Writes -/

/-- The row an upsert of a copy PCO serves leaves. -/
theorem Db.Kept.of_upsert (h : db₀.Kept watched good done db)
    (hsupplies : Supplies env watched good db₀) {t : Res} {k : String} {stored : Json}
    (hoffers : env.Offers t k stored) (stamp : Stamp) (ht : watched t) {row : Row}
    (hrow : (write t k stored stamp db).row? t k = some row) : good t k row.raw ∨
      ∃ held row₀ value, db.row? t k = some held ∧ db₀.row? t k = some row₀ ∧
        held.Stands row₀ ∧ ¬ good t k row₀.raw ∧ Refused row₀.raw stored ∧
        held.revivedBy stored = false ∧
        row = (held.upsert stored stamp).withTyped value ∧ (held.live = true → (t, k) ∉ done) := by
  have hgood := hsupplies.offers t k stored ht hoffers
  rw [PcoMirror.write, if_pos (hsupplies.timestamped t ht)] at hrow
  obtain ⟨value, hvalue⟩ := row?_upsert_self t k stored stamp db
  cases hrow.symm.trans hvalue
  cases hheld : db.row? t k with
  | none => exact .inl hgood
  | some held =>
      have htaken : ∀ raw, upsertRaw raw stored = stored → held.raw = raw →
          good t k (upsertRaw held.raw stored) := by
        intro raw htaken hraw
        rwa [hraw, htaken]
      rcases h t k held ht hheld with hkept | ⟨row₀, hrow₀, hstands, hundone⟩
      · refine .inl ?_
        change good t k (upsertRaw held.raw stored)
        rcases upsertRaw_eq_or held.raw stored with heq | heq
        · rwa [heq]
        · rwa [heq]
      · by_cases hkept : good t k row₀.raw
        · refine .inl ?_
          change good t k (upsertRaw held.raw stored)
          rcases upsertRaw_eq_or held.raw stored with heq | heq
          · rwa [heq, hstands.raw_eq]
          · rwa [heq]
        by_cases hrefused : Refused row₀.raw stored
        · cases hrevived : held.revivedBy stored with
          | false =>
              exact .inr ⟨held, row₀, value, rfl, hrow₀, hstands, hkept, hrefused, hrevived, rfl,
                hundone⟩
          | true =>
              have hyields := hsupplies.yields t k row₀ stored ht hrow₀ hkept hoffers
              rcases hstands.revived stored hrevived with hback | hnewer | hnone
              · exact absurd hrefused (hyields (.inr (.inl hback)))
              · exact .inl (htaken _ (upsertRaw_of_gt hnewer) hstands.raw_eq)
              · exact absurd hrefused (hyields (.inr (.inr hnone)))
        · exact .inl (htaken _ (upsertRaw_of_not_refused hrefused) hstands.raw_eq)

/-- The guard puts PCO's copy in place of the one stored, or leaves all as it is. -/
theorem Db.Kept.write (h : db₀.Kept watched good done db)
    (hsupplies : Supplies env watched good db₀) {t : Res} {k : String} {stored : Json}
    (hoffers : env.Offers t k stored) (stamp : Stamp) :
    db₀.Kept watched good done (write t k stored stamp db) := by
  intro u k' row hu hrow
  by_cases hself : u = t ∧ k' = k
  · obtain ⟨rfl, rfl⟩ := hself
    rcases h.of_upsert hsupplies hoffers stamp hu hrow with hgood |
      ⟨held, row₀, value, -, hrow₀, hstands, -, hrefused, hrevived, rfl, hundone⟩
    · exact .inl hgood
    · have hraw : upsertRaw held.raw stored = held.raw := by
        rw [hstands.raw_eq]
        exact upsertRaw_of_refused hrefused
      refine .inr ⟨row₀, hrow₀, hstands.upsert hraw hrevived stamp value, fun hlive => hundone ?_⟩
      simpa [Row.live, Row.upsert, Row.withTyped, hrevived] using hlive
  · rw [row?_write_apart_row (hsupplies.unowned u hu t) hself stored stamp db] at hrow
    exact h u k' row hu hrow

/-- Of a person the guard takes the copy. -/
theorem Db.Kept.write_person (h : db₀.Kept watched good done db)
    (hsupplies : Supplies env watched good db₀) {k : String} {stored : Json}
    (hoffers : env.Offers .person k stored) (stamp : Stamp) :
    db₀.Kept watched good ((.person, k) :: done) (PcoMirror.write .person k stored stamp db) := by
  refine h.finish (fun ht row hrow => .inl ?_) fun u k' hu hother =>
    row?_write_apart_row (hsupplies.unowned u hu .person) hother stored stamp db
  rcases h.of_upsert hsupplies hoffers stamp ht hrow with hgood |
    ⟨held, row₀, value, -, hrow₀, -, hwrong, hrefused, -⟩
  · exact hgood
  · exact absurd hrefused (hsupplies.yields .person k row₀ stored ht hrow₀ hwrong hoffers (.inl rfl))

theorem Db.Kept.confirmLive (h : db₀.Kept watched good done db)
    (hsupplies : Supplies env watched good db₀) {t : Res} {k : String} {stored : Json}
    (hoffers : env.Offers t k stored) (stamp : Stamp) :
    db₀.Kept watched good ((t, k) :: done) (confirmLive t k stored stamp db) := by
  refine h.finish (fun ht row hrow => .inl ?_) fun u k' hu hother => ?_
  · obtain ⟨value, hvalue⟩ := row?_confirmLive_self t k stored stamp db
    cases hrow.symm.trans hvalue
    have hraw : ((confirmed stored stamp (db.row? t k)).withTyped value).raw = stored := by
      cases db.row? t k <;> rfl
    rw [hraw]
    exact hsupplies.offers t k stored ht hoffers
  · rw [confirmLive_eq, row?_settle_apart (hsupplies.unowned u hu t) hother, Db.row?_put,
      if_neg hother]

theorem Db.Kept.tombstone (h : db₀.Kept watched good done db)
    (hsupplies : Supplies env watched good db₀) (t : Res) (k : String) (reason : Reason)
    (now : String) :
    db₀.Kept watched good ((t, k) :: done) (tombstone t k none reason none now db) := by
  refine h.finish (fun ht row hrow => ?_) fun u k' hu hother => ?_
  · rw [row?_tombstone_self] at hrow
    obtain ⟨held, hheld, rfl⟩ := Option.map_eq_some_iff.mp hrow
    have hguard : held.tombstoned (stableTs none) reason none now =
        held.tombstone none reason none now := if_pos (Row.tombstoneGuard_none held reason)
    rw [hguard]
    rcases h t k held ht hheld with hgood | ⟨row₀, hrow₀, hstands, -⟩
    · exact .inl hgood
    · exact .inr ⟨row₀, hrow₀, hstands.tombstone reason none now, rfl⟩
  · rw [row?_tombstone, if_neg hother, hsupplies.unowned u hu t, ite_self]

/-! ## Re-reads -/

/-- What is done about a record leaves PCO's copy of it, or a tombstone. -/
theorem Db.Kept.stores (h : db₀.Kept watched good done db)
    (hsupplies : Supplies env watched good db₀) {r : Res} {id : String}
    (hstores : env.Stores r id db db') : db₀.Kept watched good ((r, id) :: done) db' := by
  cases hstores with
  | routed _ hoffers => exact h.write_person hsupplies hoffers _
  | confirmed _ _ hoffers => exact h.confirmLive hsupplies hoffers _
  | absent => exact h.tombstone hsupplies r id .auditAbsent _

theorem Db.Kept.follows (h : db₀.Kept watched good done db)
    (hsupplies : Supplies env watched good db₀) (hfollows : env.Follows db db') :
    db₀.Kept watched good done db' := by
  cases hfollows with
  | sideloaded _ hoffers => exact h.write hsupplies hoffers _
  | @leftOut child _ k _ _ now hchild _ _ _ =>
      refine h.of_rows fun t k' ht => ?_
      have hunowned := hsupplies.unowned t ht
      have hne : t ≠ child := by
        rintro rfl
        have howned := hunowned .person
        rw [ownedFk_of_ownerRel hchild, if_pos rfl] at howned
        cases howned
      rw [row?_tombstone, if_neg fun h => hne h.1, hunowned, ite_self]

theorem Db.Kept.rereads (h : db₀.Kept watched good done db)
    (hsupplies : Supplies env watched good db₀) {r : Res} {id : String}
    (hrereads : env.Rereads r id db db') : db₀.Kept watched good ((r, id) :: done) db' := by
  obtain ⟨db₁, hstores, hfollows⟩ := hrereads
  have hstored := h.stores hsupplies hstores
  induction hfollows with
  | refl => exact hstored
  | tail _ hlast ih => exact ih.follows hsupplies hlast

/-- After some re-reads every record read holds PCO's copy or is tombstoned. -/
theorem Db.Kept.rereadsAll (h : db₀.Kept watched good done db)
    (hsupplies : Supplies env watched good db₀) {keys : List (Res × String)}
    (hrereads : env.RereadsAll keys db db') :
    db₀.Kept watched good (keys.reverse ++ done) db' := by
  induction hrereads generalizing done with
  | nil => exact h
  | cons hfirst _ ih => simpa using ih (h.rereads hsupplies hfirst)

end PcoMirror
