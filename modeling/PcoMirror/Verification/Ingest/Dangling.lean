import PcoMirror.Lib.Settling
import PcoMirror.Model.Scheduler
import PcoMirror.Verification.Ingest.Children
import PcoMirror.Verification.Ingest.Targets

/-! Edges that lead nowhere: what the passes over them queue, and when rounds of them, each with
the drain after it, leave none. -/

namespace PcoMirror

open Program

variable {env : Env} {id : String} {w : World} {t : Res} {k : String} {db db' : Db} {raw : Json}
  {held : Res → String → Prop} {owns : String → Res → String → Prop}

/-! ## The passes -/

/-- Both ends of a holder's edges are due: the holder, and what it names without a live row. -/
def World.EndsDue (w : World) (env : Env) (db : Db) (p : String) (raw : Json) : Prop :=
  w.HasDue env .person p ∧ ∀ e ∈ danglingEdges .person, ∀ k ∈ linkedIds raw e.1,
    db.isLive e.2.target k = false → w.HasDue env e.2.target k

theorem run_queueDanglingTargets (hticks : env.Ticks) (raw : Json) (edges : List (String × Rel))
    (hedges : edges ⊆ danglingEdges .person)
    (hread : ∀ e ∈ edges, danglingIds raw e.1 = .ok (linkedIds raw e.1)) (w : World) :
    ∃ n keys w', (queueDanglingTargets env raw edges).run w = .ok n w' ∧ Queues env keys w w' ∧
      ∀ e ∈ edges, ∀ k ∈ linkedIds raw e.1, w.db.isLive e.2.target k = false →
        (e.2.target, k) ∈ keys := by
  induction edges generalizing w with
  | nil => exact ⟨0, [], w, rfl, .refl w, nofun⟩
  | cons e edges ih =>
      obtain ⟨name, rel⟩ := e
      have hfetchable := fetchable_of_mem_danglingEdges (hedges (by simp) : (name, rel) ∈ _)
      obtain ⟨w₁, hrun₁, hqueues₁⟩ := run_enqueueAll hticks rel.target "dangling"
        ((linkedIds raw name).filter fun k => !w.db.isLive rel.target k) w
      obtain ⟨n, keys, w', hrun', hqueues', hmem⟩ := ih (List.cons_subset.mp hedges).2
        (fun e he => hread e (by simp [he])) w₁
      refine ⟨((linkedIds raw name).filter fun k => !w.db.isLive rel.target k).length + n, _, w', ?_,
        hqueues₁.trans hqueues', fun e he k hk hdead => ?_⟩
      · rw [queueDanglingTargets, if_neg hfetchable, hread (name, rel) (by simp)]
        simp only [ofPy, pure_bind]
        change (forEach (fun k => enqueueHydration env rel.target k "dangling")
            ((linkedIds raw name).filter fun k => !w.db.isLive rel.target k) >>= fun _ =>
          queueDanglingTargets env raw edges >>= fun more => pure
            (((linkedIds raw name).filter fun k => !w.db.isLive rel.target k).length + more)).run
          w = _
        rw [run_bind_of_ok hrun₁, run_bind_of_ok hrun']
        rfl
      · rcases List.mem_cons.mp he with rfl | he
        · refine List.mem_append_left _ (List.mem_map.mpr ⟨k, ?_, rfl⟩)
          exact List.mem_filter.mpr ⟨hk, by rw [hdead]; rfl⟩
        · refine List.mem_append_right _ (hmem e he k hk ?_)
          rw [hqueues₁.db_eq]
          exact hdead

theorem run_queueDangling (hticks : env.Ticks) (rows : List (String × Json))
    (hread : ∀ row ∈ rows, ReadAlike row.2) (w : World) :
    ∃ n keys w', (queueDangling env .person rows).run w = .ok n w' ∧ Queues env keys w w' ∧
      ∀ row ∈ rows, w'.EndsDue env w.db row.1 row.2 := by
  induction rows generalizing w with
  | nil => exact ⟨0, [], w, rfl, .refl w, nofun⟩
  | cons row rows ih =>
      obtain ⟨p, raw⟩ := row
      obtain ⟨w₁, hrun₁, hqueues₁⟩ := enqueueHydration_queues hticks .person p "dangling" w
      obtain ⟨n₂, keys₂, w₂, hrun₂, hqueues₂, hmem₂⟩ := run_queueDanglingTargets hticks raw
        (danglingEdges .person) (List.Subset.refl _) (hread (p, raw) (by simp)) w₁
      obtain ⟨n, keys, w', hrun', hqueues', hends⟩ := ih (fun row hrow => hread row (by simp [hrow]))
        w₂
      have hboth := (hqueues₁.trans hqueues₂).trans hqueues'
      refine ⟨1 + n₂ + n, _, w', ?_, hboth, fun row hrow => ?_⟩
      · rw [queueDangling, run_bind_of_ok hrun₁, run_bind_of_ok hrun₂, run_bind_of_ok hrun']
        rfl
      · rcases List.mem_cons.mp hrow with rfl | hrow
        · refine ⟨hboth.due (.person, p) (by simp), fun e he k hk hdead => ?_⟩
          rw [← hqueues₁.db_eq] at hdead
          exact hboth.due (e.2.target, k) (by simp [hmem₂ e he k hk hdead])
        · have hend := hends row hrow
          rw [hqueues₂.db_eq, hqueues₁.db_eq] at hend
          exact hend

/-- The people a pass takes up: those it finds with its reading of the clock. -/
def World.holders (w : World) (env : Env) (limit minAge : ℕ) : List String :=
  (w.db.dangling .person (Iso8601.minusSeconds (env.now w.tick) minAge)).take limit

theorem run_repairDangling (hticks : env.Ticks) (limit minAge : ℕ) (w : World)
    (hread : ∀ p row, w.db.row? .person p = some row → ReadAlike row.raw) :
    ∃ n w', (repairDangling env .person limit minAge).run w = .ok n w' ∧ w'.db = w.db ∧
      ∀ p ∈ w.holders env limit minAge, ∀ row, w.db.row? .person p = some row →
        w'.EndsDue env w.db p row.raw := by
  let rows := (w.holders env limit minAge).filterMap fun id =>
    (w.db.row? .person id).map fun row => (id, row.raw)
  have hrows : ∀ row ∈ rows, ReadAlike row.2 := by
    intro row hrow
    obtain ⟨p, -, hkept⟩ := List.mem_filterMap.mp hrow
    obtain ⟨held, hheld, rfl⟩ := Option.map_eq_some_iff.mp hkept
    exact hread p held hheld
  obtain ⟨n, keys, w', hrun, hqueues, hends⟩ := run_queueDangling hticks rows hrows
    { w with tick := w.tick + 1 }
  refine ⟨n, w', ?_, hqueues.db_eq, fun p hp row hrow => hends (p, row.raw) ?_⟩
  · rw [repairDangling, if_neg (by decide)]
    exact hrun
  · exact List.mem_filterMap.mpr ⟨p, hp, by rw [hrow]; rfl⟩

/-- The passes over every resource. -/
def repairAllDangling (env : Env) (limit minAge : ℕ) : Proc Unit :=
  forEach (fun r => do let _ ← repairDangling env r limit minAge) fullAndLite

/-- Of the passes, the one over people does the work. -/
theorem run_repairAllDangling {limit minAge n : ℕ} {w' : World}
    (hrun : (repairDangling env .person limit minAge).run w = .ok n w') :
    (repairAllDangling env limit minAge).run w = .ok () w' := by
  have hothers : ∀ (others : List Res), (∀ r ∈ others, danglingEdges r = []) → ∀ w : World,
      (forEach (fun r => do let _ ← repairDangling env r limit minAge) others).run w =
        .ok () w := by
    intro others hnone
    induction others with
    | nil => exact fun w => rfl
    | cons r others ih =>
        intro w
        rw [forEach, repairDangling, hnone r (by simp)]
        exact ih (fun r hr => hnone r (by simp [hr])) w
  obtain ⟨others, hlist, hnone⟩ : ∃ others, fullAndLite = .person :: others ∧
      ∀ r ∈ others, danglingEdges r = [] :=
    ⟨fullAndLite.tail, by decide, by decide⟩
  have hfirst : (do let _ ← repairDangling env .person limit minAge : Proc Unit).run w =
      .ok () w' := run_bind_of_ok hrun _
  rw [repairAllDangling, hlist, forEach, run_bind_of_ok hfirst]
  exact hothers others hnone w'

/-! ## Rounds -/

/-- A round: the passes, and then the drain of the whole queue. -/
def World.danglingRound (w : World) (env : Env) (limit minAge : ℕ) : World :=
  let queued := w.after (repairAllDangling env limit minAge)
  queued.after (drainHydration env queued.tasks.length)

/-- The world after some rounds, each with a clock of its own. -/
def World.danglingRounds (w : World) (calls : ℕ → Env) (limit minAge : ℕ) : ℕ → World
  | 0 => w
  | n + 1 => (w.danglingRounds calls limit minAge n).danglingRound (calls n) limit minAge

variable {limit minAge : ℕ}

/-- A round re-reads both ends of the edges of the holders it takes up. -/
theorem danglingRound_rereads (limit minAge : ℕ) (hserves : env.Serves held owns)
    (hread : ∀ p row, w.db.row? .person p = some row → ReadAlike row.raw) :
    ∃ keys, env.RereadsAll keys w.db (w.danglingRound env limit minAge).db ∧
      ∀ p ∈ w.holders env limit minAge, ∀ row, w.db.row? .person p = some row →
        (.person, p) ∈ keys ∧ ∀ e ∈ danglingEdges .person, ∀ k ∈ linkedIds row.raw e.1,
          w.db.isLive e.2.target k = false → (e.2.target, k) ∈ keys := by
  obtain ⟨n, w₁, hrun, hdb, hends⟩ := run_repairDangling hserves.ticks limit minAge w hread
  have hpasses := World.after_of_run (run_repairAllDangling hrun)
  have hrereads := drainHydration_rereads hserves.answers w₁.tasks.length w₁
  rw [hdb] at hrereads
  refine ⟨_, by rw [World.danglingRound, hpasses]; exact hrereads, fun p hp row hrow => ?_⟩
  obtain ⟨hholder, htargets⟩ := hends p hp row hrow
  exact ⟨mem_dueTasks hholder le_rfl,
    fun e he k hk hdead => mem_dueTasks (htargets e he k hk hdead) le_rfl⟩

/-- A table in which the rounds find their way: the guard takes PCO's copy of a person over one
that names what PCO does not hold, the pass reads what its query reads, and what the includes
name one by one is there. -/
structure Db.Mendable (db : Db) (calls : ℕ → Env) (held : Res → String → Prop) : Prop where
  taken : ∀ n p row stored, db.row? .person p = some row → ¬ NamesHeld held row.raw →
    (calls n).Offers .person p stored → ¬ Refused row.raw stored
  readAlike : ∀ p row, db.row? .person p = some row → ReadAlike row.raw
  single : ∀ r id row name rel, db.row? r id = some row → Includes r name rel → rel.kind = .one →
    ∀ k ∈ namedIds rel row.raw name, held rel.target k ∧ db.isLive rel.target k = true
  offered : ∀ n r id raw name rel, (calls n).Offers r id raw → Includes r name rel →
    rel.kind = .one → ∀ k ∈ namedIds rel raw name, db.isLive rel.target k = true

/-- What is named one by one has no owner. -/
theorem settled_of_isLive (owns : String → Res → String → Prop) {r : Res} {name : String} {rel : Rel} (hincludes : Includes r name rel)
    (hkind : rel.kind = .one) (h : db.isLive rel.target k = true) :
    db.Settled owns rel.target k := by
  obtain ⟨hname, hrel⟩ := hincludes
  have hall : ∀ r : Res, ∀ name ∈ r.info.includes,
      ((r.info.relationships.lookup name).all fun rel =>
        decide (rel.kind = .one → rel.target.info.ownerRel ≠ some "person")) = true := by
    intro r
    cases r <;> decide
  have hunowned : rel.kind = .one → rel.target.info.ownerRel ≠ some "person" := by
    simpa [hrel, imp_iff_not_or] using hall r name hname
  obtain ⟨row, hrow, hlive⟩ := Db.isLive_iff.mp h
  refine ⟨row, hrow, by rw [Row.live, hlive]; rfl, fun howner => ?_⟩
  exact absurd howner (hunowned hkind)

variable {calls : ℕ → Env} {keys : List (Res × String)} {n : ℕ}

theorem Db.Mendable.next (h : db.Mendable calls held) (hserves : ∀ n, (calls n).Serves held owns)
    (hrereads : (calls n).RereadsAll keys db db') : db'.Mendable calls held := by
  have hfrom := from_rereadsAll hrereads
  have hstays : ∀ {r name rel k}, Includes r name rel → rel.kind = .one → held rel.target k →
      db.isLive rel.target k = true → db'.isLive rel.target k = true := by
    intro r name rel k hincludes hkind hheld hlive
    exact ((settled_of_isLive owns hincludes hkind hlive).rereadsAll (hserves n)
      hincludes.target hheld hrereads).isLive
  constructor
  · intro m p row stored hrow hwrong hoffers
    rcases hfrom .person p row hrow with ⟨row₀, hrow₀, hraw⟩ | hoffered
    · rw [hraw] at hwrong ⊢
      exact h.taken m p row₀ stored hrow₀ hwrong hoffers
    · exact absurd ((hserves n).namesHeld hoffered) hwrong
  · intro p row hrow
    rcases hfrom .person p row hrow with ⟨row₀, hrow₀, hraw⟩ | hoffered
    · rw [hraw]
      exact h.readAlike p row₀ hrow₀
    · exact (hserves n).readAlike p row.raw hoffered
  · intro r id row name rel hrow hincludes hkind k hk
    rcases hfrom r id row hrow with ⟨row₀, hrow₀, hraw⟩ | hoffered
    · rw [hraw] at hk
      obtain ⟨hheld, hlive⟩ := h.single r id row₀ name rel hrow₀ hincludes hkind k hk
      exact ⟨hheld, hstays hincludes hkind hheld hlive⟩
    · have hheld := (hserves n).names r id row.raw name rel hoffered hincludes k hk
      have hlive := h.offered n r id row.raw name rel hoffered hincludes hkind k hk
      exact ⟨hheld, hstays hincludes hkind hheld hlive⟩
  · intro m r id raw name rel hoffers hincludes hkind k hk
    exact hstays hincludes hkind ((hserves m).names r id raw name rel hoffers hincludes k hk)
      (h.offered m r id raw name rel hoffers hincludes hkind k hk)

/-! ## Faults -/

/-- The people whose live copy names what PCO does not hold, and the targets PCO holds that are
not settled. -/
def Db.faults (held : Res → String → Prop) (owns : String → Res → String → Prop) (db : Db) :
    Set (Res × String) :=
  {key | (key.1 = .person ∧ ∃ row, db.row? .person key.2 = some row ∧ row.live = true ∧
      ¬ NamesHeld held row.raw) ∨
    (key.1 ∈ linkTargets ∧ held key.1 key.2 ∧ ¬ db.Settled owns key.1 key.2)}

theorem finite_faults (hfinite : {key : Res × String | held key.1 key.2}.Finite) (db : Db) :
    (db.faults held owns).Finite := by
  have hpeople : {key | key ∈ (db.tables .person).keys.map (Prod.mk Res.person)}.Finite :=
    List.finite_toSet _
  refine (hpeople.union hfinite).subset ?_
  rintro ⟨t, k⟩ (⟨rfl, row, hrow, -⟩ | ⟨-, hheld, -⟩)
  · refine .inl (List.mem_map.mpr ⟨k, ?_, rfl⟩)
    rw [← AList.mem_keys, ← AList.lookup_isSome]
    exact Option.isSome_of_mem hrow
  · exact .inr hheld

/-- A round brings no fault. -/
theorem faults_subset (h : db.Mendable calls held) (hserves : ∀ n, (calls n).Serves held owns)
    (hrereads : (calls n).RereadsAll keys db db') :
    db'.faults held owns ⊆ db.faults held owns ∧
      ∀ p, (.person, p) ∈ keys → (.person, p) ∉ db'.faults held owns := by
  have hsupplies : Supplies (calls n) (· = .person) (fun _ _ raw => NamesHeld held raw) db := by
    refine ⟨?_, ?_, ?_, ?_⟩
    · rintro t rfl
      rfl
    · rintro t rfl u
      exact ownedFk_person u
    · rintro t k stored rfl hoffers
      exact (hserves n).namesHeld hoffers
    · rintro t k row stored rfl hrow hwrong hoffers -
      exact h.taken n k row stored hrow hwrong hoffers
  have hkept := Db.Kept.refl.rereadsAll hsupplies hrereads
  constructor
  · rintro ⟨t, k⟩ (⟨rfl, row, hrow, hlive, hwrong⟩ | ⟨ht, hheld, hunsettled⟩)
    · rcases hkept .person k row rfl hrow with hgood | ⟨row₀, hrow₀, hstands, -⟩
      · exact absurd hgood hwrong
      · rw [hstands.raw_eq] at hwrong
        exact .inl ⟨rfl, row₀, hrow₀, hstands.live hlive, hwrong⟩
    · exact .inr ⟨ht, hheld, fun hsettled =>
        hunsettled (hsettled.rereadsAll (hserves n) ht hheld hrereads)⟩
  · rintro p hp (⟨-, row, hrow, hlive, hwrong⟩ | ⟨ht, -⟩)
    · rcases hkept .person p row rfl hrow with hgood | ⟨row₀, hrow₀, -, hundone⟩
      · exact hwrong hgood
      · exact hundone hlive (by simpa using hp)
    · exact ne_person_of_mem_linkTargets ht rfl

/-- A time is old enough for a pass to look at what was written then. -/
def Env.LooksAt (env : Env) (minAge : ℕ) (time : String) : Prop :=
  ∀ tick, Sql.ge (Iso8601.minusSeconds (env.now tick) minAge) (some time) = true

/-- Every person was last written long enough ago for the pass to look at. -/
def World.Aged (w : World) (env : Env) (minAge : ℕ) : Prop :=
  ∀ p row, w.db.row? .person p = some row → env.LooksAt minAge row.lastSyncedAt

/-- Where some edge leads nowhere the pass takes up a holder of one. -/
theorem exists_holder (h : w.db.Mendable calls held) (haged : w.Aged env minAge)
    (hlimit : 0 < limit) (hunresolved : ¬ w.db.Resolves) :
    ∃ p ∈ w.holders env limit minAge, ∃ row, w.db.row? .person p = some row ∧ row.live = true ∧
      ∃ e ∈ danglingEdges .person, ∃ k ∈ linkedIds row.raw e.1,
        w.db.isLive e.2.target k = false := by
  have hmem : ∀ p, p ∈ w.db.dangling .person (Iso8601.minusSeconds (env.now w.tick) minAge) ↔
      ∃ row, w.db.row? .person p = some row ∧ row.live = true ∧
        ∃ e ∈ danglingEdges .person, ∃ k ∈ linkedIds row.raw e.1,
          w.db.isLive e.2.target k = false := by
    intro p
    rw [Db.dangling, Sql.mem_sortIds, Db.mem_select]
    constructor
    · rintro ⟨row, hrow, hfound⟩
      simp only [Bool.and_eq_true, List.any_eq_true, Bool.not_eq_true'] at hfound
      exact ⟨row, hrow, hfound.1.1, hfound.2⟩
    · rintro ⟨row, hrow, hlive, hedge⟩
      refine ⟨row, hrow, ?_⟩
      simp only [Bool.and_eq_true, List.any_eq_true, Bool.not_eq_true']
      exact ⟨⟨hlive, haged p row hrow w.tick⟩, hedge⟩
  have hsome : ∃ p, p ∈ w.db.dangling .person (Iso8601.minusSeconds (env.now w.tick) minAge) := by
    by_contra hnone
    refine hunresolved fun r id row hrow hlive name rel hincludes _ k hk => ?_
    by_cases hkind : rel.kind = .one
    · exact (h.single r id row name rel hrow hincludes hkind k hk).2
    · by_contra hdead
      have hedge := hincludes.mem_danglingEdges hkind
      obtain rfl := eq_person_of_mem_danglingEdges hedge
      rw [namedIds, if_neg hkind] at hk
      exact hnone ⟨id, (hmem id).mpr ⟨row, hrow, hlive, (name, rel), hedge, k, hk,
        by simpa using hdead⟩⟩
  have hholders : w.holders env limit minAge ≠ [] := by
    obtain ⟨p, hp⟩ := hsome
    rw [World.holders]
    simp [List.take_eq_nil_iff, List.ne_nil_of_mem hp, hlimit.ne']
  obtain ⟨p, hp⟩ := List.exists_mem_of_ne_nil _ hholders
  exact ⟨p, hp, (hmem p).mp (List.mem_of_mem_take hp)⟩

/-- The rounds are spaced beyond the age a pass asks for, and the first comes long enough after
the rows of people were written. -/
structure Spaced (w : World) (calls : ℕ → Env) (minAge : ℕ) : Prop where
  first : ∀ n, w.Aged (calls n) minAge
  later : ∀ m n tick, m < n → (calls n).LooksAt minAge ((calls m).now tick)

/-- What the rounds come to: every table is one they find their way in, and re-read from the
one before, and every person is looked at again. -/
theorem danglingRounds_keep (hserves : ∀ n, (calls n).Serves held owns)
    (hspaced : Spaced w calls minAge) (h : w.db.Mendable calls held) (n : ℕ) :
    (w.danglingRounds calls limit minAge n).db.Mendable calls held ∧
      ∀ m ≥ n, (w.danglingRounds calls limit minAge n).Aged (calls m) minAge := by
  induction n with
  | zero => exact ⟨h, fun m _ => hspaced.first m⟩
  | succ n ih =>
      obtain ⟨hmendable, haged⟩ := ih
      obtain ⟨keys, hrereads, -⟩ :=
        danglingRound_rereads limit minAge (hserves n) hmendable.readAlike
      refine ⟨hmendable.next hserves hrereads, fun m hm p row hrow => ?_⟩
      rcases since_rereadsAll hrereads .person p row hrow with ⟨row₀, hrow₀, hsynced⟩ | ⟨tick, hread⟩
      · rw [hsynced]
        exact haged m (by omega) p row₀ hrow₀
      · rw [hread]
        exact hspaced.later n m tick hm

/-- From a table in which they find their way, as many rounds as there are faults leave no live
record naming an id without a live row. -/
theorem dangling_settles (w : World) (calls : ℕ → Env) (held : Res → String → Prop)
    (owns : String → Res → String → Prop) {limit minAge : ℕ} (hlimit : 0 < limit)
    (hfinite : {key : Res × String | held key.1 key.2}.Finite)
    (hserves : ∀ n, (calls n).Serves held owns) (hspaced : Spaced w calls minAge)
    (h : w.db.Mendable calls held) :
    ∃ n ≤ (w.db.faults held owns).ncard, (w.danglingRounds calls limit minAge n).db.Resolves := by
  let state (n : ℕ) : World := w.danglingRounds calls limit minAge n
  have hmends : Settling.Mends state (fun w => w.db.Resolves) fun w => w.db.faults held owns := by
    refine ⟨finite_faults hfinite _, fun n => ?_, fun n hunresolved => ?_⟩
    · obtain ⟨hmendable, -⟩ := danglingRounds_keep hserves hspaced h n
      obtain ⟨keys, hrereads, -⟩ := danglingRound_rereads limit minAge (hserves n)
        hmendable.readAlike
      exact (faults_subset hmendable hserves hrereads).1
    · obtain ⟨hmendable, haged⟩ := danglingRounds_keep hserves hspaced h n
      obtain ⟨keys, hrereads, hread⟩ := danglingRound_rereads limit minAge (hserves n)
        hmendable.readAlike
      obtain ⟨p, hp, row, hrow, hlive, e, he, k, hk, hdead⟩ :=
        exists_holder hmendable (haged n le_rfl) hlimit hunresolved
      obtain ⟨hholder, htargets⟩ := hread p hp row hrow
      by_cases hnames : NamesHeld held row.raw
      · -- PCO holds the target, and it has been re-read.
        have ht := (includes_of_mem_danglingEdges he).1.target
        have hheld := hnames e he k hk
        refine ⟨(e.2.target, k), .inr ⟨ht, hheld, fun hsettled => ?_⟩, ?_⟩
        · rw [hsettled.isLive] at hdead
          cases hdead
        · rintro (⟨hperson, -⟩ | ⟨-, -, hunsettled⟩)
          · exact ne_person_of_mem_linkTargets ht hperson
          · exact hunsettled (settled_of_rereadsAll (hserves n) ht hheld
              (htargets e he k hk hdead) hrereads)
      · -- The holder's copy is PCO's now.
        exact ⟨(.person, p), .inl ⟨rfl, row, hrow, hlive, hnames⟩,
          (faults_subset hmendable hserves hrereads).2 p hholder⟩
  exact hmends.exists_settled

/-! ## A person and their email -/

/-- A person who lists some emails. -/
def mailedPerson (emails : List String) (more : List (String × Json)) : Json :=
  document "Person" "1" "2024-03-01T00:00:00Z" (("emails", .obj [("data", .arr (emails.map fun k =>
    .obj [("type", .str "Email"), ("id", .str k)]))]) :: more)

/-- The emails PCO has of the person: one, or none. -/
def emailsHeld (mailed : Bool) : List String :=
  if mailed then ["2"] else []

/-- PCO has the person, and that email of theirs or none. -/
def mailedAnswer (mailed : Bool) (r : Res) (id : String) : Response :=
  if r = .person ∧ id = "1" then
    ⟨200, .json (.obj [("data", mailedPerson (emailsHeld mailed) [])])⟩
  else if r = .email ∧ id ∈ emailsHeld mailed then ⟨200, .json (.obj [("data", marchEmail)])⟩
  else ⟨404, .empty⟩

def mailedEnv (mailed : Bool) : Env :=
  { quietEnv with respond := fun _ request =>
      match request with
      | .record r id _ => .ok (mailedAnswer mailed r id)
      | _ => .ok ⟨404, .empty⟩ }

def mailedHeld (mailed : Bool) (r : Res) (id : String) : Prop :=
  (r = .person ∧ id = "1") ∨ (r = .email ∧ id ∈ emailsHeld mailed)

def mailedOwns (mailed : Bool) (p : String) (t : Res) (k : String) : Prop :=
  p = "1" ∧ t = .email ∧ k ∈ emailsHeld mailed

/-- The mirror has the person alone. -/
def mailedMirror (person : Json) : World :=
  { db := Db.empty.put .person "1"
      (Row.fresh person ⟨.webhook, "2024-01-31", "2024-03-01T00:00:05Z"⟩) }

theorem mailedAnswer_person (mailed : Bool) :
    IsAnswer .person "1" (mailedAnswer mailed .person "1")
      (mailedPerson (emailsHeld mailed) []) [] where
  ok := by cases mailed <;> decide
  record_eq := by cases mailed <;> decide +kernel
  included_eq := by cases mailed <;> decide +kernel
  person := fun _ => ⟨⟨"2024-03-01T00:00:00Z", by cases mailed <;> decide +kernel,
    by cases mailed <;> decide +kernel, by cases mailed <;> decide +kernel, by decide⟩, _, rfl⟩
  resource := nofun
  routable := nofun

theorem mailedAnswer_email :
    IsAnswer .email "2" (mailedAnswer true .email "2") marchEmail [] where
  ok := by decide
  record_eq := by decide +kernel
  included_eq := by decide +kernel
  person := nofun
  resource := nofun
  routable := nofun

theorem mailedEnv_answer (mailed : Bool) (r : Res) (id : String) :
    (mailedHeld mailed r id ∧ ∃ record, IsAnswer r id (mailedAnswer mailed r id) record []) ∨
      (¬ mailedHeld mailed r id ∧ mailedAnswer mailed r id = ⟨404, .empty⟩) := by
  by_cases hperson : r = .person ∧ id = "1"
  · obtain ⟨rfl, rfl⟩ := hperson
    exact .inl ⟨.inl ⟨rfl, rfl⟩, _, mailedAnswer_person mailed⟩
  · by_cases hemail : r = .email ∧ id ∈ emailsHeld mailed
    · obtain ⟨rfl, hid⟩ := hemail
      cases mailed with
      | false => cases hid
      | true =>
          obtain rfl := List.mem_singleton.mp hid
          exact .inl ⟨.inr ⟨rfl, hid⟩, _, mailedAnswer_email⟩
    · refine .inr ⟨not_or.mpr ⟨hperson, hemail⟩, ?_⟩
      rw [mailedAnswer, if_neg hperson, if_neg hemail]

/-- An answer carries one record, and one list of what comes beside. -/
theorem IsAnswer.unique {r : Res} {resp : Response} {record record' : Json}
    {included included' : List Json} (h : IsAnswer r id resp record included)
    (h' : IsAnswer r id resp record' included') : record = record' ∧ included = included' := by
  have hrecord := h.record_eq.symm.trans h'.record_eq
  have hincluded := h.included_eq.symm.trans h'.included_eq
  cases hrecord
  cases hincluded
  exact ⟨rfl, rfl⟩

theorem mailedEnv_offers {mailed : Bool} {stored : Json}
    (h : (mailedEnv mailed).Offers t k stored) :
    t = .person ∧ k = "1" ∧ stored = mailedPerson (emailsHeld mailed) [] ∨
      t = .email ∧ k ∈ emailsHeld mailed ∧ stored = marchEmail := by
  have hread : ∀ {tick : ℕ} {r : Res} {id : String} {asked : List String} {resp : Response}
      {record : Json} {included : List Json},
      (mailedEnv mailed).respond tick (.record r id asked) = .ok resp →
      IsAnswer r id resp record included → included = [] ∧
        (r = .person ∧ id = "1" ∧ record = mailedPerson (emailsHeld mailed) [] ∨
          r = .email ∧ id ∈ emailsHeld mailed ∧ record = marchEmail) := by
    intro tick r id asked resp record included hresp hanswer
    obtain rfl : mailedAnswer mailed r id = resp := Except.ok.inj hresp
    rcases mailedEnv_answer mailed r id with ⟨⟨rfl, rfl⟩ | ⟨rfl, hid⟩, -⟩ | ⟨-, habsent⟩
    · obtain ⟨rfl, rfl⟩ := hanswer.unique (mailedAnswer_person mailed)
      exact ⟨rfl, .inl ⟨rfl, rfl, rfl⟩⟩
    · cases mailed with
      | false => cases hid
      | true =>
          obtain rfl := List.mem_singleton.mp hid
          obtain ⟨rfl, rfl⟩ := hanswer.unique mailedAnswer_email
          exact ⟨rfl, .inr ⟨rfl, hid, rfl⟩⟩
    · have hok := hanswer.ok
      rw [habsent] at hok
      cases hok
  cases h with
  | record hresp hanswer => exact (hread hresp hanswer).2
  | sideload hresp hanswer hd htarget =>
      rw [(hread hresp hanswer).1] at hd
      cases hd

instance (mailed : Bool) (r : Res) (id : String) : Decidable (mailedHeld mailed r id) :=
  inferInstanceAs (Decidable (_ ∨ _))

theorem names_mailedPerson (mailed : Bool) {name : String} {rel : Rel}
    (h : Includes .person name rel) :
    ∀ k ∈ namedIds rel (mailedPerson (emailsHeld mailed) []) name,
      mailedHeld mailed rel.target k := by
  have hall : ∀ name ∈ Res.person.info.includes,
      (Res.person.info.relationships.lookup name).all (fun rel =>
        (namedIds rel (mailedPerson (emailsHeld mailed) []) name).all fun k =>
          decide (mailedHeld mailed rel.target k)) = true := by
    cases mailed <;> decide +kernel
  have hname := hall name h.1
  rw [h.2, Option.all_some, List.all_eq_true] at hname
  exact fun k hk => of_decide_eq_true (hname k hk)

/-- Nothing is named one by one. -/
theorem single_mailedPerson (mailed : Bool) {name : String} {rel : Rel}
    (h : Includes .person name rel) (hkind : rel.kind = .one) :
    namedIds rel (mailedPerson (emailsHeld mailed) []) name = [] := by
  have hall : ∀ name ∈ Res.person.info.includes,
      (Res.person.info.relationships.lookup name).all (fun rel => decide (rel.kind = .one →
        namedIds rel (mailedPerson (emailsHeld mailed) []) name = [])) = true := by
    cases mailed <;> decide +kernel
  have hname := hall name h.1
  rw [h.2, Option.all_some] at hname
  exact of_decide_eq_true hname hkind

theorem readAlike_mailedPerson (mailed : Bool) :
    ReadAlike (mailedPerson (emailsHeld mailed) []) := by
  unfold ReadAlike
  cases mailed <;> decide +kernel

theorem mailedEnv_serves (mailed : Bool) :
    (mailedEnv mailed).Serves (mailedHeld mailed) (mailedOwns mailed) where
  answers := by
    intro tick r id asked
    refine ⟨mailedAnswer mailed r id, rfl, ?_⟩
    rcases mailedEnv_answer mailed r id with ⟨-, record, hanswer⟩ | ⟨-, habsent⟩
    · exact .inr ⟨record, [], hanswer⟩
    · rw [habsent]
      exact .inl rfl
  ticks := fun _ _ _ => le_rfl
  lacks := by
    rintro r id ⟨tick, asked, resp, hresp, hstatus⟩ hheld
    obtain rfl : mailedAnswer mailed r id = resp := Except.ok.inj hresp
    rcases mailedEnv_answer mailed r id with ⟨-, record, hanswer⟩ | ⟨hnot, -⟩
    · have hok := hanswer.ok
      simp [Response.ok, hstatus] at hok
    · exact hnot hheld
  names := by
    intro r id raw name rel hoffers hincludes k hk
    rcases mailedEnv_offers hoffers with ⟨rfl, -, rfl⟩ | ⟨rfl, -⟩
    · exact names_mailedPerson mailed hincludes k hk
    · cases hincludes.1
  readAlike := by
    intro id raw hoffers
    rcases mailedEnv_offers hoffers with ⟨-, -, rfl⟩ | ⟨hno, -⟩
    · exact readAlike_mailedPerson mailed
    · cases hno
  child := by
    intro t k raw p hchild hoffers hp
    rcases mailedEnv_offers hoffers with ⟨rfl, -⟩ | ⟨rfl, hk, rfl⟩
    · cases hchild
    · have hcolumn : Res.email.column "person_pco_id" marchEmail = some "1" := by decide +kernel
      cases hcolumn.symm.trans hp
      exact ⟨rfl, rfl, hk⟩
  owner := fun p t k howns => .inl ⟨rfl, howns.1⟩
  claimed := by
    rintro p t k ⟨rfl, rfl, hk⟩ ⟨tick, asked, resp, record, included, hresp, hanswer, -, hnot⟩
    obtain rfl : mailedAnswer mailed .person "1" = resp := Except.ok.inj hresp
    obtain ⟨rfl, rfl⟩ := hanswer.unique (mailedAnswer_person mailed)
    refine hnot ⟨_, rfl, ?_⟩
    cases mailed with
    | false => cases hk
    | true =>
        obtain rfl := List.mem_singleton.mp hk
        decide +kernel

theorem finite_mailedHeld (mailed : Bool) :
    {key : Res × String | mailedHeld mailed key.1 key.2}.Finite := by
  refine (List.finite_toSet [(Res.person, "1"), (Res.email, "2")]).subset ?_
  rintro ⟨r, id⟩ (⟨rfl, rfl⟩ | ⟨rfl, hid⟩)
  · exact List.mem_cons_self
  · cases mailed with
    | false => cases hid
    | true =>
        obtain rfl : id = "2" := List.mem_singleton.mp hid
        exact List.mem_cons_of_mem _ List.mem_cons_self

theorem mailedMirror_row {person : Json} {row : Row}
    (h : (mailedMirror person).db.row? t k = some row) :
    t = .person ∧ k = "1" ∧ row.raw = person ∧ row.live = true ∧
      row.lastSyncedAt = "2024-03-01T00:00:05Z" := by
  simp only [mailedMirror, Db.row?_put] at h
  split_ifs at h with hperson
  · cases h
    exact ⟨hperson.1, hperson.2, rfl, rfl, rfl⟩
  · cases h

theorem mailedMirror_spaced (person : Json) (mailed : Bool) :
    Spaced (mailedMirror person) (fun _ => mailedEnv mailed) 0 where
  first := by
    intro n p row hrow tick
    obtain ⟨-, -, -, -, hsynced⟩ := mailedMirror_row hrow
    rw [hsynced]
    change Sql.ge (Iso8601.minusSeconds "2024-03-02T00:00:00Z" 0) _ = true
    decide +kernel
  later := by
    intro m n tick _ tick'
    change Sql.ge (Iso8601.minusSeconds "2024-03-02T00:00:00Z" 0)
      (some "2024-03-02T00:00:00Z") = true
    decide +kernel

/-- An email the mirror never saw is found by the rounds. -/
theorem dangling_settles_mailed :
    ∃ n, ((mailedMirror (mailedPerson (emailsHeld true) [])).danglingRounds (fun _ => mailedEnv true) 1 0
      n).db.Resolves := by
  have hmendable : (mailedMirror (mailedPerson (emailsHeld true) [])).db.Mendable (fun _ => mailedEnv true)
      (mailedHeld true) := by
    constructor
    · intro n p row stored hrow hwrong _
      obtain ⟨-, -, hraw, -⟩ := mailedMirror_row hrow
      refine absurd (fun e he k hk => ?_) hwrong
      obtain ⟨hincludes, hkind⟩ := includes_of_mem_danglingEdges he
      rw [hraw] at hk
      exact names_mailedPerson true hincludes k (by rwa [namedIds, if_neg hkind])
    · intro p row hrow
      obtain ⟨-, -, hraw, -⟩ := mailedMirror_row hrow
      rw [hraw]
      exact readAlike_mailedPerson true
    · intro r id row name rel hrow hincludes hkind k hk
      obtain ⟨rfl, -, hraw, -⟩ := mailedMirror_row hrow
      rw [hraw] at hk
      exact absurd hk (by
        rw [single_mailedPerson true hincludes hkind]
        exact List.not_mem_nil)
    · intro n r id raw name rel hoffers hincludes hkind k hk
      rcases mailedEnv_offers hoffers with ⟨rfl, -, rfl⟩ | ⟨rfl, -⟩
      · exact absurd hk (by
          rw [single_mailedPerson true hincludes hkind]
          exact List.not_mem_nil)
      · cases hincludes.1
  obtain ⟨n, -, hresolves⟩ := dangling_settles (mailedMirror (mailedPerson (emailsHeld true) []))
    (fun _ => mailedEnv true) (mailedHeld true) (mailedOwns true) Nat.one_pos
    (finite_mailedHeld true) (fun _ => mailedEnv_serves true) (mailedMirror_spaced _ true) hmendable
  exact ⟨n, hresolves⟩

/-! ## An email that is gone -/

/-- A copy with an email PCO no longer has, and a relationship a re-read does not ask for. -/
def stalePerson : Json :=
  mailedPerson ["9"] [("inactive_reason", .obj [("data", .null)])]

/-- The stale copy is live, and the email has no row. -/
structure Db.Stale (db : Db) : Prop where
  person : ∃ row, db.row? .person "1" = some row ∧ row.raw = stalePerson ∧ row.live = true
  email : db.row? .email "9" = none
  readAlike : ∀ p row, db.row? .person p = some row → ReadAlike row.raw

theorem Db.Stale.not_resolves (h : db.Stale) : ¬ db.Resolves := by
  intro hresolves
  obtain ⟨row, hrow, hraw, hlive⟩ := h.person
  have hresolved := hresolves .person "1" row hrow hlive "emails"
    { target := .email, kind := .many, childFk := some "person_pco_id" } ⟨by decide, rfl⟩
    (by decide) "9" (by rw [hraw]; decide +kernel)
  rw [Db.isLive, h.email] at hresolved
  cases hresolved

/-- A row that is there after a write was there before, or is the one written. -/
theorem Db.Stale.write (h : db.Stale) {stored : Json}
    (hoffers : (mailedEnv false).Offers t k stored) (stamp : Stamp) :
    (PcoMirror.write t k stored stamp db).Stale := by
  obtain ⟨rfl, rfl, rfl⟩ | ⟨-, hno, -⟩ := mailedEnv_offers hoffers
  · obtain ⟨row, hrow, hraw, hlive⟩ := h.person
    have hrefused : Refused stalePerson (mailedPerson (emailsHeld false) []) := by
      unfold Refused AsRich
      decide +kernel
    obtain ⟨value, hvalue⟩ := row?_upsert_self .person "1" (mailedPerson (emailsHeld false) [])
      stamp db
    obtain ⟨row', hrow', -, hstays⟩ := row_after_write .person "1"
      (mailedPerson (emailsHeld false) []) stamp hrow
    have hsame : row'.raw = stalePerson := by
      have hheld : (upsert .person "1" (mailedPerson (emailsHeld false) []) stamp db).row? .person
          "1" = some row' := hrow'
      rw [hvalue, hrow, upserted_some] at hheld
      cases hheld
      change upsertRaw row.raw _ = stalePerson
      rw [hraw, upsertRaw_of_refused hrefused]
    refine ⟨⟨row', hrow', hsame, hstays hlive⟩, ?_, fun p found hfound => ?_⟩
    · cases hfound : (PcoMirror.write .person "1" (mailedPerson (emailsHeld false) []) stamp
        db).row? .email "9" with
      | none => rfl
      | some found =>
          rcases raw_of_write hfound with ⟨hno, -⟩ | ⟨held, hheld, -⟩
          · cases hno
          · cases h.email.symm.trans hheld
    · rcases raw_of_write hfound with ⟨-, -, hraw⟩ | ⟨held, hheld, hraw⟩
      · rw [hraw]
        exact readAlike_mailedPerson false
      · rw [hraw]
        exact h.readAlike p held hheld
  · cases hno

theorem Db.Stale.tombstone (h : db.Stale) {u : Res} (reason : Reason) (now : String)
    (hother : ¬ (u = .person ∧ id = "1")) :
    (PcoMirror.tombstone u id none reason none now db).Stale := by
  obtain ⟨row, hrow, hraw, hlive⟩ := h.person
  obtain ⟨row', hrow', hraw', hstays⟩ := row_after_tombstone u id none reason none now hrow
  refine ⟨⟨row', hrow', hraw'.trans hraw, ?_⟩, ?_, fun p found hfound => ?_⟩
  · rcases hstays hlive with hlive' | ⟨rfl, rfl⟩ | ⟨fk, howned, -⟩
    · exact hlive'
    · exact absurd ⟨rfl, rfl⟩ hother
    · rw [ownedFk_person] at howned
      cases howned
  · cases hfound : (PcoMirror.tombstone u id none reason none now db).row? .email "9" with
    | none => rfl
    | some found =>
        obtain ⟨held, hheld, -⟩ := raw_of_tombstone hfound
        cases h.email.symm.trans hheld
  · obtain ⟨held, hheld, hraw⟩ := raw_of_tombstone hfound
    rw [hraw]
    exact h.readAlike p held hheld

theorem Db.Stale.stores (h : db.Stale) {r : Res}
    (hstores : (mailedEnv false).Stores r id db db') : db'.Stale := by
  cases hstores with
  | routed _ hoffers => exact h.write hoffers _
  | confirmed _ hr hoffers =>
      obtain ⟨hperson, -⟩ | ⟨-, hno, -⟩ := mailedEnv_offers hoffers
      · exact absurd hperson hr
      · cases hno
  | absent _ hlacks =>
      refine h.tombstone .auditAbsent _ fun hself => ?_
      exact (mailedEnv_serves false).lacks _ _ hlacks (.inl hself)

theorem Db.Stale.follows (h : db.Stale) (hfollows : (mailedEnv false).Follows db db') :
    db'.Stale := by
  cases hfollows with
  | sideloaded _ hoffers => exact h.write hoffers _
  | leftOut _ hchild =>
      refine h.tombstone .absent _ ?_
      rintro ⟨rfl, -⟩
      cases hchild

theorem Db.Stale.reread (h : db.Stale)
    (hfollows : Relation.ReflTransGen (mailedEnv false).Follows db db') : db'.Stale := by
  induction hfollows with
  | refl => exact h
  | tail _ hlast ih => exact ih.follows hlast

theorem Db.Stale.rereadsAll (h : db.Stale) {keys : List (Res × String)}
    (hrereads : (mailedEnv false).RereadsAll keys db db') : db'.Stale := by
  induction hrereads with
  | nil => exact h
  | cons hfirst _ ih =>
      obtain ⟨db₁, hstores, hfollows⟩ := hfirst
      exact ih ((h.stores hstores).reread hfollows)

/-- The guard keeps the stale copy, round after round. -/
theorem dangling_never_settles :
    ¬ ∀ (w : World) (calls : ℕ → Env) (held : Res → String → Prop)
      (owns : String → Res → String → Prop) (limit minAge : ℕ), 0 < limit →
      {key : Res × String | held key.1 key.2}.Finite → (∀ n, (calls n).Serves held owns) →
      Spaced w calls minAge → ∃ n, (w.danglingRounds calls limit minAge n).db.Resolves := by
  intro h
  obtain ⟨n, hresolves⟩ := h (mailedMirror stalePerson) (fun _ => mailedEnv false)
    (mailedHeld false) (mailedOwns false) 1 0 Nat.one_pos (finite_mailedHeld false)
    (fun _ => mailedEnv_serves false) (mailedMirror_spaced _ false)
  have hstale : ∀ n, ((mailedMirror stalePerson).danglingRounds (fun _ => mailedEnv false) 1 0
      n).db.Stale := by
    intro n
    induction n with
    | zero =>
        refine ⟨⟨_, Db.row?_put_self .., rfl, rfl⟩, rfl, fun p row hrow => ?_⟩
        obtain ⟨-, -, hraw, -⟩ := mailedMirror_row hrow
        rw [hraw]
        unfold ReadAlike
        decide +kernel
    | succ n ih =>
        obtain ⟨keys, hrereads, -⟩ := danglingRound_rereads 1 0 (mailedEnv_serves false) ih.readAlike
        exact ih.rereadsAll hrereads
  exact (hstale n).not_resolves hresolves

end PcoMirror
