import PcoMirror.Lib.Queue
import PcoMirror.Verification.Walk.Authority
import PcoMirror.Verification.Walk.Frame
import PcoMirror.Verification.Writer.Finishes

/-! Rounds of a nested walk, a bounded step at a time: which parents are reached while the walks of
some others fail every time. -/

namespace PcoMirror

open Program

variable {env : Env} {r parent : Res} {fk : String}

/-! ## The parents' table -/

/-- No document PCO serves under a parent is of the parent's own type. -/
def Env.SparesParents (env : Env) (r parent : Res) : Prop :=
  ∀ tick id offset resp body, env.respond tick (.nested parent id r offset) = .ok resp →
    resp.document = .ok body →
    (∀ included, pageIncluded body = .ok included → ∀ doc ∈ included, ∀ target,
      routeTarget doc none [] = .ok (some target) → target.1 ≠ parent) ∧
    ∀ items, pageData body = .ok items → ∀ doc ∈ items, ∀ target,
      routeTarget doc none [] = .ok (some target) → target.1 ≠ parent

/-- A parent of walked collections is owned by nothing. -/
theorem unowned_parent (hr : Nested r parent fk) (t : Res) : ∀ e ∈ ownedChildren t, e.1 ≠ parent := by
  have hparent : r.info.parent = some parent → parent ∈ [Res.household, .list, .form] := by
    cases r <;> simp [Res.info, referenceResource] <;> rintro rfl <;> simp
  have hnone : ∀ u ∈ [Res.household, .list, .form], ∀ e ∈ ownedChildren t, e.1 ≠ u := by
    cases t <;> decide
  exact hnone parent (hparent hr.parent)

theorem tables_put_ne {t u : Res} (h : u ≠ t) (db : Db) (id : String) (row : Row) :
    (db.put t id row).tables u = db.tables u :=
  if_neg h

theorem tables_foldl {u : Res} {edges : List (Res × String)} {step : Db → Res × String → Db}
    (h : ∀ db, ∀ e ∈ edges, (step db e).tables u = db.tables u) (db : Db) :
    (edges.foldl step db).tables u = db.tables u := by
  induction edges generalizing db with
  | nil => rfl
  | cons e edges ih =>
      rw [List.foldl_cons, ih fun db e he => h db e (List.mem_cons_of_mem _ he)]
      exact h db e List.mem_cons_self

theorem tables_updateAll_ne {t u : Res} (h : t ≠ u) (db : Db) (f : Row → Row) :
    (db.updateAll t f).tables u = db.tables u :=
  if_neg h.symm

theorem tables_updateRow_ne {t u : Res} (h : u ≠ t) (db : Db) (id : String) (f : Row → Row) :
    (db.updateRow t id f).tables u = db.tables u := by
  rw [Db.updateRow]
  cases db.row? t id with
  | none => rfl
  | some row => exact tables_put_ne h db id (f row)

theorem tables_settle (hr : Nested r parent fk) (t : Res) (id now : String) (db : Db) :
    (settle t id now db).tables parent = db.tables parent := by
  have hdatum : parent ≠ .fieldDatum :=
    unowned_parent hr .person (.fieldDatum, "person_pco_id") (by decide) |>.symm
  have hrevived : (uncascade t id now db).tables parent = db.tables parent := by
    refine tables_foldl (fun db e he => ?_) db
    split_ifs
    · exact tables_updateAll_ne (unowned_parent hr t e he) db _
    · rfl
  rw [settle]
  split_ifs
  · rw [projectFieldDatum, tables_updateRow_ne hdatum, hrevived]
  · exact hrevived

theorem tables_write (hr : Nested r parent fk) {t : Res} (h : t ≠ parent) (id : String) (raw : Json)
    (stamp : Stamp) (db : Db) : (write t id raw stamp db).tables parent = db.tables parent := by
  rw [write]
  split_ifs
  · rw [upsert_eq, tables_settle hr, tables_put_ne h.symm]
  · rw [upsertUntimed_eq, tables_put_ne h.symm]

theorem tables_tombstone (hr : Nested r parent fk) (t : Res) (id : String) (reason : Reason)
    (now : String) (db : Db) : (tombstone t id none reason none now db).tables parent =
      (db.updateRow t id fun row => row.tombstoned none reason none now).tables parent := by
  rw [tombstone]
  split_ifs
  · exact tables_foldl (fun db e he => tables_updateAll_ne (unowned_parent hr t e he) db _) _
  · rfl

/-- The rows of the parents' table but one, in their order. -/
def Db.others (db : Db) (t : Res) (id : String) : List (Sigma fun _ : String => Row) :=
  (db.tables t).entries.filter fun e => e.1 != id

theorem others_tombstone (hr : Nested r parent fk) (id : String) (reason : Reason) (now : String)
    (db : Db) : (tombstone parent id none reason none now db).others parent id =
      db.others parent id := by
  rw [Db.others, Db.others, tables_tombstone hr, Db.updateRow]
  cases db.row? parent id with
  | none => rfl
  | some row =>
      simp only [Db.put, if_true]
      exact Sql.Table.entries_insert_filter _ id _

/-! ## One walk -/

/-- The parents are as in a table. -/
def World.ParentsAre (parent : Res) (t : Sql.Table Row) (w : World) : Prop :=
  w.db.tables parent = t

/-- All the parents but one are as in a table. -/
def World.OthersAre (parent : Res) (id : String) (t : Sql.Table Row) (w : World) : Prop :=
  w.db.others parent id = t.entries.filter fun e => e.1 != id

variable {t : Sql.Table Row} {id : String}

theorem parentsAre_ofTables (parent : Res) (t : Sql.Table Row) :
    OfTables (World.ParentsAre parent t) :=
  fun w w' hdb _ hw => by rw [World.ParentsAre, hdb]; exact hw

theorem World.ParentsAre.others {w : World} (h : w.ParentsAre parent t) (id : String) :
    w.OthersAre parent id t := by
  rw [World.OthersAre, Db.others, h]

theorem keeps_routeOne_parents (hr : Nested r parent fk) {source : Source} {doc : Json}
    (h : ∀ target, routeTarget doc none [] = .ok (some target) → target.1 ≠ parent) :
    Keeps (World.ParentsAre parent t) (routeOne env source none [] doc) := by
  intro w hw
  cases htarget : routeTarget doc none [] with
  | error e =>
      rw [routeOne_raises htarget]
      exact hw
  | ok target =>
      rw [routeOne_run htarget]
      simp only [World.ParentsAre, World.routedOne, routed, htarget]
      cases target with
      | none => exact hw
      | some target => exact (tables_write hr (h target htarget) _ _ _ _).trans hw

theorem keeps_routePage_parents (hr : Nested r parent fk) {status : ℕ} {body : Json}
    {source : Source}
    (hincluded : ∀ included, pageIncluded body = .ok included → ∀ doc ∈ included, ∀ target,
      routeTarget doc none [] = .ok (some target) → target.1 ≠ parent)
    (hitems : ∀ items, pageData body = .ok items → ∀ doc ∈ items, ∀ target,
      routeTarget doc none [] = .ok (some target) → target.1 ≠ parent) :
    Keeps (World.ParentsAre parent t) (routePage env status body source [] none) := by
  refine keeps_ofPy_bind fun items hdata => ?_
  refine Keeps.bind (Keeps.modify fun w hw => hw) fun _ => keeps_ofPy_bind fun included hside => ?_
  refine Keeps.bind (Keeps.forEach included fun doc hdoc =>
    keeps_routeOne_parents hr (hincluded included hside doc hdoc)) fun _ => ?_
  exact Keeps.bind (Keeps.forEach items fun doc hdoc =>
    keeps_routeOne_parents hr (hitems items hdata doc hdoc)) fun _ => Keeps.pure _

/-- The parent may be buried; then the walk does not raise. -/
theorem spec_tombstoneIfAbsent_parents (hr : Nested r parent fk) (env : Env) (id : String) :
    Spec (World.ParentsAre parent t) (tombstoneIfAbsent env parent id)
      (fun _ => World.OthersAre parent id t) fun _ _ => False := by
  intro w hw
  rw [tombstoneIfAbsent, EStateM.run_bind, run_attempt, clientGet_run]
  cases hanswer : env.respond w.tick (.record parent id []) with
  | error e => exact World.ParentsAre.others (w := w.asked env _) hw id
  | ok resp =>
      by_cases habsent : resp.status = 404
      · simp only [if_pos habsent]
        rw [tombstoneOne_run]
        exact (others_tombstone hr id _ _ _).trans (World.ParentsAre.others hw id)
      · simp only [if_neg habsent]
        exact World.ParentsAre.others (w := w.asked env _) hw id

theorem spec_walkPage_parents (hr : Nested r parent fk) (hspares : env.SparesParents r parent)
    (id : String) (source : Source) (p : WalkPass) :
    Spec (World.ParentsAre parent t) (walkPage env r parent id source p)
      (Pass.Holds (fun _ => World.ParentsAre parent t) fun seen w =>
        (seen.isSome → w.ParentsAre parent t) ∧ w.OthersAre parent id t)
      fun _ => World.ParentsAre parent t := by
  intro w hw
  unfold walkPage
  rw [EStateM.run_bind, clientGet_run]
  cases hresp : env.respond w.tick (.nested parent id r p.offset) with
  | error e => exact hw
  | ok resp =>
      have hasked : (w.asked env (.nested parent id r p.offset)).ParentsAre parent t := hw
      have habsent : Spec (World.ParentsAre parent t)
          (do
            tombstoneIfAbsent env parent id
            return .leave none : Proc (Pass WalkPass (Option (List Json))))
          (Pass.Holds (fun _ => World.ParentsAre parent t) fun seen w =>
            (seen.isSome → w.ParentsAre parent t) ∧ w.OthersAre parent id t)
          fun _ => World.ParentsAre parent t :=
        Spec.bind ((spec_tombstoneIfAbsent_parents hr env id).mono_halt fun _ _ => False.elim)
          fun _ => Spec.pure fun w hw => ⟨nofun, hw⟩
      refine Spec.ite (fun _ => habsent) (fun _ => Spec.ite (fun _ => Spec.throw fun _ hw => hw)
        fun _ => ?_) _ hasked
      refine spec_ofPy_bind (fun body hbody => ?_) fun _ _ _ hw => hw
      obtain ⟨hincluded, hitems⟩ := hspares _ _ _ _ body hresp hbody
      refine spec_ofPy_bind (fun data _ => ?_) fun _ _ _ hw => hw
      refine Spec.bind (keeps_routePage_parents hr hincluded hitems) fun _ => ?_
      refine spec_ofPy_bind (fun items _ => ?_) fun _ _ _ hw => hw
      refine spec_ofPy_bind (fun ids _ => ?_) fun _ _ _ hw => hw
      exact Spec.ite (fun _ => Spec.pure fun w hw => ⟨fun _ => hw, hw.others id⟩)
        fun _ => Spec.pure fun _ hw => hw

theorem keeps_tombstoneOne_parents (hr : Nested r parent fk) {u : Res} (h : u ≠ parent)
    (k : String) (reason : Reason) :
    Keeps (World.ParentsAre parent t) (tombstoneOne env u k none reason) := by
  intro w hw
  rw [tombstoneOne_run]
  refine Eq.trans ?_ hw
  exact (tables_tombstone hr u k reason _ _).trans (tables_updateRow_ne h.symm _ _ _)

/-- A walk that raises leaves the parents alone, and one that returns all but its own. -/
theorem spec_walkOne_parents (hr : Nested r parent fk) (hspares : env.SparesParents r parent)
    (id : String) (source : Source) (fuel : ℕ) :
    Spec (World.ParentsAre parent t) (walkOne env r parent id source fuel)
      (fun _ => World.OthersAre parent id t) fun _ => World.ParentsAre parent t := by
  refine Spec.bind (Spec.whileTrue (fun _ => World.ParentsAre parent t)
    (spec_walkPage_parents hr hspares id source) (fun _ _ hw => hw) fuel ⟨0, []⟩) fun seen => ?_
  cases seen with
  | none => exact Spec.pure fun w hw => hw.2
  | some seen =>
      have hne : r ≠ parent := by
        have hall : r.info.method = .nestedWalk → r.info.parent ≠ some r := by cases r <;> decide
        rintro rfl
        exact hall hr.method hr.parent
      refine Spec.conseq (P := World.ParentsAre parent t) (Q := fun _ => World.ParentsAre parent t)
        (E := fun _ => World.ParentsAre parent t) ?_ (fun w hw => hw.1 rfl)
        (fun _ w hw => hw.others id) fun _ _ hw => hw
      refine Spec.bind (R := fun _ => World.ParentsAre parent t) (Spec.get fun _ hw => hw) fun w => ?_
      exact Keeps.bind (Keeps.forEach _ fun k _ => keeps_tombstoneOne_parents hr hne k _) fun _ =>
        Keeps.pure _

/-! ## What is due -/

/-- When a parent was last walked. -/
def World.walkedAt (w : World) (r : Res) (id : String) : Option String :=
  ((w.walks r).lookup id).map (·.walkedAt)

/-- `ORDER BY w.walked_at IS NOT NULL, w.walked_at, CAST(p.pco_id AS INTEGER)`. -/
def World.sooner (w : World) (r : Res) (a b : String) : Bool :=
  match w.walkedAt r a, w.walkedAt r b with
  | none, none => Sql.castInteger a ≤ Sql.castInteger b
  | none, some _ => true
  | some _, none => false
  | some x, some y => x < y || (x = y && Sql.castInteger a ≤ Sql.castInteger b)

def World.isDue (w : World) (r : Res) (started id : String) : Bool :=
  (w.walkedAt r id).all (· < started)

/-- The live parents that are not walked since a round began, in the order of the round. -/
def World.due (w : World) (r parent : Res) (started : String) : List String :=
  (w.db.select parent fun id row => row.live && w.isDue r started id).insertionSort fun a b =>
    w.sooner r a b

theorem dueParents_eq (w : World) (r parent : Res) (started : String) (budget : ℕ) :
    w.dueParents r parent started budget = (w.due r parent started).take budget := by
  have hdue (id : String) : w.isDue r started id =
      ((w.walks r).lookup id).all fun walk => walk.walkedAt < started := by
    rw [World.isDue, World.walkedAt]
    cases (w.walks r).lookup id <;> rfl
  simp only [World.due, hdue]
  rfl

instance (w : World) (r : Res) : IsTrans String fun a b => w.sooner r a b = true where
  trans a b c := by
    simp only [World.sooner]
    cases w.walkedAt r a <;> cases w.walkedAt r b <;> cases w.walkedAt r c <;>
      simp only [Bool.false_eq_true, decide_eq_true_eq, Bool.or_eq_true, Bool.and_eq_true,
        imp_self, implies_true, false_implies]
    · exact le_trans
    · rintro (h | ⟨rfl, h⟩) (h' | ⟨rfl, h'⟩)
      · exact .inl (h.trans h')
      · exact .inl h
      · exact .inl h'
      · exact .inr ⟨rfl, h.trans h'⟩

instance (w : World) (r : Res) : Std.Total fun a b => w.sooner r a b = true where
  total a b := by
    simp only [World.sooner]
    cases w.walkedAt r a with
    | none =>
        cases w.walkedAt r b with
        | none => simpa using le_total _ _
        | some y => exact .inl rfl
    | some x =>
        cases w.walkedAt r b with
        | none => exact .inr rfl
        | some y =>
            simp only [Bool.or_eq_true, Bool.and_eq_true, decide_eq_true_eq]
            rcases lt_trichotomy x y with h | rfl | h
            · exact .inl (.inl h)
            · exact (le_total (Sql.castInteger a) (Sql.castInteger b)).imp (fun h => .inr ⟨rfl, h⟩)
                fun h => .inr ⟨rfl, h⟩
            · exact .inr (.inl h)

theorem nodup_due (w : World) (r parent : Res) (started : String) :
    (w.due r parent started).Nodup :=
  (List.perm_insertionSort _ _).nodup_iff.mpr (Sql.Table.nodup_select _ _)

/-- Where one parent has been walked and nothing else has changed, it alone leaves the queue. -/
theorem due_of_others {w w' : World} {started : String} {id : String}
    (hothers : w'.OthersAre parent id (w.db.tables parent)) (hdone : w'.isDue r started id = false)
    (hwalks : ∀ k, k ≠ id → w'.walkedAt r k = w.walkedAt r k) :
    w'.due r parent started = (w.due r parent started).filter (· != id) := by
  have hselect : (w'.db.select parent fun k row => row.live && w'.isDue r started k) =
      (w.db.select parent fun k row => row.live && w.isDue r started k).filter (· != id) := by
    have hself : (w'.db.select parent fun k row => row.live && w'.isDue r started k).filter
        (· != id) = w'.db.select parent fun k row => row.live && w'.isDue r started k := by
      rw [List.filter_eq_self]
      intro k hk
      obtain ⟨row, -, hrow⟩ := Db.mem_select.mp hk
      refine bne_iff_ne.mpr fun heq => ?_
      rw [heq, hdone, Bool.and_false] at hrow
      cases hrow
    rw [← hself, Db.select, Db.select, Sql.Table.select_filter_ne, Sql.Table.select_filter_ne]
    change (((w'.db.others parent id).filter _).map _) = _
    rw [hothers]
    refine congrArg _ (List.filter_congr fun e he => ?_)
    have hne : e.1 ≠ id := by simpa using (List.mem_filter.mp he).2
    rw [World.isDue, World.isDue, hwalks e.1 hne]
  have hsame : ∀ a ∈ (w.db.select parent fun k row => row.live && w.isDue r started k).filter
      (· != id), w'.walkedAt r a = w.walkedAt r a := fun a ha =>
    hwalks a (by simpa using (List.mem_filter.mp ha).2)
  have hsort := List.map_insertionSort (fun a b => w'.sooner r a b = true)
    (fun a b => w.sooner r a b = true) (fun k => k) _ fun a ha b hb => by
      rw [World.sooner, hsame a ha, hsame b hb, World.sooner]
  rw [World.due, hselect, World.due, Queue.filter_insertionSort]
  simpa using hsort

/-! ## A batch of walks -/

variable {started : String} {fuel : ℕ}

theorem due_of_same {w w' : World} (htables : w'.db.tables parent = w.db.tables parent)
    (hwalks : w'.walks = w.walks) : w'.due r parent started = w.due r parent started := by
  have hsame : w'.walkedAt r = w.walkedAt r := by
    funext id
    rw [World.walkedAt, World.walkedAt, hwalks]
  unfold World.due World.sooner World.isDue Db.select
  rw [hsame, htables]

/-- A walk that returns takes its parent off the queue, and one that raises leaves the queue. -/
theorem spec_walkParent_due (hr : Nested r parent fk) (hspares : env.SparesParents r parent)
    (hclock : ∀ tick, started ≤ env.now tick) (id : String) (fuel : ℕ) (w : World) :
    Spec (fun w' => w' = w) (walkParent env r parent id .reconcile fuel)
      (fun _ w' => w'.due r parent started = (w.due r parent started).filter (· != id))
      fun _ w' => w'.due r parent started = w.due r parent started := by
  have hone : Spec (fun w' => w' = w) (walkOne env r parent id .reconcile fuel)
      (fun _ w' => w'.OthersAre parent id (w.db.tables parent) ∧ Writes w w')
      fun _ w' => w'.ParentsAre parent (w.db.tables parent) ∧ Writes w w' := by
    rintro w' rfl
    have hparents := spec_walkOne_parents (t := w'.db.tables parent) hr hspares id .reconcile fuel
      w' rfl
    have hwrites := writing_walkOne env r parent id .reconcile fuel w' w' (Writes.refl w')
    cases hrun : (walkOne env r parent id .reconcile fuel).run w' <;> rw [hrun] at hparents hwrites
    · exact ⟨hparents, hwrites⟩
    · exact ⟨hparents, hwrites⟩
  refine Spec.bind (hone.mono_halt ?_) fun n => ?_
  · rintro _ _ ⟨htables, db, tick, entries, rfl⟩
    exact due_of_same htables rfl
  · rintro _ ⟨hothers, db, tick, entries, rfl⟩
    refine due_of_others hothers ?_ fun k hk => ?_
    · have hnow : decide (env.now tick < started) = false := decide_eq_false (hclock tick).not_gt
      rw [World.isDue, World.walkedAt]
      simp only [if_true, AList.lookup_insert]
      exact hnow
    · simp [World.walkedAt, AList.lookup_insert_ne hk]

/-- The parents of a batch whose walks return. -/
def walkedOf (env : Env) (r parent : Res) (fuel : ℕ) : List String → World → List String
  | [], _ => []
  | id :: rest, w =>
    match (walkParent env r parent id .reconcile fuel).run w with
    | .ok _ w' => id :: walkedOf env r parent fuel rest w'
    | .error _ w' => walkedOf env r parent fuel rest w'

/-- Every walk comes to an end within the fuel. -/
def Env.EndsWalks (env : Env) (r parent : Res) (fuel : ℕ) : Prop :=
  ∀ id, Finishes (walkParent env r parent id .reconcile fuel)

theorem walkedOf_subset (ids : List String) (w : World) :
    walkedOf env r parent fuel ids w ⊆ ids := by
  induction ids generalizing w with
  | nil => exact List.Subset.refl _
  | cons id rest ih =>
      rw [walkedOf]
      cases (walkParent env r parent id .reconcile fuel).run w with
      | ok _ w' => exact List.cons_subset_cons id (ih w')
      | error _ w' => exact List.Subset.trans (ih w') (List.subset_cons_self id rest)

/-- A batch goes through all of its parents, and those whose walks return leave the queue. -/
theorem walkEach_due (hr : Nested r parent fk) (hspares : env.SparesParents r parent)
    (hclock : ∀ tick, started ≤ env.now tick) (hends : env.EndsWalks r parent fuel)
    (ids : List String) (applied : ℕ) (failed : List String) (w : World) :
    ∃ outcome w', (walkEach env r parent .reconcile fuel applied failed ids).run w =
        .ok outcome w' ∧
      w'.due r parent started =
        (w.due r parent started).filter (· ∉ walkedOf env r parent fuel ids w) := by
  induction ids generalizing applied failed w with
  | nil => exact ⟨_, _, rfl, by simp [walkedOf]⟩
  | cons id rest ih =>
      have hwalk := spec_walkParent_due hr hspares hclock id fuel w w rfl
      rw [walkEach, walkedOf]
      simp only [EStateM.run_bind, run_attempt]
      cases hrun : (walkParent env r parent id .reconcile fuel).run w with
      | ok n w₁ =>
          rw [hrun] at hwalk
          obtain ⟨outcome, w', hrest, hdue⟩ := ih (applied + n) failed w₁
          refine ⟨outcome, w', hrest, ?_⟩
          rw [hdue, hwalk, List.filter_filter]
          refine List.filter_congr fun k _ => ?_
          rw [Bool.eq_iff_iff]
          simp [and_comm]
      | error halt w₁ =>
          rw [hrun] at hwalk
          cases halt with
          | stopped => exact absurd hrun (hends id w w₁)
          | raised e =>
              obtain ⟨outcome, w', hrest, hdue⟩ :=
                ih applied (failed ++ [id ++ ": " ++ e.text]) w₁
              exact ⟨outcome, w', hrest, hdue.trans (by rw [hwalk])⟩

/-- The walk of a parent raises. -/
def WalkFails (env : Env) (r parent : Res) (fuel : ℕ) (id : String) (w : World) : Prop :=
  ∃ e w', (walkParent env r parent id .reconcile fuel).run w = .error (.raised e) w'

theorem not_walkFails_of_mem {ids : List String} {w : World} {id : String}
    (h : id ∈ walkedOf env r parent fuel ids w) : ∃ w', ¬WalkFails env r parent fuel id w' := by
  induction ids generalizing w with
  | nil => cases h
  | cons first rest ih =>
      rw [walkedOf] at h
      cases hrun : (walkParent env r parent first .reconcile fuel).run w with
      | ok n w' =>
          rw [hrun] at h
          rcases List.mem_cons.mp h with rfl | h
          · refine ⟨w, ?_⟩
            rintro ⟨e, w'', hraises⟩
            cases hrun.symm.trans hraises
          · exact ih h
      | error halt w' =>
          rw [hrun] at h
          exact ih h

theorem mem_walkedOf (hends : env.EndsWalks r parent fuel) {ids : List String} {w : World}
    {id : String} (hmem : id ∈ ids) (hreturns : ∀ w', ¬WalkFails env r parent fuel id w') :
    id ∈ walkedOf env r parent fuel ids w := by
  induction ids generalizing w with
  | nil => cases hmem
  | cons first rest ih =>
      rw [walkedOf]
      cases hrun : (walkParent env r parent first .reconcile fuel).run w with
      | ok n w' =>
          rcases List.mem_cons.mp hmem with rfl | hmem
          · exact List.mem_cons_self
          · exact List.mem_cons_of_mem _ (ih hmem)
      | error halt w' =>
          rcases List.mem_cons.mp hmem with rfl | hmem
          · cases halt with
            | stopped => exact absurd hrun (hends id w w')
            | raised e => exact absurd ⟨e, w', hrun⟩ (hreturns w)
          · exact ih hmem

/-! ## One step -/

/-- When the round that a step works on began. -/
def World.roundStart (w : World) (env : Env) (r : Res) : String :=
  match w.walkRound r with
  | some round => round.started
  | none => env.now w.tick

/-- The mirror once a step's round has begun. -/
def World.begun (w : World) (env : Env) (r : Res) : World :=
  match w.walkRound r with
  | some _ => w
  | none => { w with
      tick := w.tick + 1
      walkRound := fun u => if u = r then some ⟨env.now w.tick, 0⟩ else w.walkRound u
      sync := fun u => if u = r then
          { w.sync u with lastSweepStartedAt := some (env.now w.tick) } else w.sync u }

/-- The parents whose walks return in one step. -/
def World.walked (w : World) (env : Env) (r parent : Res) (budget fuel : ℕ) : List String :=
  walkedOf env r parent fuel ((w.due r parent (w.roundStart env r)).take budget) (w.begun env r)

/-- A step that records its round as complete. -/
def World.Completes (w : World) (env : Env) (r parent : Res) (budget fuel : ℕ) : Prop :=
  ∃ walked w', (walkRoundStep env r parent budget fuel).run w = .ok ⟨true, walked⟩ w'

theorem due_begun (w : World) (env : Env) (r parent : Res) (started : String) :
    (w.begun env r).due r parent started = w.due r parent started := by
  rw [World.begun]
  cases w.walkRound r with
  | some round => rfl
  | none => exact due_of_same rfl rfl

/-- What a step does when no parent is due. -/
def completeRound (env : Env) (r : Res) (walked : ℕ) : Proc WalkOutcome := do
  let now ← nowIso env
  let count ← liveCount r
  setState r fun st => { st with
    lastSweepCompletedAt := some now
    consecutiveErrors := 0
    lastError := none
    mirrorCountLast := some count }
  modify fun w => { w with walkRound := fun u => if u = r then none else w.walkRound u }
  return ⟨true, walked⟩

/-- What it does with the parents that are. -/
def walkBatch (env : Env) (r parent : Res) (fuel : ℕ) (round : WalkRound) (due : List String) :
    Proc WalkOutcome := do
  let (_, failed) ← walkEach env r parent .reconcile fuel 0 [] due
  let walked := round.walked + (due.length - failed.length)
  modify fun w => { w with
    walkRound := fun u => if u = r then some { round with walked := walked } else w.walkRound u }
  if failed.length = due.length then
    raise (.ingestError ("walk step of " ++ r.info.name ++ ": all " ++ toString failed.length ++
      " parents failed: " ++ firstFailure failed))
  return ⟨false, walked⟩

theorem walkRoundStep_run (env : Env) (r parent : Res) (budget fuel : ℕ) (w : World) :
    ∃ n, (walkRoundStep env r parent budget fuel).run w =
      (if ((w.due r parent (w.roundStart env r)).take budget).isEmpty then completeRound env r n
        else walkBatch env r parent fuel ⟨w.roundStart env r, n⟩
          ((w.due r parent (w.roundStart env r)).take budget)).run (w.begun env r) := by
  have hget : (get : Proc World).run w = .ok w w := rfl
  simp only [← due_begun w env r parent, ← dueParents_eq]
  rw [World.roundStart, World.begun, walkRoundStep, EStateM.run_bind, hget]
  cases h : w.walkRound r with
  | some round =>
      refine ⟨round.walked, ?_⟩
      simp only [h]
      rfl
  | none =>
      refine ⟨0, ?_⟩
      simp only [h]
      rfl

theorem completes_of_empty {w : World} (budget : ℕ)
    (hdue : w.due r parent (w.roundStart env r) = []) : w.Completes env r parent budget fuel := by
  obtain ⟨n, hrun⟩ := walkRoundStep_run env r parent budget fuel w
  rw [hdue, List.take_nil, List.isEmpty_nil, if_pos rfl] at hrun
  exact ⟨n, _, hrun⟩

/-- A step with parents due does not complete the round; those whose walks return are due no more. -/
theorem step_due (hr : Nested r parent fk) (hspares : env.SparesParents r parent)
    (hends : env.EndsWalks r parent fuel) {budget : ℕ} (hbudget : 0 < budget) {w : World}
    (hclock : ∀ tick, w.roundStart env r ≤ env.now tick)
    (hdue : w.due r parent (w.roundStart env r) ≠ []) :
    ¬w.Completes env r parent budget fuel ∧
      (w.after (walkRoundStep env r parent budget fuel)).due r parent (w.roundStart env r) =
        (w.due r parent (w.roundStart env r)).filter (· ∉ w.walked env r parent budget fuel) ∧
      ∀ env', (w.after (walkRoundStep env r parent budget fuel)).roundStart env' r =
        w.roundStart env r := by
  obtain ⟨n, hrun⟩ := walkRoundStep_run env r parent budget fuel w
  have hbatch : ((w.due r parent (w.roundStart env r)).take budget).isEmpty = false := by
    simpa [List.isEmpty_iff, List.take_eq_nil_iff, hbudget.ne'] using hdue
  rw [hbatch, if_neg Bool.false_ne_true, walkBatch, EStateM.run_bind] at hrun
  obtain ⟨⟨applied, failed⟩, w', heach, hleft⟩ := walkEach_due hr hspares hclock hends
    ((w.due r parent (w.roundStart env r)).take budget) 0 [] (w.begun env r)
  rw [heach] at hrun
  rw [due_begun] at hleft
  let round : WalkRound := ⟨w.roundStart env r,
    n + (((w.due r parent (w.roundStart env r)).take budget).length - failed.length)⟩
  let after : World :=
    { w' with walkRound := fun u => if u = r then some round else w'.walkRound u }
  have hends : (∃ walked, (walkRoundStep env r parent budget fuel).run w = .ok ⟨false, walked⟩ after) ∨
      ∃ e, (walkRoundStep env r parent budget fuel).run w = .error e after := by
    by_cases hall : failed.length = ((w.due r parent (w.roundStart env r)).take budget).length
    · simp only [if_pos hall] at hrun
      exact .inr ⟨_, hrun⟩
    · simp only [if_neg hall] at hrun
      exact .inl ⟨_, hrun⟩
  have hafter : w.after (walkRoundStep env r parent budget fuel) = after := by
    rcases hends with ⟨walked, heq⟩ | ⟨e, heq⟩ <;> rw [World.after, heq]
  rw [hafter]
  refine ⟨?_, (due_of_same rfl rfl).trans hleft, fun env' => ?_⟩
  · rintro ⟨walked, w'', hcompletes⟩
    rcases hends with ⟨walked', heq⟩ | ⟨e, heq⟩ <;> cases heq.symm.trans hcompletes
  · simp [World.roundStart, after, round]

/-! ## Repeated steps -/

/-- What some of the steps leave. -/
def World.stepped (w : World) (calls : ℕ → Env) (r parent : Res) (budget fuel : ℕ) : ℕ → World
  | 0 => w
  | n + 1 => (w.stepped calls r parent budget fuel n).after
      (walkRoundStep (calls n) r parent budget fuel)

/-- What the steps of a round rest on: what is served under a parent is never a parent itself, no
walk goes on for ever, and the clock does not go back before the round began. -/
structure WalkCalls (w : World) (calls : ℕ → Env) (r parent : Res) (fuel : ℕ) : Prop where
  spares : ∀ n, (calls n).SparesParents r parent
  ends : ∀ n, (calls n).EndsWalks r parent fuel
  clock : ∀ n tick, w.roundStart (calls 0) r ≤ (calls n).now tick

/-- The parents that the first step finds due. -/
def World.dueFirst (w : World) (calls : ℕ → Env) (r parent : Res) : List String :=
  w.due r parent (w.roundStart (calls 0) r)

variable {w : World} {calls : ℕ → Env} {budget : ℕ}

/-- As long as any parent is due, the round goes on. -/
theorem roundStart_stepped (hr : Nested r parent fk) (hbudget : 0 < budget)
    (hcalls : WalkCalls w calls r parent fuel) {n : ℕ}
    (hne : ∀ m < n, (w.stepped calls r parent budget fuel m).due r parent
      (w.roundStart (calls 0) r) ≠ []) :
    (w.stepped calls r parent budget fuel n).roundStart (calls n) r =
      w.roundStart (calls 0) r := by
  induction n with
  | zero => rfl
  | succ n ih =>
      have hstart := ih fun m hm => hne m (hm.trans (Nat.lt_succ_self n))
      obtain ⟨-, -, hnext⟩ := step_due (w := w.stepped calls r parent budget fuel n) hr
        (hcalls.spares n) (hcalls.ends n) hbudget (hstart ▸ hcalls.clock n)
        (hstart ▸ hne n (Nat.lt_succ_self n))
      exact (hnext _).trans hstart

theorem sifted_stepped (hr : Nested r parent fk) (hbudget : 0 < budget)
    (hcalls : WalkCalls w calls r parent fuel) :
    Queue.Sifted
      (fun n => (w.stepped calls r parent budget fuel n).due r parent (w.roundStart (calls 0) r))
      (fun n => (w.stepped calls r parent budget fuel n).walked (calls n) r parent budget fuel)
      budget where
  next := by
    intro n hne
    have hstart := roundStart_stepped hr hbudget hcalls fun m hm => hne m hm.le
    obtain ⟨-, hnext, -⟩ := step_due (w := w.stepped calls r parent budget fuel n) hr
      (hcalls.spares n) (hcalls.ends n) hbudget (hstart ▸ hcalls.clock n)
      (hstart ▸ hne n (Nat.le_refl n))
    rw [hstart] at hnext
    exact hnext
  first := by
    intro n hne
    have hstart := roundStart_stepped hr hbudget hcalls fun m hm => hne m hm.le
    rw [World.walked, hstart]
    exact walkedOf_subset _ _

theorem ready_of_returns (hr : Nested r parent fk) (hbudget : 0 < budget)
    (hcalls : WalkCalls w calls r parent fuel) {n : ℕ} {id : String}
    (hreturns : ∀ w', ¬WalkFails (calls n) r parent fuel id w') :
    Queue.Ready
      (fun n => (w.stepped calls r parent budget fuel n).due r parent (w.roundStart (calls 0) r))
      (fun n => (w.stepped calls r parent budget fuel n).walked (calls n) r parent budget fuel)
      budget n id := by
  intro hne hmem
  have hstart := roundStart_stepped hr hbudget hcalls fun m hm => hne m hm.le
  simp only [World.walked, hstart]
  exact mem_walkedOf (hcalls.ends n) hmem hreturns

/-- Where the walk of each parent due returns again and again, some step completes the round. -/
theorem completes_of_returns (hr : Nested r parent fk) (hbudget : 0 < budget)
    (hcalls : WalkCalls w calls r parent fuel)
    (hreturns : ∀ id ∈ w.dueFirst calls r parent,
      ∀ n, ∃ m ≥ n, ∀ w', ¬WalkFails (calls m) r parent fuel id w') :
    ∃ n, (w.stepped calls r parent budget fuel n).Completes (calls n) r parent budget fuel := by
  have hempty := (sifted_stepped hr hbudget hcalls).exists_empty hbudget fun id hid n => by
    obtain ⟨m, hm, hreturn⟩ := hreturns id hid n
    exact ⟨m, hm, ready_of_returns hr hbudget hcalls hreturn⟩
  refine ⟨Nat.find hempty, completes_of_empty budget ?_⟩
  rw [roundStart_stepped hr hbudget hcalls fun m hm => Nat.find_min hempty hm]
  exact Nat.find_spec hempty

/-- A parent that is due and whose walk never returns keeps the round from ever being complete. -/
theorem not_completes_of_fails (hr : Nested r parent fk) (hbudget : 0 < budget)
    (hcalls : WalkCalls w calls r parent fuel) {id : String}
    (hid : id ∈ w.dueFirst calls r parent)
    (hfails : ∀ n w', WalkFails (calls n) r parent fuel id w') (n : ℕ) :
    ¬(w.stepped calls r parent budget fuel n).Completes (calls n) r parent budget fuel := by
  have hwaits : Queue.Waits
      (fun n => (w.stepped calls r parent budget fuel n).walked (calls n) r parent budget fuel)
      n id := by
    intro m _ hmem
    obtain ⟨w', hreturns⟩ := not_walkFails_of_mem hmem
    exact hreturns (hfails m w')
  have hne : ∀ m ≤ n, (w.stepped calls r parent budget fuel m).due r parent
      (w.roundStart (calls 0) r) ≠ [] := fun m hm =>
    List.ne_nil_of_mem ((sifted_stepped hr hbudget hcalls).mem_of_waits hid hwaits m hm)
  have hstart := roundStart_stepped hr hbudget hcalls fun m hm => hne m hm.le
  exact (step_due hr (hcalls.spares n) (hcalls.ends n) hbudget (hstart ▸ hcalls.clock n)
    (hstart ▸ hne n (Nat.le_refl n))).1

/-- While the walks of a subset of the parents fail every time, and each of the others returns again
and again, repeated steps walk all the others, never complete the round before one of the subset that
is due has been walked, and complete it once no walk fails any more, just where fewer parents of the
subset than a step takes are ahead of each of the others. -/
theorem walkRound_progress_iff (r parent : Res) (fk : String) (hr : Nested r parent fk) (w : World)
    (calls : ℕ → Env) (budget fuel : ℕ) (hbudget : 0 < budget)
    (hcalls : WalkCalls w calls r parent fuel) (fails : String → Bool)
    (hfails : ∀ id ∈ w.dueFirst calls r parent, fails id = true →
      ∀ n w', WalkFails (calls n) r parent fuel id w')
    (hothers : ∀ id ∈ w.dueFirst calls r parent, fails id = false →
      ∀ n, ∃ m ≥ n, ∀ w', ¬WalkFails (calls m) r parent fuel id w') :
    ((∀ id ∈ w.dueFirst calls r parent, fails id = false →
        ∃ n, id ∈ (w.stepped calls r parent budget fuel n).walked (calls n) r parent budget fuel) ∧
      (∀ id ∈ w.dueFirst calls r parent, fails id = true → ∀ n,
        ¬(w.stepped calls r parent budget fuel n).Completes (calls n) r parent budget fuel) ∧
      ∀ (n : ℕ) (later : ℕ → Env),
        WalkCalls (w.stepped calls r parent budget fuel n) later r parent fuel →
        (∀ id ∈ (w.stepped calls r parent budget fuel n).dueFirst later r parent,
          ∀ k, ∃ m ≥ k, ∀ w', ¬WalkFails (later m) r parent fuel id w') →
        ∃ m, ((w.stepped calls r parent budget fuel n).stepped later r parent budget fuel m).Completes
          (later m) r parent budget fuel) ↔
      ∀ pre id post, w.dueFirst calls r parent = pre ++ id :: post → fails id = false →
        pre.countP fails < budget := by
  have hnever : ∀ id ∈ w.dueFirst calls r parent, fails id = true →
      ∀ n, id ∉ (w.stepped calls r parent budget fuel n).walked (calls n) r parent budget fuel := by
    intro id hid hfail n hmem
    obtain ⟨w', hreturns⟩ := not_walkFails_of_mem hmem
    exact hreturns (hfails id hid hfail n w')
  have hiff := (sifted_stepped hr hbudget hcalls).reached_iff (nodup_due w r parent _) hnever
    fun id hid hfail n => by
      obtain ⟨m, hm, hreturn⟩ := hothers id hid hfail n
      exact ⟨m, hm, ready_of_returns hr hbudget hcalls hreturn⟩
  refine Iff.trans (and_iff_left ⟨?_, ?_⟩) hiff
  · exact fun id hid hfail n =>
      not_completes_of_fails hr hbudget hcalls hid (hfails id hid hfail) n
  · exact fun n later hlater hreturns => completes_of_returns hr hbudget hlater hreturns

/-! ## One household that cannot be walked -/

/-- PCO serves no memberships, and the connection fails whenever those of household 1 are asked for. -/
def oneFailsEnv : Env :=
  { quietEnv with respond := fun _ request =>
      match request with
      | .nested .household "1" _ _ => .error .transportError
      | .nested _ _ _ _ => .ok ⟨200, .json (.obj [("data", .arr [])])⟩
      | _ => .error .transportError }

/-- Households 1 and 2, neither of them walked yet. -/
def twoHouseholds : World where
  db := (["2", "1"].foldl (fun db id => db.put .household id
    (Row.fresh (.obj [("type", .str "Household"), ("id", .str id)])
      ⟨.reconcile, "2024-01-31", "2024-03-01T00:00:00Z"⟩)) Db.empty)

theorem walkFails_oneFailsEnv (w : World) :
    WalkFails oneFailsEnv .householdMembership .household 1 "1" w :=
  ⟨_, _, rfl⟩

theorem walkParent_oneFailsEnv {id : String} (h : id ≠ "1") (w : World) :
    ∃ n w', (walkParent oneFailsEnv .householdMembership .household id .reconcile 1).run w =
      .ok n w' := by
  have hserves : ServesNested oneFailsEnv .household id .householdMembership [] := by
    intro tick offset
    have hpage : Paging.page 100 offset ([] : List Json) = [] := by simp [Paging.page]
    refine ⟨200, .obj [("data", .arr [])], ?_, by decide, by decide, by rw [hpage]; rfl, rfl⟩
    simp only [oneFailsEnv]
    split
    · case h_1 heq =>
        cases heq
        exact absurd rfl h
    · rfl
    · case h_3 hnot => exact absurd rfl (hnot _ _ _ _)
  have hchildren : ∀ e ∈ ([] : List (String × Json)), IsChild .householdMembership e.1 e.2 :=
    List.forall_mem_nil _
  obtain ⟨n, w', hrun, -⟩ := (spec_walkParent nested_householdMembership oneFailsEnv id .reconcile
    hchildren List.nodup_nil hserves w 1 Nat.one_pos).returns rfl
  exact ⟨n, w', hrun⟩

theorem not_walkFails_oneFailsEnv {id : String} (h : id ≠ "1") (w : World) :
    ¬WalkFails oneFailsEnv .householdMembership .household 1 id w := by
  rintro ⟨e, w', hraises⟩
  obtain ⟨n, w'', hrun⟩ := walkParent_oneFailsEnv h w
  cases hrun.symm.trans hraises

theorem walkCalls_oneFailsEnv :
    WalkCalls twoHouseholds (fun _ => oneFailsEnv) .householdMembership .household 1 where
  spares := by
    intro _ tick id offset resp body hresp hbody
    have hempty : resp = ⟨200, .json (.obj [("data", .arr [])])⟩ := by
      simp only [oneFailsEnv] at hresp
      split at hresp <;> cases hresp
      rfl
    subst hempty
    cases hbody
    constructor <;> rintro _ ⟨⟩ doc hdoc <;> cases hdoc
  ends := by
    intro _ id w w' hstopped
    by_cases h : id = "1"
    · obtain ⟨e, w'', hraises⟩ := walkFails_oneFailsEnv w
      rw [h, hraises] at hstopped
      cases hstopped
    · obtain ⟨n, w'', hrun⟩ := walkParent_oneFailsEnv h w
      cases hrun.symm.trans hstopped
  clock := fun _ _ => le_refl _

theorem dueFirst_twoHouseholds :
    twoHouseholds.dueFirst (fun _ => oneFailsEnv) .householdMembership .household = ["1", "2"] := by
  decide +kernel

/-- A step of two parents has room for the one that fails and for another. -/
theorem walkRound_progress_iff_room : ∃ n,
    "2" ∈ (twoHouseholds.stepped (fun _ => oneFailsEnv) .householdMembership .household 2 1 n).walked
      oneFailsEnv .householdMembership .household 2 1 := by
  refine ((walkRound_progress_iff .householdMembership .household "household_pco_id"
    nested_householdMembership twoHouseholds (fun _ => oneFailsEnv) 2 1 (by decide)
    walkCalls_oneFailsEnv (· == "1") ?_ ?_).mpr ?_).1 "2" ?_ rfl
  · rintro id - hfail n w'
    rw [beq_iff_eq.mp hfail]
    exact walkFails_oneFailsEnv w'
  · exact fun id _ hfail n => ⟨n, Nat.le_refl n, not_walkFails_oneFailsEnv (by simpa using hfail)⟩
  · intro pre id post heq _
    rw [dueFirst_twoHouseholds] at heq
    have hlength := congrArg List.length heq
    simp only [List.length_cons, List.length_nil, List.length_append] at hlength
    have hcount := List.countP_le_length (p := (· == "1")) (l := pre)
    omega
  · rw [dueFirst_twoHouseholds]
    decide

/-- A step of one parent never gets past the household that cannot be walked. -/
theorem walkRound_no_progress : ¬ ∀ (r parent : Res) (fk : String), Nested r parent fk →
    ∀ (w : World) (calls : ℕ → Env) (budget fuel : ℕ), 0 < budget →
    WalkCalls w calls r parent fuel → ∀ fails : String → Bool,
    (∀ id ∈ w.dueFirst calls r parent, fails id = true →
      ∀ n w', WalkFails (calls n) r parent fuel id w') →
    (∀ id ∈ w.dueFirst calls r parent, fails id = false →
      ∀ n, ∃ m ≥ n, ∀ w', ¬WalkFails (calls m) r parent fuel id w') →
    ∀ id ∈ w.dueFirst calls r parent, fails id = false →
      ∃ n, id ∈ (w.stepped calls r parent budget fuel n).walked (calls n) r parent budget fuel := by
  intro h
  have hfails : ∀ id, (id == "1") = true → ∀ (n : ℕ) w',
      WalkFails oneFailsEnv .householdMembership .household 1 id w' := by
    intro id hfail _ w'
    rw [beq_iff_eq.mp hfail]
    exact walkFails_oneFailsEnv w'
  obtain ⟨n, hn⟩ := h .householdMembership .household "household_pco_id" nested_householdMembership
    twoHouseholds (fun _ => oneFailsEnv) 1 1 Nat.one_pos walkCalls_oneFailsEnv (· == "1")
    (fun id _ => hfails id)
    (fun id _ hfail n => ⟨n, Nat.le_refl n, not_walkFails_oneFailsEnv (by simpa using hfail)⟩) "2"
    (by rw [dueFirst_twoHouseholds]; decide) rfl
  have hnever : ∀ id ∈ twoHouseholds.dueFirst (fun _ => oneFailsEnv) .householdMembership .household,
      (id == "1") = true → ∀ n, id ∉ (twoHouseholds.stepped (fun _ => oneFailsEnv)
        .householdMembership .household 1 1 n).walked oneFailsEnv .householdMembership .household
          1 1 := by
    intro id _ hfail n hmem
    obtain ⟨w', hreturns⟩ := not_walkFails_of_mem hmem
    exact hreturns (hfails id hfail n w')
  have hsplit : twoHouseholds.dueFirst (fun _ => oneFailsEnv) .householdMembership .household =
      ["1"] ++ "2" :: [] := dueFirst_twoHouseholds
  have hwaits := (sifted_stepped nested_householdMembership Nat.one_pos
    walkCalls_oneFailsEnv).not_served (nodup_due _ _ _ _) hnever hsplit (by decide) (n + 1)
  exact hwaits n (Nat.lt_succ_self n) hn

end PcoMirror
