import PcoMirror.Lib.Agreement
import PcoMirror.Model.Ingest.Sweep
import PcoMirror.Verification.Writer.Operations

/-! Mirrored rows with their clock columns left out: what the ingest writes beside the
clock does not depend on when it is written. -/

namespace PcoMirror

open Program

/-! ## Rows -/

/-- A row without the columns that only record when it was written. -/
def Row.timeless (row : Row) : Row :=
  { row with firstSeenAt := "", lastSyncedAt := "" }

def Db.timeless (db : Db) : Db :=
  ⟨fun t => (db.tables t).update fun _ => Row.timeless⟩

/-- The tables differ in their clock columns at most. -/
def SameRows (db db' : Db) : Prop :=
  db.timeless = db'.timeless

/-- Two rewritings of a row that differ in its clock columns at most. -/
def SameUpdate (f f' : Row → Row) : Prop :=
  ∀ row row' : Row, row.timeless = row'.timeless → (f row).timeless = (f' row').timeless

theorem SameUpdate.of_timeless {f f' : Row → Row} (g : Row → Row)
    (h : ∀ row, (f row).timeless = g row.timeless)
    (h' : ∀ row, (f' row).timeless = g row.timeless) : SameUpdate f f' := by
  intro row row' hrow
  rw [h, h', hrow]

theorem SameUpdate.ite {c c' : Row → Prop} [DecidablePred c] [DecidablePred c']
    {f f' : Row → Row} (hf : SameUpdate f f')
    (hc : ∀ row row' : Row, row.timeless = row'.timeless → (c row ↔ c' row')) :
    SameUpdate (fun row => if c row then f row else row)
      fun row => if c' row then f' row else row := by
  intro row row' hrow
  have hiff := hc row row' hrow
  by_cases h : c row
  · simp only [h, hiff.mp h, if_true]
    exact hf row row' hrow
  · simp only [h, hiff.not.mp h, if_false]
    exact hrow

/-! ## Tables -/

variable {db db' : Db}

theorem SameRows.row? (h : SameRows db db') (t : Res) (id : String) :
    (db.row? t id).map Row.timeless = (db'.row? t id).map Row.timeless := by
  have hlookup : ∀ db : Db, db.timeless.row? t id = (db.row? t id).map Row.timeless :=
    fun db => Sql.Table.lookup_update _ _ _
  rw [← hlookup, ← hlookup, h]

theorem SameRows.isLive (h : SameRows db db') (t : Res) (id : String) :
    db.isLive t id = db'.isLive t id := by
  have hlive : ∀ row? : Option Row, row?.any Row.live = (row?.map Row.timeless).any Row.live := by
    intro row?
    cases row? <;> rfl
  rw [Db.isLive, Db.isLive, hlive (db.row? t id), h.row?, ← hlive]

theorem Sql.Table.update_insert {α : Type} (t : Sql.Table α) (f : α → α) (id : String) (row : α) :
    Sql.Table.update (t.insert id row) (fun _ => f) =
      AList.insert id (f row) (Sql.Table.update t fun _ => f) := by
  apply AList.ext
  simp only [Sql.Table.update, AList.entries_insert, List.map_cons]
  congr 1
  simp only [List.kerase]
  rw [List.eraseP_map]
  rfl

theorem Db.timeless_put (db : Db) (t : Res) (id : String) (row : Row) :
    (db.put t id row).timeless = db.timeless.put t id row.timeless := by
  unfold Db.timeless Db.put
  congr 1
  funext u
  by_cases hu : u = t
  · simp only [hu, if_true]
    exact Sql.Table.update_insert _ _ _ _
  · simp only [hu, if_false]

theorem SameRows.put (h : SameRows db db') (t : Res) (id : String) {row row' : Row}
    (hrow : row.timeless = row'.timeless) : SameRows (db.put t id row) (db'.put t id row') := by
  rw [SameRows, Db.timeless_put, Db.timeless_put, h, hrow]

theorem SameRows.updateAll (h : SameRows db db') (t : Res) {f f' : Row → Row}
    (hf : SameUpdate f f') : SameRows (db.updateAll t f) (db'.updateAll t f') := by
  let write (g : Row → Row) : (Sigma fun _ : String => Row) → Sigma fun _ : String => Row :=
    Sigma.map id fun _ => g
  have hentries : ∀ entries entries' : List (Sigma fun _ : String => Row),
      entries.map (write Row.timeless) = entries'.map (write Row.timeless) →
      (entries.map (write f)).map (write Row.timeless) =
        (entries'.map (write f')).map (write Row.timeless) := by
    intro entries
    induction entries with
    | nil =>
        intro entries' heq
        rw [List.map_nil, eq_comm, List.map_eq_nil_iff] at heq
        rw [heq]
        rfl
    | cons e entries ih =>
        intro entries' heq
        cases entries' with
        | nil => cases heq
        | cons e' entries' =>
            obtain ⟨hhead, htail⟩ := List.cons.inj heq
            obtain ⟨k, row⟩ := e
            obtain ⟨k', row'⟩ := e'
            obtain ⟨rfl, hrow⟩ := Sigma.mk.inj hhead
            have hwritten := hf row row' (eq_of_heq hrow)
            simp only [List.map_cons, ih entries' htail, write, Sigma.map, hwritten]
            rfl
  have htables := congrArg Db.tables h
  rw [SameRows, Db.timeless, Db.timeless]
  congr 1
  funext u
  have hu := congrFun htables u
  by_cases hut : u = t
  · simp only [Db.updateAll, hut, if_true]
    rw [hut] at hu
    exact AList.ext (hentries _ _ (congrArg AList.entries hu))
  · simp only [Db.updateAll, hut, if_false]
    exact hu

theorem SameRows.updateRow (h : SameRows db db') (t : Res) (id : String) {f f' : Row → Row}
    (hf : SameUpdate f f') : SameRows (db.updateRow t id f) (db'.updateRow t id f') := by
  have hrow := h.row? t id
  unfold Db.updateRow
  cases hheld : db.row? t id with
  | none =>
      rw [hheld, Option.map_none, eq_comm, Option.map_eq_none_iff] at hrow
      simpa only [hrow] using h
  | some row =>
      rw [hheld, Option.map_some, eq_comm, Option.map_eq_some_iff] at hrow
      obtain ⟨row', hheld', htimeless⟩ := hrow
      simpa only [hheld'] using h.put t id (hf row row' htimeless.symm)

/-! ## The writer -/

theorem raw_of_timeless {row row' : Row} (h : row.timeless = row'.timeless) :
    row.raw = row'.raw := by
  have hraw := congrArg Row.raw h
  exact hraw

theorem reason_of_timeless {row row' : Row} (h : row.timeless = row'.timeless) :
    row.tombstoneReason = row'.tombstoneReason := by
  have hreason := congrArg Row.tombstoneReason h
  exact hreason

theorem SameRows.raw (h : SameRows db db') (t : Res) (id : String) :
    (db.row? t id).map Row.raw = (db'.row? t id).map Row.raw := by
  have hraw : ∀ row? : Option Row, row?.map Row.raw = (row?.map Row.timeless).map Row.raw := by
    intro row?
    cases row? <;> rfl
  rw [hraw (db.row? t id), h.row?, ← hraw]

theorem SameRows.uncascade (h : SameRows db db') (t : Res) (id now now' : String) :
    SameRows (uncascade t id now db) (uncascade t id now' db') := by
  unfold PcoMirror.uncascade
  generalize ownedChildren t = edges
  induction edges generalizing db db' with
  | nil => exact h
  | cons e edges ih =>
      simp only [List.foldl_cons]
      apply ih
      rw [h.isLive]
      split_ifs
      · refine h.updateAll e.1 (SameUpdate.ite ?_ ?_)
        · exact SameUpdate.of_timeless (fun row => { row with
            deletedAt := none
            tombstoneUat := none
            tombstoneReason := none }) (fun _ => rfl) fun _ => rfl
        · intro row row' hrow
          rw [raw_of_timeless hrow, reason_of_timeless hrow]
      · exact h

theorem SameRows.projectFieldDatum (h : SameRows db db') (id : String) :
    SameRows (projectFieldDatum id db) (projectFieldDatum id db') := by
  let dataType (db : Db) (raw : Json) : Option String :=
    ((Res.column .fieldDatum "field_definition_id" raw).bind (db.row? .fieldDefinition)).bind
      fun d => Res.column .fieldDefinition "data_type" d.raw
  have hdataType : ∀ raw, dataType db raw = dataType db' raw := by
    intro raw
    simp only [dataType]
    cases Res.column .fieldDatum "field_definition_id" raw with
    | none => rfl
    | some k =>
        have hraw := congrArg (·.bind (Res.column .fieldDefinition "data_type"))
          (h.raw .fieldDefinition k)
        simp only [Option.bind_map] at hraw
        exact hraw
  refine h.updateRow _ _ (SameUpdate.of_timeless (fun row => { row with
    typedValue := typedProjection (Res.column .fieldDatum "value" row.raw)
      ((dataType db' row.raw).getD "") }) (fun row => ?_) fun _ => rfl)
  rw [← hdataType]
  rfl

theorem SameRows.settle (h : SameRows db db') (t : Res) (id now now' : String) :
    SameRows (settle t id now db) (settle t id now' db') := by
  rw [PcoMirror.settle, PcoMirror.settle]
  split_ifs
  · exact (h.uncascade t id now now').projectFieldDatum id
  · exact h.uncascade t id now now'

theorem SameUpdate.held {f f' : Row → Row} {fresh fresh' : Row} (hf : SameUpdate f f')
    (hfresh : fresh.timeless = fresh'.timeless) {held held' : Option Row}
    (h : held.map Row.timeless = held'.map Row.timeless) :
    ((held.map f).getD fresh).timeless = ((held'.map f').getD fresh').timeless := by
  cases held with
  | none =>
      rw [Option.map_none, eq_comm, Option.map_eq_none_iff] at h
      rw [h]
      exact hfresh
  | some row =>
      rw [Option.map_some, eq_comm, Option.map_eq_some_iff] at h
      obtain ⟨row', rfl, hrow⟩ := h
      exact hf row row' hrow.symm

theorem sameUpdate_upsert (raw : Json) (source : Source) (apiVersion now now' : String) :
    SameUpdate (·.upsert raw ⟨source, apiVersion, now⟩) (·.upsert raw ⟨source, apiVersion, now'⟩) :=
  SameUpdate.of_timeless (fun row => (row.upsert raw ⟨source, apiVersion, now⟩).timeless)
    (fun _ => rfl) fun _ => rfl

theorem sameUpdate_upsertUntimed (raw : Json) (source : Source) (apiVersion now now' : String) :
    SameUpdate (·.upsertUntimed raw ⟨source, apiVersion, now⟩)
      (·.upsertUntimed raw ⟨source, apiVersion, now'⟩) :=
  SameUpdate.of_timeless (fun row => (row.upsertUntimed raw ⟨source, apiVersion, now⟩).timeless)
    (fun _ => rfl) fun _ => rfl

theorem timeless_fresh (raw : Json) (source : Source) (apiVersion now now' : String) :
    (Row.fresh raw ⟨source, apiVersion, now⟩).timeless =
      (Row.fresh raw ⟨source, apiVersion, now'⟩).timeless := rfl

theorem SameRows.write (h : SameRows db db') (t : Res) (id : String) (raw : Json) (source : Source)
    (apiVersion now now' : String) :
    SameRows (write t id raw ⟨source, apiVersion, now⟩ db)
      (write t id raw ⟨source, apiVersion, now'⟩ db') := by
  have hheld := h.row? t id
  have hfresh := timeless_fresh raw source apiVersion now now'
  rw [PcoMirror.write, PcoMirror.write]
  split_ifs
  · rw [upsert_eq, upsert_eq]
    have hrow := (sameUpdate_upsert raw source apiVersion now now').held hfresh hheld
    exact (h.put t id hrow).settle t id now now'
  · rw [upsertUntimed_eq, upsertUntimed_eq]
    have hrow := (sameUpdate_upsertUntimed raw source apiVersion now now').held hfresh hheld
    exact h.put t id hrow

/-! ## Worlds -/

/-- Two states of the mirror between which only clocks, counters and the parts of one
sync row that `view` leaves out may differ. -/
structure Alike {κ : Type} (r : Res) (view : SyncState → κ) (w w' : World) : Prop where
  rows : SameRows w.db w'.db
  sync : view (w.sync r) = view (w'.sync r)

variable {κ : Type} {r : Res} {view : SyncState → κ}

theorem agree_ofPy {α : Type} (e : Except PyError α) :
    Agree (Alike r view) (ofPy e) (ofPy e) := by
  cases e with
  | ok a => exact Agree.pure a
  | error e => exact Agree.throw _

theorem agree_modify {f : World → World} (hdb : ∀ w, (f w).db = w.db)
    (hsync : ∀ w, (f w).sync = w.sync) :
    Agree (Alike r view) (modify f : Proc PUnit) (modify f) := by
  refine Agree.modify fun w w' h => ⟨?_, ?_⟩
  · rw [hdb, hdb]
    exact h.rows
  · rw [hsync, hsync]
    exact h.sync

theorem agree_clientGet {env : Env} {request : Request}
    (hstatic : ∀ tick tick', env.respond tick request = env.respond tick' request) :
    Agree (Alike r view) (clientGet env request) (clientGet env request) := by
  intro w w' h
  rw [clientGet_run, clientGet_run, hstatic w.tick w'.tick]
  cases env.respond w'.tick request with
  | ok resp => exact .ok resp ⟨h.rows, h.sync⟩
  | error e => exact .error _ ⟨h.rows, h.sync⟩

theorem agree_setState {f f' : SyncState → SyncState}
    (hf : ∀ st st', view st = view st' → view (f st) = view (f' st')) :
    Agree (Alike r view) (setState r f) (setState r f') := by
  refine Agree.modify fun w w' h => ⟨h.rows, ?_⟩
  simpa only [if_true] using hf _ _ h.sync

theorem agree_nowIso_bind {α : Type} {env : Env} {f : String → Proc α}
    (hf : ∀ now now', Agree (Alike r view) (f now) (f now')) :
    Agree (Alike r view) (nowIso env >>= f) (nowIso env >>= f) := by
  intro w w' h
  exact hf (env.now w.tick) (env.now w'.tick) { w with tick := w.tick + 1 }
    { w' with tick := w'.tick + 1 } ⟨h.rows, h.sync⟩

theorem agree_routeOne (env : Env) (source : Source) (ownerHint : Option Json)
    (synthesized : List String) (resource : Json) :
    Agree (Alike r view) (routeOne env source ownerHint synthesized resource)
      (routeOne env source ownerHint synthesized resource) := by
  intro w w' h
  cases htarget : routeTarget resource ownerHint synthesized with
  | error e =>
      have hrun : ∀ w : World, (routeOne env source ownerHint synthesized resource).run w =
          .error (.raised e) { w with tick := w.tick + 1 } := by
        intro w
        change (onDb (route resource ⟨source, env.apiVersion, env.now w.tick⟩ ownerHint
          synthesized)).run { w with tick := w.tick + 1 } = _
        unfold route
        rw [htarget]
        rfl
      rw [hrun, hrun]
      exact .error _ ⟨h.rows, h.sync⟩
  | ok target =>
      rw [routeOne_run htarget, routeOne_run htarget]
      refine .ok () ⟨?_, h.sync⟩
      simp only [World.routedOne, routed, htarget]
      cases target with
      | none => exact h.rows
      | some target => exact h.rows.write target.1 target.2.1 target.2.2 source env.apiVersion _ _

theorem agree_routePage (env : Env) (status : ℕ) (body : Json) (source : Source) :
    Agree (Alike r view) (routePage env status body source)
      (routePage env status body source) := by
  refine Agree.bind (agree_ofPy _) fun items => Agree.bind (agree_modify (fun _ => rfl)
    fun _ => rfl) fun _ => Agree.bind (agree_ofPy _) fun included => ?_
  refine Agree.bind (Agree.forEach (agree_routeOne env source none []) included) fun _ => ?_
  exact Agree.bind (Agree.forEach (agree_routeOne env source none []) items) fun _ =>
    Agree.pure _

end PcoMirror
