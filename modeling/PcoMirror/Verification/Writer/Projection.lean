import PcoMirror.Lib.Derived
import PcoMirror.Model.Ingest.Hydration
import PcoMirror.Verification.Webhooks.Events
import PcoMirror.Verification.Writer.Operations

/-! The typed columns of the field data as a view: what the stored value is under the data
type of the stored definition, and which writes leave it behind. -/

namespace PcoMirror

open Program

/-! ## The view -/

/-- The data type a definition's document states; empty where it states none. -/
def dataTypeOf (definition : Option Json) : String :=
  (definition.bind (Res.column .fieldDefinition "data_type")).getD ""

/-- The stored document of a field definition. -/
def Db.definition? (db : Db) (id : String) : Option Json :=
  (db.row? .fieldDefinition id).map Row.raw

/-- The data type of the definition a field datum names, as it is stored now. -/
def Db.dataType (db : Db) (datum : Json) : String :=
  dataTypeOf ((Res.column .fieldDatum "field_definition_id" datum).bind db.definition?)

/-- The typed columns of a field datum under a data type. -/
def projectionUnder (datum : Json) (dataType : String) : TypedValue :=
  typedProjection (Res.column .fieldDatum "value" datum) dataType

/-- The typed columns of every field datum are the projection of its stored value under the
data type of its currently stored definition. -/
def Db.Projected (db : Db) : Prop :=
  ∀ id row, db.row? .fieldDatum id = some row →
    row.typedValue = projectionUnder row.raw (db.dataType row.raw)

/-- What the view is made of. -/
def Row.datum (row : Row) : Json × TypedValue :=
  (row.raw, row.typedValue)

variable {db db' : Db}

/-- What the view shows of a document stored beside others. -/
def stores (t : Res) (id : String) (raw : Json) :
    Derived.Write String (Option String) Json String :=
  match t with
  | .fieldDatum => .store id raw
  | .fieldDefinition => .set (some id) (dataTypeOf (some raw))
  | _ => .rest

/-- What the passes do to the mirrored tables. -/
inductive TableWrite where
  /-- A document routed, from a page or by itself. -/
  | route (resource : Json) (stamp : Stamp) (ownerHint : Option Json) (synthesized : List String)
  /-- A record confirmed live. -/
  | confirmLive (t : Res) (id : String) (raw : Json) (stamp : Stamp)
  /-- A record of a reference list confirmed live, with what the refresh does of it then. -/
  | refresh (t : Res) (id : String) (raw : Json) (stamp : Stamp)
  | tombstone (t : Res) (id : String) (evidence : Option Json) (reason : Reason)
      (mergedInto : Option String) (now : String)
  /-- A merge entered in its table. -/
  | recordMerger (id : String) (raw : Json) (stamp : Stamp)

namespace TableWrite

def apply (db : Db) : TableWrite → Db
  | .route resource stamp ownerHint synthesized => routed resource stamp ownerHint synthesized db
  | .confirmLive t id raw stamp => PcoMirror.confirmLive t id raw stamp db
  | .refresh t id raw stamp =>
    let db := PcoMirror.confirmLive t id raw stamp db
    if t = .fieldDefinition then reprojectFieldData id db else db
  | .tombstone t id evidence reason mergedInto now =>
    PcoMirror.tombstone t id evidence reason mergedInto now db
  | .recordMerger id raw stamp => db.put .personMerger id (Row.fresh raw stamp)

end TableWrite

/-- A write, as the view sees it. -/
def TableWrite.seen (db : Db) : TableWrite → Derived.Write String (Option String) Json String
  | .route resource stamp ownerHint synthesized =>
    match routeTarget resource ownerHint synthesized with
    | .ok (some (t, id, stored)) =>
      stores t id (if t.info.timestamped then (upserted stored stamp (db.row? t id)).raw
        else (upsertedUntimed stored stamp (db.row? t id)).raw)
    | _ => .rest
  | .confirmLive t id raw _ => stores t id raw
  | .refresh t id raw _ =>
    match stores t id raw with
    | .set d dataType => .reset d dataType
    | write => write
  | .tombstone .. | .recordMerger .. => .rest

/-- The tables come from those of an earlier state by writes of the passes. -/
def World.Wrote (w w' : World) : Prop :=
  ∃ writes, w'.db = Run.exec TableWrite.apply w.db writes

variable {env : Env} {w₀ : World}

theorem wrote_ofTables (w₀ : World) : OfTables (World.Wrote w₀) := by
  rintro w w' hdb - ⟨writes, hw⟩
  exact ⟨writes, hdb.trans hw⟩

theorem World.Wrote.step {w w' : World} (h : w₀.Wrote w) (write : TableWrite)
    (hdb : w'.db = write.apply w.db) : w₀.Wrote w' := by
  obtain ⟨writes, hw⟩ := h
  refine ⟨writes ++ [write], ?_⟩
  rw [hdb, hw, Run.exec_append]
  rfl

theorem wrote_routeOne (source : Source) (ownerHint : Option Json) (synthesized : List String)
    (resource : Json) :
    Keeps w₀.Wrote (routeOne env source ownerHint synthesized resource) := by
  intro w hw
  cases htarget : routeTarget resource ownerHint synthesized with
  | ok target =>
      rw [routeOne_run htarget]
      exact hw.step (.route resource ⟨source, env.apiVersion, env.now w.tick⟩ ownerHint synthesized)
        rfl
  | error e =>
      rw [routeOne_raises htarget]
      exact wrote_ofTables w₀ _ _ rfl rfl hw

theorem wrote_tombstoneOne (t : Res) (id : String) (evidence : Option Json) (reason : Reason)
    (mergedInto : Option String) :
    Keeps w₀.Wrote (tombstoneOne env t id evidence reason mergedInto) :=
  fun w hw => hw.step (.tombstone t id evidence reason mergedInto (env.now w.tick)) rfl

theorem wrote_confirmLiveOne (t : Res) (id : String) (raw : Json) (source : Source) :
    Keeps w₀.Wrote (confirmLiveOne env t id raw source) :=
  fun w hw => hw.step (.confirmLive t id raw ⟨source, env.apiVersion, env.now w.tick⟩) rfl

theorem wrote_refreshOne (r : Res) (d : Json) : Keeps w₀.Wrote (refreshOne env r d) := by
  refine keeps_ofPy_bind fun id _ => fun w hw => ?_
  have hdb : ∀ w' : World, w'.db = (TableWrite.refresh r id d
      ⟨.reconcile, env.apiVersion, env.now w.tick⟩).apply w.db → w₀.Wrote w' :=
    fun w' => hw.step _
  by_cases hdefinition : r = .fieldDefinition
  · subst hdefinition
    exact hdb _ rfl
  · simp only [if_neg hdefinition]
    refine hdb _ ?_
    simp only [TableWrite.apply, if_neg hdefinition]

theorem wrote_includeDiff (included : List Json) (requested : List String) (person : Json) :
    Keeps w₀.Wrote (includeDiff env included requested person) :=
  keeps_ofPy_bind fun _ _ => keeps_ofPy_bind fun _ _ => keeps_ofPy_bind fun _ _ =>
    Keeps.forEach _ fun child _ => Keeps.bind Keeps.get fun _ =>
      Keeps.forEach _ fun id _ => wrote_tombstoneOne child id none _ _

/-- A page of documents is a run of writes. -/
theorem routePage_wrote (status : ℕ) (body : Json) (source : Source) (synthesized : List String)
    (ownerHint : Option Json) :
    Keeps w₀.Wrote (routePage env status body source synthesized ownerHint) := by
  refine keeps_ofPy_bind fun items _ => ?_
  have hhanded : Keeps w₀.Wrote
      (modify fun w => { w with log := items.map (.handed status) ++ w.log } : Proc PUnit) :=
    Keeps.modify fun _ hw => hw
  refine Keeps.bind hhanded fun _ => keeps_ofPy_bind fun included _ => ?_
  exact Keeps.bind (Keeps.forEach _ fun d _ => wrote_routeOne _ _ _ d) fun _ =>
    Keeps.bind (Keeps.forEach _ fun d _ => wrote_routeOne _ _ _ d) fun _ => Keeps.pure _

theorem hydrate_wrote (r : Res) (id : String) (includes : List String) :
    Keeps w₀.Wrote (hydrate env r id includes) := by
  have hstore : ∀ status record, Keeps w₀.Wrote (storeHydrated env r id status record) :=
    fun status record => Spec.ite
      (fun _ => Keeps.bind (Keeps.modify fun _ hw => hw) fun _ => wrote_routeOne _ _ _ _)
      fun _ => wrote_confirmLiveOne _ _ _ _
  refine keeps_clientGet_bind (wrote_ofTables w₀) fun _ resp _ => ?_
  refine Spec.ite (fun _ => wrote_tombstoneOne _ _ _ _ _) fun _ =>
    Spec.ite (fun _ => ?_) fun _ => Keeps.pure _
  refine keeps_ofPy_bind fun record _ => Keeps.whenSome record fun record _ => ?_
  refine Keeps.bind (hstore _ _) fun _ => keeps_ofPy_bind fun included _ => ?_
  exact Keeps.bind (Keeps.forEach _ fun d _ => wrote_routeOne _ _ _ d) fun _ =>
    Spec.ite (fun _ => wrote_includeDiff _ _ _) fun _ => Keeps.pure _

theorem referenceRefresh_wrote (r : Res) (fuel : ℕ) :
    Keeps w₀.Wrote (referenceRefresh env r fuel) := by
  refine Keeps.bind (Keeps.whileTrue (fun p => ?_) _ _) fun fetched =>
    Keeps.bind Keeps.get fun _ => ?_
  · refine keeps_clientGet_bind (wrote_ofTables w₀) fun _ resp _ => keeps_ofPy_bind fun body _ => ?_
    exact keeps_ofPy_bind fun data _ => keeps_ofPy_bind fun items _ =>
      Keeps.bind (Keeps.forEach _ fun d _ => wrote_refreshOne r d) fun _ =>
        keeps_ofPy_bind fun ids _ => Spec.ite (fun _ => Keeps.pure _) fun _ => Keeps.pure _
  · exact Keeps.bind (Keeps.forEach _ fun id _ => wrote_tombstoneOne _ _ _ _ _)
      fun _ => Keeps.pure _

theorem wrote_handleMerge (payload : Json) : Keeps w₀.Wrote (handleMerge env payload) :=
  keeps_handleMerge (wrote_ofTables w₀) env payload fun _ id _ => {
    bury := fun _ gone keep now _ _ hw =>
      hw.step (.tombstone .person gone none .merged keep now) rfl
    record := fun _ stamp _ _ hw => hw.step (.recordMerger id payload stamp) rfl }

theorem wrote_applyEvent (r : Option Res) (ev : WebhookEvent) (payload : Json) :
    Keeps w₀.Wrote (applyEvent env r ev payload) := by
  refine Spec.ite (fun _ => wrote_handleMerge payload) fun _ => ?_
  cases r with
  | none => exact Keeps.pure _
  | some r =>
      refine Spec.ite (fun _ => ?_) fun _ => ?_
      · exact keeps_ofPy_bind fun _ _ => keeps_ofPy_bind fun _ _ => keeps_ofPy_bind fun _ _ =>
          wrote_tombstoneOne _ _ _ _ _
      · have hforget : Keeps w₀.Wrote (if ev.action = "refreshed" then do
            let id ← ofPy (idOf payload)
            forgetChildWalks r id
          else pure ()) :=
          Spec.ite (fun _ => keeps_ofPy_bind fun _ _ =>
            keeps_forgetChildWalks (wrote_ofTables w₀) r _) fun _ => Keeps.pure _
        refine Keeps.bind (wrote_routeOne _ _ _ _) fun _ => Spec.ite (fun _ => ?_) fun _ => hforget
        exact keeps_ofPy_bind fun _ _ =>
          Keeps.bind (keeps_enqueueOrDefer (wrote_ofTables w₀) env r _) fun _ => hforget

/-- An event of a webhook is a run of writes. -/
theorem processEvent_wrote (eventId : Option String) (ev : WebhookEvent) :
    Keeps w₀.Wrote (processEvent env eventId ev) := by
  have hI := wrote_ofTables w₀
  have hdecoded : ∀ decoded, Keeps w₀.Wrote (do
      let payload ← ofPy (unwrap decoded)
      if (byEventResource ev.resourceType).isNone ∧ ev.resourceType ≠ "person_merger" then
        ignoreEvent env eventId ("no table for " ++ ev.resourceType)
      else
        catching (do
          applyEvent env (byEventResource ev.resourceType) ev payload
          let now ← nowIso env
          setEvent eventId fun ev => { ev with status := "done", processedAt := some now })
          fun e => retryOrDead env eventId ev e.text) := by
    refine fun decoded => keeps_ofPy_bind fun payload _ => Spec.ite (fun _ => ?_) fun _ => ?_
    · exact Keeps.bind (keeps_nowIso hI env) fun _ => keeps_setEvent hI eventId _
    · refine spec_catching (Keeps.bind (wrote_applyEvent _ ev payload) fun _ => ?_)
        fun e => keeps_retryOrDead hI env eventId ev _
      exact Keeps.bind (keeps_nowIso hI env) fun _ => keeps_setEvent hI eventId _
  unfold processEvent
  cases ev.payload with
  | empty => exact hdecoded _
  | invalid => exact keeps_deadEvent hI eventId ev _
  | json decoded => exact hdecoded decoded

end PcoMirror
