import PcoMirror.Lib.Run
import PcoMirror.Model.Webhooks
import PcoMirror.Verification.Writer.Equations

/-! Runs of the writer's operations and of the merges, and the programs that touch
nothing but the tables and the record of tombstones. -/

namespace PcoMirror

open Program

/-! ## Operations -/

/-- A call of the writer, or a merge from either side. -/
inductive Op where
  | upsert (t : Res) (id : String) (raw : Json) (stamp : Stamp)
  | upsertUntimed (t : Res) (id : String) (raw : Json) (stamp : Stamp)
  | tombstone (t : Res) (id : String) (evidence : Option Json) (reason : Reason)
      (mergedInto : Option String) (now : String)
  | confirmLive (t : Res) (id : String) (raw : Json) (stamp : Stamp)
  | route (resource : Json) (stamp : Stamp) (ownerHint : Option Json) (synthesized : List String)
  | mergerPoll (env : Env) (fuel : ℕ)
  | handleMerge (env : Env) (payload : Json)

def World.withDb (w : World) (db : Db) : World :=
  { w with db := db }

/-- A tombstone, entered in the record. -/
def World.bury (w : World) (t : Res) (id : String) (evidence : Option Json) (reason : Reason)
    (mergedInto : Option String) (now : String) : World :=
  { w with
    db := PcoMirror.tombstone t id evidence reason mergedInto now w.db
    log := .tombstoned t id reason :: w.log }

/-- What the router does to the tables; a document it refuses changes nothing. -/
def routed (resource : Json) (stamp : Stamp) (ownerHint : Option Json) (synthesized : List String)
    (db : Db) : Db :=
  match routeTarget resource ownerHint synthesized with
  | .ok (some (r, id, stored)) => write r id stored stamp db
  | _ => db

def Op.apply (w : World) : Op → World
  | .upsert t id raw stamp => w.withDb (PcoMirror.upsert t id raw stamp w.db)
  | .upsertUntimed t id raw stamp => w.withDb (PcoMirror.upsertUntimed t id raw stamp w.db)
  | .tombstone t id evidence reason mergedInto now =>
    w.bury t id evidence reason mergedInto now
  | .confirmLive t id raw stamp => w.withDb (PcoMirror.confirmLive t id raw stamp w.db)
  | .route resource stamp ownerHint synthesized =>
    w.after (onDb (PcoMirror.route resource stamp ownerHint synthesized))
  | .mergerPoll env fuel => w.after (PcoMirror.mergerPoll env fuel)
  | .handleMerge env payload => w.after (PcoMirror.handleMerge env payload)

theorem Op.apply_route (w : World) (resource : Json) (stamp : Stamp) (ownerHint : Option Json)
    (synthesized : List String) :
    (Op.route resource stamp ownerHint synthesized).apply w =
      w.withDb (routed resource stamp ownerHint synthesized w.db) := by
  rw [Op.apply, World.after, routed]
  cases h : routeTarget resource ownerHint synthesized with
  | error e => simp [onDb, PcoMirror.route, h]; rfl
  | ok target =>
      cases target with
      | none => simp [onDb, PcoMirror.route, h]; rfl
      | some target => simp [onDb, PcoMirror.route, h]; rfl

/-- A resource object with a timestamp and relationships. -/
def document (type id uat : String) (relationships : List (String × Json)) : Json :=
  .obj [("type", .str type), ("id", .str id),
    ("attributes", .obj [("updated_at", .str uat)]), ("relationships", .obj relationships)]

/-- A relationship to one resource. -/
def linkage (type id : String) : Json :=
  .obj [("data", .obj [("type", .str type), ("id", .str id)])]

/-- A person and an email of theirs, both as of March. -/
def marchPerson : List Op :=
  [.upsert .person "1" (document "Person" "1" "2024-03-01T00:00:00Z" [])
      ⟨.backfill, "2024-01-31", "2024-03-01T00:00:05Z"⟩,
    .upsert .email "2"
      (document "Email" "2" "2024-03-01T00:00:00Z" [("person", linkage "Person" "1")])
      ⟨.backfill, "2024-01-31", "2024-03-01T00:00:06Z"⟩]

/-- A clock, and a PCO that answers nothing. -/
def quietEnv : Env where
  respond := fun _ _ => .error .transportError
  now := fun _ => "2024-03-02T00:00:00Z"
  apiVersion := "2024-01-31"

/-! ## Programs over the tables -/

/-- The tombstones in the record. -/
def World.tombstones (w : World) : List (Res × String × Reason) :=
  w.log.filterMap fun
    | .tombstoned t id reason => some (t, id, reason)
    | _ => none

/-- A property of the tables and of the recorded tombstones alone. -/
def OfTables (I : World → Prop) : Prop :=
  ∀ w w' : World, w'.db = w.db → w'.tombstones = w.tombstones → I w → I w'

variable {I : World → Prop}

theorem World.after_of_run {α : Type} {m : Proc α} {w w' : World} {a : α}
    (h : m.run w = .ok a w') : w.after m = w' := by
  rw [World.after, h]

theorem ofPy_ok_bind {α β : Type} (a : α) (f : α → Proc β) : ofPy (.ok a) >>= f = f a := rfl

theorem after_bind_of_ok {α β : Type} {m : Proc α} {w w' : World} {a : α}
    (h : m.run w = .ok a w') (f : α → Proc β) : w.after (m >>= f) = w'.after (f a) := by
  rw [World.after, EStateM.run_bind, h, World.after]

/-- What follows a program changes nothing of what it does not touch. -/
theorem after_bind_view {α β γ : Type} (view : World → γ) {m : Proc α} {f : α → Proc β}
    (h : ∀ a w, view (w.after (f a)) = view w) (w : World) :
    view (w.after (m >>= f)) = view (w.after m) := by
  rw [World.after, EStateM.run_bind, World.after]
  cases hrun : m.run w with
  | ok a w' => exact h a w'
  | error e w' => rfl

theorem run_attempt {α : Type} (m : Proc α) (w : World) :
    (attempt m).run w = match m.run w with
      | .ok a w' => .ok (.ok a) w'
      | .error (.raised e) w' => .ok (.error e) w'
      | .error .stopped w' => .error .stopped w' := by
  simp only [attempt, catching, tryCatch, tryCatchThe, MonadExceptOf.tryCatch, EStateM.run,
    EStateM.tryCatch, Functor.map, EStateM.map]
  cases m w with
  | ok a w' => rfl
  | error halt w' => cases halt <;> rfl

theorem spec_after {α : Type} {P : World → Prop} {m : Proc α}
    (h : Spec P m (fun _ => I) fun _ => I) {w : World} (hw : P w) : I (w.after m) := by
  have hm := h w hw
  unfold World.after
  cases hr : m.run w <;> simpa only [hr] using hm

theorem keeps_after {α : Type} {m : Proc α} (h : Keeps I m) {w : World} (hw : I w) :
    I (w.after m) :=
  spec_after h hw

theorem keeps_modify (hI : OfTables I) {f : World → World} (hdb : ∀ w, (f w).db = w.db)
    (hlog : ∀ w, (f w).tombstones = w.tombstones) : Keeps I (modify f : Proc PUnit) :=
  Keeps.modify fun w hw => hI w (f w) (hdb w) (hlog w) hw

theorem spec_ofPy_bind {α β : Type} {P : World → Prop} {Q : β → World → Prop}
    {E : Halt → World → Prop} {e : Except PyError α} {f : α → Proc β}
    (h : ∀ a, e = .ok a → Spec P (f a) Q E)
    (herror : ∀ error w, e = .error error → P w → E (.raised error) w) :
    Spec P (ofPy e >>= f) Q E := by
  cases e with
  | ok a => exact h a rfl
  | error e => exact Spec.throw fun w hw => herror e w rfl hw

theorem run_ofPy_eq_ok {α : Type} {e : Except PyError α} {a : α} {w w' : World} :
    (ofPy e).run w = .ok a w' ↔ e = .ok a ∧ w' = w := by
  cases e with
  | ok b => exact ⟨fun h => by cases h; exact ⟨rfl, rfl⟩, fun ⟨h, hw⟩ => by cases h; rw [hw]; rfl⟩
  | error e => exact ⟨nofun, nofun⟩

theorem keeps_ofPy {α : Type} (e : Except PyError α) : Keeps I (ofPy e) := by
  cases e with
  | ok a => exact Keeps.pure a
  | error e => exact Keeps.throw _

theorem keeps_ofPy_bind {α β : Type} {e : Except PyError α} {f : α → Proc β}
    (h : ∀ a, e = .ok a → Keeps I (f a)) : Keeps I (ofPy e >>= f) :=
  spec_ofPy_bind h fun _ _ _ hw => hw

theorem spec_nowIso (hI : OfTables I) (env : Env) {E : Halt → World → Prop} :
    Spec I (nowIso env) (fun _ => I) E := by
  intro w hw
  exact hI w _ rfl rfl hw

theorem keeps_nowIso (hI : OfTables I) (env : Env) : Keeps I (nowIso env) :=
  spec_nowIso hI env

theorem keeps_stampNow (hI : OfTables I) (env : Env) (source : Source) :
    Keeps I (stampNow env source) :=
  Keeps.bind (keeps_nowIso hI env) fun _ => Keeps.pure _

/-- The state after a request has been answered. -/
def World.asked (w : World) (env : Env) (request : Request) : World :=
  { w with
    tick := w.tick + 1
    log := .exchange request (env.respond w.tick request) :: w.log }

theorem clientGet_run (env : Env) (request : Request) (w : World) :
    (clientGet env request).run w = match env.respond w.tick request with
      | .ok resp => .ok resp (w.asked env request)
      | .error e => .error (.raised e) (w.asked env request) := by
  change (ofPy (env.respond w.tick request)).run (w.asked env request) = _
  cases env.respond w.tick request <;> rfl

theorem clientGet_bind_run {α : Type} {env : Env} {request : Request} {w : World}
    {resp : Response} (h : env.respond w.tick request = .ok resp) (f : Response → Proc α) :
    (clientGet env request >>= f).run w = (f resp).run (w.asked env request) := by
  rw [EStateM.run_bind, clientGet_run, h]

theorem keeps_clientGet_bind {α : Type} (hI : OfTables I) {env : Env} {request : Request}
    {f : Response → Proc α}
    (h : ∀ tick resp, env.respond tick request = .ok resp → Keeps I (f resp)) :
    Keeps I (clientGet env request >>= f) := by
  have hget : Spec I (clientGet env request)
      (fun resp w => I w ∧ ∃ tick, env.respond tick request = .ok resp) fun _ => I := by
    intro w hw
    have hafter : I (w.asked env request) := hI w _ rfl rfl hw
    rw [clientGet_run]
    cases hanswer : env.respond w.tick request with
    | ok resp => exact ⟨hafter, w.tick, hanswer⟩
    | error e => exact hafter
  refine Spec.bind hget fun resp => ?_
  rintro w ⟨hw, tick, hanswer⟩
  exact h tick resp hanswer w hw

theorem keeps_setState (hI : OfTables I) (r : Res) (f : SyncState → SyncState) :
    Keeps I (setState r f) :=
  keeps_modify hI (fun _ => rfl) fun _ => rfl

theorem keeps_state (r : Res) : Keeps I (state r) :=
  Keeps.bind Keeps.get fun _ => Keeps.pure _

theorem keeps_enqueueHydration (hI : OfTables I) (env : Env) (r : Res) (id reason : String) :
    Keeps I (enqueueHydration env r id reason) :=
  Keeps.bind (keeps_nowIso hI env) fun _ => keeps_modify hI (fun _ => rfl) fun _ => rfl

theorem tombstoneOne_run (env : Env) (t : Res) (id : String) (evidence : Option Json)
    (reason : Reason) (mergedInto : Option String) (w : World) :
    (tombstoneOne env t id evidence reason mergedInto).run w =
      .ok () (World.bury { w with tick := w.tick + 1 } t id evidence reason mergedInto
        (env.now w.tick)) := rfl

/-- The state after a document has been routed. -/
def World.routedOne (w : World) (env : Env) (source : Source) (ownerHint : Option Json)
    (synthesized : List String) (resource : Json) : World :=
  { w with
    tick := w.tick + 1
    db := routed resource ⟨source, env.apiVersion, env.now w.tick⟩ ownerHint synthesized w.db }

theorem routeOne_run {resource : Json} {ownerHint : Option Json} {synthesized : List String}
    {target : Option (Res × String × Json)}
    (h : routeTarget resource ownerHint synthesized = .ok target) (env : Env) (source : Source)
    (w : World) :
    (routeOne env source ownerHint synthesized resource).run w =
      .ok () (w.routedOne env source ownerHint synthesized resource) := by
  change (onDb (route resource ⟨source, env.apiVersion, env.now w.tick⟩ ownerHint synthesized)).run
    { w with tick := w.tick + 1 } = _
  unfold World.routedOne routed route
  rw [h]
  cases target <;> rfl

/-- A document the router refuses raises, and only the clock has been read. -/
theorem routeOne_raises {resource : Json} {ownerHint : Option Json} {synthesized : List String}
    {e : PyError} (h : routeTarget resource ownerHint synthesized = .error e) (env : Env)
    (source : Source) (w : World) :
    (routeOne env source ownerHint synthesized resource).run w =
      .error (.raised e) { w with tick := w.tick + 1 } := by
  change (onDb (route resource ⟨source, env.apiVersion, env.now w.tick⟩ ownerHint synthesized)).run
    { w with tick := w.tick + 1 } = _
  unfold route
  rw [h]
  rfl

/-- Routing a page with nothing sideloaded routes its primary resources in order. -/
theorem spec_routePage {β : Type} (P : List β → World → Prop) {E : Halt → World → Prop}
    (hP : ∀ done, OfTables (P done)) {env : Env} {status : ℕ} {body : Json} {source : Source}
    {synthesized : List String} {ownerHint : Option Json} (f : β → Json) (xs : List β)
    (hdata : pageData body = .ok (xs.map f)) (hincluded : pageIncluded body = .ok [])
    (hstep : ∀ pre x post, xs = pre ++ x :: post →
      Spec (P pre) (routeOne env source ownerHint synthesized (f x))
        (fun _ => P (pre ++ [x])) E) :
    Spec (P []) (routePage env status body source synthesized ownerHint) (fun _ => P xs) E := by
  have hlog : ∀ w : World, World.tombstones
      { w with log := (xs.map f).map (.handed status) ++ w.log } = w.tombstones := by
    intro w
    simp [World.tombstones, List.filterMap_append, List.filterMap_map]
  simp only [routePage, hdata, hincluded, ofPy, pure_bind, forEach]
  have hhand : Spec (P [])
      (modify fun w : World => { w with log := (xs.map f).map (.handed status) ++ w.log })
      (fun _ : PUnit => P []) E :=
    Spec.modify fun w hw => hP [] w _ rfl (hlog w) hw
  refine Spec.bind hhand fun _ => ?_
  rw [forEach_map]
  exact Spec.bind (Spec.forEach_prefix P xs hstep) fun _ => Spec.pure fun _ hw => hw

/-! ## Merges -/

/-- The person a merger document removes, as the poll reads it. -/
def removedText (m : Json) : Option String :=
  (m.at? ["attributes", "person_to_remove_id"]).map Json.pyStr

/-- The person a recorded merger removes, as the webhook reads it. -/
def removedPerson (m : Json) : Option String :=
  (m.at? ["attributes", "person_to_remove_id"]).bind fun v =>
    if v.truthy then some v.pyStr else none

theorem removedText_of_removedPerson {m : Json} {gone : String} (h : removedPerson m = some gone) :
    removedText m = some gone := by
  obtain ⟨v, hv, hgone⟩ := Option.bind_eq_some_iff.mp h
  split_ifs at hgone
  rw [removedText, hv]
  exact hgone

theorem pyItem_eq_ok {d v : Json} {key : String} (h : pyItem d key = .ok v) :
    d.member? key = some v := by
  cases d with
  | obj members =>
      simp only [pyItem] at h
      cases hlookup : members.lookup key with
      | none => simp [hlookup] at h
      | some held => simpa [Json.member?, hlookup] using h
  | _ => cases h

theorem pyGet_eq_ok {d : Json} {key : String} {v : Option Json} (h : pyGet d key = .ok v) :
    d.member? key = v := by
  cases d with
  | obj members => exact Except.ok.inj h
  | _ => cases h

/-- A merge not recorded yet goes on from a state where it is not. -/
theorem keeps_mergerIsNew_bind {α : Type} {id : String} {f : Bool → Proc α}
    (hnew : Spec (fun w => I w ∧ w.db.row? .personMerger id = none) (f true) (fun _ => I)
      fun _ => I)
    (hold : Keeps I (f false)) : Keeps I (mergerIsNew id >>= f) := by
  intro w hw
  cases hrow : w.db.row? .personMerger id with
  | none =>
      have h := hnew w ⟨hw, hrow⟩
      simpa [mergerIsNew, hrow] using h
  | some row =>
      have h := hold w hw
      simpa [mergerIsNew, hrow] using h

theorem keeps_recordMerger (hI : OfTables I) (env : Env) {id : String} {raw : Json}
    (source : Source)
    (h : ∀ (w : World) (stamp : Stamp), w.db.row? .personMerger id = none → I w →
      I (w.withDb (w.db.put .personMerger id (Row.fresh raw stamp)))) :
    Keeps I (recordMerger env id raw source) := by
  refine Keeps.bind (keeps_stampNow hI env source) fun stamp => Keeps.modify fun w hw => ?_
  split_ifs with hheld
  · exact hw
  · exact h w stamp (by simpa using hheld) hw

/-- What applying a merge, read as removing a person, and recording it must keep. -/
structure MergeKeeps (I : World → Prop) (m : Json) (id : String) (removed : Option String) :
    Prop where
  bury : ∀ (w : World) gone keep now, removed = some gone →
    w.db.row? .personMerger id = none → I w → I (w.bury .person gone none .merged keep now)
  record : ∀ (w : World) stamp, w.db.row? .personMerger id = none →
    (∀ gone, removedPerson m = some gone → (.person, gone, .merged) ∈ w.tombstones) → I w →
    I (w.withDb (w.db.put .personMerger id (Row.fresh m stamp)))

/-- The state a merge is recorded in: its tombstone has been entered. -/
def Entered (I : World → Prop) (m : Json) (w : World) : Prop :=
  I w ∧ ∀ gone, removedPerson m = some gone → (.person, gone, .merged) ∈ w.tombstones

theorem Entered.ofTables (hI : OfTables I) (m : Json) : OfTables (Entered I m) := by
  intro w w' hdb hlog h
  exact ⟨hI w w' hdb hlog h.1, hlog ▸ h.2⟩

theorem MergeKeeps.recordEntered {m : Json} {id : String} {removed : Option String}
    (h : MergeKeeps I m id removed) (hI : OfTables I) (env : Env) (source : Source) :
    Keeps (Entered I m) (recordMerger env id m source) :=
  keeps_recordMerger (Entered.ofTables hI m) env source fun w stamp hnew hw =>
    ⟨h.record w stamp hnew hw.2 hw.1, hw.2⟩

theorem MergeKeeps.tombstone {m : Json} {id gone : String} (h : MergeKeeps I m id (some gone))
    (hI : OfTables I) (env : Env) (keep : Option String) (hgone : removedText m = some gone) :
    Spec (fun w => I w ∧ w.db.row? .personMerger id = none)
      (tombstoneOne env .person gone none .merged keep) (fun _ => Entered I m) fun _ => I := by
  rintro w ⟨hw, hnew⟩
  have htick : I { w with tick := w.tick + 1 } := hI w _ rfl rfl hw
  refine ⟨h.bury { w with tick := w.tick + 1 } gone keep (env.now w.tick) rfl hnew htick, ?_⟩
  intro gone' hgone'
  obtain rfl : gone = gone' :=
    Option.some.inj (hgone.symm.trans (removedText_of_removedPerson hgone'))
  exact List.mem_cons_self

theorem keeps_pollOne (hI : OfTables I) (env : Env) (wm : String) (fresh : ℕ) (m : Json)
    (h : ∀ id, idOf m = .ok id → MergeKeeps I m id (removedText m)) : Keeps I (pollOne env wm fresh m) := by
  refine keeps_ofPy_bind fun a ha => keeps_ofPy_bind fun createdAt _ =>
    keeps_ofPy_bind fun id hid => keeps_mergerIsNew_bind ?_ (Keeps.pure _)
  have hm := h id hid
  refine spec_ofPy_bind (fun keep _ => spec_ofPy_bind (fun gone hgone => ?_)
    fun _ _ _ hw => hw.1) fun _ _ _ hw => hw.1
  have htext : removedText m = some gone.pyStr := by
    simp [removedText, Json.at?, pyItem_eq_ok ha, pyItem_eq_ok hgone]
  rw [htext] at hm
  refine Spec.bind (hm.tombstone hI env (some keep.pyStr) htext) fun _ => ?_
  have hrest : Keeps (Entered I m) (do
      enqueueHydration env .person keep.pyStr "merge_survivor"
      recordMerger env id m .reconcile
      return ((if wm < createdAt then createdAt else wm), fresh + 1)) :=
    Keeps.bind (keeps_enqueueHydration (Entered.ofTables hI m) env _ _ _) fun _ =>
      Keeps.bind (hm.recordEntered hI env .reconcile) fun _ => Keeps.pure _
  exact hrest.conseq (fun _ hw => hw) (fun _ _ hw => hw.1) fun _ _ hw => hw.1

theorem keeps_pollPage (hI : OfTables I) (env : Env) (items : List Json)
    (h : ∀ m ∈ items, ∀ id, idOf m = .ok id → MergeKeeps I m id (removedText m)) (wm : String) (fresh : ℕ) :
    Keeps I (pollPage env wm fresh items) := by
  induction items generalizing wm fresh with
  | nil => exact Keeps.pure _
  | cons m ms ih =>
      refine Keeps.bind (keeps_pollOne hI env wm fresh m (h m (by simp))) fun p => ?_
      exact ih (fun m' hm' => h m' (by simp [hm'])) p.1 p.2

/-- A document that some answer of PCO's lists. -/
def Env.Lists (env : Env) (m : Json) : Prop :=
  ∃ tick request resp body data items, env.respond tick request = .ok resp ∧
    resp.document = .ok body ∧ dataOf body = .ok data ∧ pyItems data = .ok items ∧ m ∈ items

theorem keeps_mergerPoll (hI : OfTables I) (env : Env) (fuel : ℕ)
    (h : ∀ m, env.Lists m → ∀ id, idOf m = .ok id → MergeKeeps I m id (removedText m)) :
    Keeps I (mergerPoll env fuel) := by
  refine Keeps.bind (keeps_state _) fun st => Keeps.whileTrue (fun p => ?_) _ _
  refine keeps_clientGet_bind hI fun tick resp hresp => keeps_ofPy_bind fun body hbody =>
    keeps_ofPy_bind fun data hdata => ?_
  cases htruthy : data.truthy with
  | false => exact Keeps.pure _
  | true =>
      refine keeps_ofPy_bind fun items hitems => Keeps.bind (keeps_pollPage hI env items ?_ _ _)
        fun q => Keeps.bind (keeps_setState hI _ _) fun _ => ?_
      · intro m hm
        exact h m ⟨tick, _, resp, body, data, items, hresp, hbody, hdata, hitems, hm⟩
      · exact Spec.ite (fun _ => Keeps.pure _) fun _ => Keeps.pure _

theorem removedPerson_of_mergePerson {payload : Json} {attributes : Option Json}
    {gone : Option String} (hattributes : pyGet payload "attributes" = .ok attributes)
    (hgone : mergePerson (attributes.getD (.obj [])) "person_to_remove_id" = .ok gone) :
    removedPerson payload = gone := by
  have hmember := pyGet_eq_ok hattributes
  unfold mergePerson at hgone
  cases hget : pyGet (attributes.getD (.obj [])) "person_to_remove_id" with
  | error e => simp [hget, bind, Except.bind] at hgone
  | ok value =>
      have hvalue := pyGet_eq_ok hget
      simp only [hget, bind, Except.bind] at hgone
      cases attributes with
      | none =>
          obtain rfl : value = none := by simpa [Json.member?] using hvalue.symm
          simpa [removedPerson, Json.at?, hmember] using Except.ok.inj hgone
      | some a =>
          simp only [Option.getD_some] at hvalue
          cases value with
          | none => simpa [removedPerson, Json.at?, hmember, hvalue] using Except.ok.inj hgone
          | some v =>
              have hread : (if v.truthy then some v.pyStr else none) = gone :=
                Except.ok.inj hgone
              simpa [removedPerson, Json.at?, hmember, hvalue] using hread

theorem keeps_handleMerge (hI : OfTables I) (env : Env) (payload : Json)
    (h : ∀ keep id, mergerId payload keep (removedPerson payload) = .ok id →
      MergeKeeps I payload id (removedPerson payload)) :
    Keeps I (handleMerge env payload) := by
  refine keeps_ofPy_bind fun attributes hattributes => keeps_ofPy_bind fun keep _ =>
    keeps_ofPy_bind fun gone hgone => keeps_ofPy_bind fun id hid =>
    keeps_mergerIsNew_bind ?_ (Keeps.pure _)
  have hremoved := removedPerson_of_mergePerson hattributes hgone
  have hm := h keep id (by rwa [hremoved])
  rw [hremoved] at hm
  have hrest : Keeps (Entered I payload) (do
      whenSome keep fun keep => enqueueHydration env .person keep "merge_survivor"
      recordMerger env id payload .webhook) :=
    Keeps.bind (Keeps.whenSome keep fun keep _ =>
        keeps_enqueueHydration (Entered.ofTables hI payload) env .person keep "merge_survivor")
      fun _ => hm.recordEntered hI env .webhook
  have hend := hrest.conseq (fun _ hw => hw) (fun _ _ hw => hw.1) fun _ _ hw => hw.1
  cases gone with
  | none =>
      refine Spec.bind (Spec.pure fun w hw => ?_) fun _ => hend
      exact ⟨hw.1, fun gone' hgone' => by simp [hremoved] at hgone'⟩
  | some gone =>
      exact Spec.bind (hm.tombstone hI env keep (removedText_of_removedPerson hremoved))
        fun _ => hend

end PcoMirror
