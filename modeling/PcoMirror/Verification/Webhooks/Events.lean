import PcoMirror.Lib.Register
import PcoMirror.Verification.Writer.Operations

/-! What one webhook event about a record does to the tables. -/

namespace PcoMirror

open Program

/-! ## Routing a whole record -/

/-- A document is a record of a resource, with its id and its timestamp. -/
structure IsRecord (t : Res) (id uat : String) (doc : Json) : Prop where
  type_eq : doc.member? "type" = some (.str t.info.type)
  id_eq : idOf doc = .ok id
  uat_eq : doc.at? ["attributes", "updated_at"] = some (.str uat)
  uat_ne : uat ≠ ""

theorem byType_type (t : Res) : byType t.info.type = some t := by
  cases t <;> decide

theorem pyGet_of_member? {doc v : Json} {key : String} (h : doc.member? key = some v) :
    pyGet doc key = .ok (some v) := by
  cases doc with
  | obj members => exact congrArg Except.ok h
  | _ => cases h

theorem withoutSynthesized_nil (r : Res) (resource : Json) :
    withoutSynthesized r [] resource = resource := by
  unfold withoutSynthesized
  split
  · split
    · simp
    · rfl
  · rfl

theorem IsRecord.pcoUpdatedAt {t : Res} {id uat : String} {doc : Json} (h : IsRecord t id uat doc) :
    pcoUpdatedAt doc = some uat := by
  simp [PcoMirror.pcoUpdatedAt, Json.textAt, h.uat_eq, Json.text?]

theorem IsRecord.attributes {t : Res} {id uat : String} {doc : Json} (h : IsRecord t id uat doc) :
    ∃ attributes, pyGet doc "attributes" = .ok (some attributes) ∧
      orEmptyObj (some attributes) = attributes ∧
      pyGet attributes "updated_at" = .ok (some (.str uat)) := by
  obtain ⟨attributes, hattributes, huat⟩ := Option.bind_eq_some_iff.mp h.uat_eq
  obtain ⟨v, hv, hvalue⟩ := Option.bind_eq_some_iff.mp huat
  obtain rfl : v = .str uat := Option.some.inj hvalue
  refine ⟨attributes, pyGet_of_member? hattributes, ?_, pyGet_of_member? hv⟩
  cases attributes with
  | obj members =>
      cases members with
      | nil => cases hv
      | cons m ms => rfl
  | _ => cases hv

theorem IsRecord.lacksUpdatedAt {t : Res} {id uat : String} {doc : Json}
    (h : IsRecord t id uat doc) : lacksUpdatedAt doc = .ok false := by
  obtain ⟨attributes, hattributes, hobj, huat⟩ := h.attributes
  unfold PcoMirror.lacksUpdatedAt
  simp [hattributes, hobj, huat, bind, Except.bind, pure, Except.pure, Json.truthy, h.uat_ne]

theorem IsRecord.routeTarget {t : Res} {id uat : String} {doc : Json} (h : IsRecord t id uat doc) :
    routeTarget doc none [] = .ok (some (t, id, doc)) := by
  have hresource : resourceOf doc = .ok (some t) := by
    unfold resourceOf
    rw [pyGet_of_member? h.type_eq]
    exact congrArg Except.ok (byType_type t)
  unfold PcoMirror.routeTarget
  rw [hresource, h.lacksUpdatedAt]
  cases t.info.ownerRel <;> cases t.info.timestamped <;>
    simp [bind, Except.bind, pure, Except.pure, withoutSynthesized_nil, h.id_eq]

/-! ## Steps that leave the tables alone -/

variable {I : World → Prop}

theorem keeps_setEvent (hI : OfTables I) (eventId : Option String) (f : WebhookEvent → WebhookEvent) :
    Keeps I (setEvent eventId f) :=
  keeps_modify hI (fun _ => rfl) fun _ => rfl

theorem keeps_deadEvent (hI : OfTables I) (eventId : Option String) (ev : WebhookEvent)
    (error : String) : Keeps I (deadEvent eventId ev error) := by
  refine Keeps.bind ?_ fun _ => keeps_setEvent hI _ _
  cases eventId with
  | some id => exact keeps_modify hI (fun _ => rfl) fun _ => rfl
  | none => exact keeps_modify hI (fun _ => rfl) fun _ => rfl

theorem keeps_retryOrDead (hI : OfTables I) (env : Env) (eventId : Option String)
    (ev : WebhookEvent) (error : String) : Keeps I (retryOrDead env eventId ev error) :=
  Spec.ite (fun _ => keeps_deadEvent hI eventId ev error) fun _ =>
    Keeps.bind (keeps_nowIso hI env) fun _ => keeps_setEvent hI _ _

theorem keeps_enqueueOrDefer (hI : OfTables I) (env : Env) (r : Res) (id : String) :
    Keeps I (enqueueOrDefer env r id) :=
  Keeps.bind Keeps.get fun _ => Spec.ite
    (fun _ => Keeps.bind (keeps_nowIso hI env) fun _ => keeps_setState hI _ _)
    fun _ => keeps_enqueueHydration hI env r id _

theorem keeps_forgetChildWalks (hI : OfTables I) (r : Res) (id : String) :
    Keeps I (forgetChildWalks r id) :=
  keeps_modify hI (fun _ => rfl) fun _ => rfl

theorem spec_catching {α : Type} {P : World → Prop} {m : Proc α} {handler : PyError → Proc α}
    (hm : Spec P m (fun _ => I) fun _ => I) (hh : ∀ e, Keeps I (handler e)) :
    Spec P (catching m handler) (fun _ => I) fun _ => I := by
  refine Spec.tryCatch hm fun e => ?_
  cases e with
  | raised e => exact hh e
  | stopped => exact Keeps.throw _

/-! ## Events about one record -/

/-- The action of an event with this payload, read as a change. -/
def ActionSays (ev : WebhookEvent) (doc : Json) : Register.Change String Json → Prop
  | .update _ raw => (ev.action = "created" ∨ ev.action = "updated") ∧ raw = doc
  | .delete _ => ev.action = "destroyed"

/-- A created, updated or destroyed event about a record, with its whole payload. -/
structure Says (t : Res) (id : String) (ev : WebhookEvent) (c : Register.Change String Json) :
    Prop where
  resource : byEventResource ev.resourceType = some t
  timestamped : t.info.timestamped = true
  said : ∃ body doc, ev.payload = .json body ∧ unwrap body = .ok doc ∧
    IsRecord t id c.time doc ∧ ActionSays ev doc c

/-- What a change does to the tables, through the writer. -/
def applyChange (t : Res) (id apiVersion now : String) (db : Db) :
    Register.Change String Json → Db
  | .update _ raw => upsert t id raw ⟨.webhook, apiVersion, now⟩ db
  | .delete uat => tombstone t id (some (.str uat)) .destroyed none now db

theorem routed_record {t : Res} {id uat : String} {doc : Json} (h : IsRecord t id uat doc)
    (htimed : t.info.timestamped = true) (stamp : Stamp) (db : Db) :
    routed doc stamp none [] db = upsert t id doc stamp db := by
  unfold routed
  rw [h.routeTarget]
  exact if_pos htimed

/-- The handling of an event about a record comes down to its change. -/
theorem spec_applyEvent {t : Res} {id : String} {ev : WebhookEvent}
    {c : Register.Change String Json} (h : Says t id ev c) (env : Env) (w : World) {doc : Json}
    (hrecord : IsRecord t id c.time doc) (hsaid : ActionSays ev doc c)
    (hI : OfTables I) (hafter : ∀ w' : World,
      w'.db = applyChange t id env.apiVersion (env.now w.tick) w.db c → I w') :
    Spec (fun w' => w' = w) (applyEvent env (some t) ev doc) (fun _ => I) fun _ => I := by
  have hmerger : ev.resourceType ≠ "person_merger" := by
    intro htoken
    have hname : byEventResource ev.resourceType = some .personMerger := by
      rw [htoken]
      decide
    obtain rfl : t = .personMerger := Option.some.inj (h.resource.symm.trans hname)
    cases h.timestamped
  rw [applyEvent, if_neg hmerger]
  cases c with
  | delete uat =>
      obtain ⟨attributes, hattributes, hobj, huat⟩ := hrecord.attributes
      rw [ActionSays] at hsaid
      simp only [hsaid, if_true, hattributes, ofPy, pure_bind, hobj, huat, hrecord.id_eq]
      rintro w' rfl
      exact hafter _ rfl
  | update uat raw =>
      obtain ⟨haction, rfl⟩ := hsaid
      have hnot : ev.action ≠ "destroyed" := by
        rcases haction with hcreated | hupdated
        · rw [hcreated]
          decide
        · rw [hupdated]
          decide
      rw [if_neg hnot]
      have hroute : Spec (fun w' => w' = w) (routeOne env .webhook none [] raw) (fun _ => I)
          fun _ => I := by
        rintro w' rfl
        rw [routeOne_run hrecord.routeTarget]
        exact hafter _ (routed_record hrecord h.timestamped _ _)
      have hforget : Keeps I (if ev.action = "refreshed" then do
          let id ← ofPy (idOf raw)
          forgetChildWalks t id
        else pure ()) :=
        Spec.ite (fun _ => keeps_ofPy_bind fun _ _ => keeps_forgetChildWalks hI t _)
          fun _ => Keeps.pure _
      refine Spec.bind hroute fun _ => Spec.ite (fun _ => ?_) fun _ => hforget
      exact keeps_ofPy_bind fun _ _ => Keeps.bind (keeps_enqueueOrDefer hI env t _) fun _ => hforget

/-- The tables after an event are those after its change, at the time it was applied. -/
theorem processEvent_db {t : Res} {id : String} {ev : WebhookEvent}
    {c : Register.Change String Json} (h : Says t id ev c) (env : Env) (eventId : String)
    (w : World) :
    (w.after (processEvent env eventId ev)).db =
      applyChange t id env.apiVersion (env.now w.tick) w.db c := by
  obtain ⟨body, doc, hpayload, hunwrap, hrecord, hsaid⟩ := h.said
  have hI : OfTables fun w' : World =>
      w'.db = applyChange t id env.apiVersion (env.now w.tick) w.db c :=
    fun _ _ hdb _ hw => hdb.trans hw
  have happly := spec_applyEvent h env w hrecord hsaid hI fun _ hw => hw
  have hprocess : Spec (fun w' => w' = w) (processEvent env eventId ev)
      (fun _ w' => w'.db = applyChange t id env.apiVersion (env.now w.tick) w.db c)
      fun _ w' => w'.db = applyChange t id env.apiVersion (env.now w.tick) w.db c := by
    simp only [processEvent, hpayload, hunwrap, ofPy, pure_bind, h.resource, Option.isNone_some,
      Bool.false_eq_true, false_and, if_false]
    refine spec_catching (Spec.bind happly fun _ => ?_) fun e => keeps_retryOrDead hI env eventId ev _
    exact Keeps.bind (keeps_nowIso hI env) fun _ => keeps_setEvent hI eventId _
  exact spec_after hprocess rfl

end PcoMirror
