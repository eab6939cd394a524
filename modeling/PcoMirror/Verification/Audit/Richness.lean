import PcoMirror.Verification.Audit.Units

/-! What an audit's answers leave of the relationships a stored record had: its confirmations
do not pass the guard that an upsert passes. -/

namespace PcoMirror

open Program

variable {env : Env} {r : Res}

/-! ## One answer -/

/-- The two kinds of request an audit makes for one record. -/
inductive AuditGet where
  | confirm | restore

def AuditGet.includes (r : Res) : AuditGet → List String
  | .confirm => []
  | .restore => r.info.includes

/-- The request, and what the audit does with the answer. -/
def AuditGet.ask (env : Env) (r : Res) (id : String) : AuditGet → Proc Unit
  | .confirm => do
    let _ ← confirmCandidate env r id {}
  | .restore => do
    let _ ← restoreOne env r id

theorem raw_of_confirmLiveOne {id : String} {record : Json} {source : Source} {w w' : World}
    (h : (confirmLiveOne env r id record source).run w = .ok () w') :
    ∃ after, w'.db.row? r id = some after ∧ after.raw = record := by
  cases h
  obtain ⟨value, hvalue⟩ := row?_confirmLive_self r id record ⟨source, env.apiVersion,
    env.now w.tick⟩ w.db
  refine ⟨_, hvalue, ?_⟩
  rw [Row.withTyped_raw]
  cases w.db.row? r id <;> rfl

/-- An answer with the record, handled to its end, is stored whatever the row held. -/
theorem AuditGet.raw_after (get : AuditGet) {id : String} {w w' : World} {resp : Response}
    {record : Json} (hresp : env.respond w.tick (.record r id (get.includes r)) = .ok resp)
    (hok : resp.ok = true) (hrecord : recordOf resp = .ok (some record))
    (hrun : (get.ask env r id).run w = .ok () w') :
    ∃ after, w'.db.row? r id = some after ∧ after.raw = record := by
  have hfound : ¬ resp.status = 404 := by
    intro hstatus
    simp [Response.ok, hstatus] at hok
  cases get with
  | confirm =>
      obtain ⟨round, w₁, hconfirm, hdone⟩ := run_bind_eq_ok.mp hrun
      cases hdone
      have hanswer : env.respond w.tick (.record r id []) = .ok resp := hresp
      rw [confirmCandidate, clientGet_bind_run hanswer] at hconfirm
      simp only [if_neg hfound, if_pos hok, hrecord, ofPy_ok_bind, whenSome] at hconfirm
      obtain ⟨_, w₂, hstored, hend⟩ := run_bind_eq_ok.mp hconfirm
      cases hend
      exact raw_of_confirmLiveOne hstored
  | restore =>
      obtain ⟨restored, w₁, hrestore, hdone⟩ := run_bind_eq_ok.mp hrun
      cases hdone
      have hanswer : env.respond w.tick (.record r id r.info.includes) = .ok resp := hresp
      rw [restoreOne, clientGet_bind_run hanswer] at hrestore
      simp only [hok, Bool.not_true, Bool.false_eq_true, if_false, hrecord, ofPy_ok_bind]
        at hrestore
      obtain ⟨body, w₂, -, hrestore⟩ := run_bind_eq_ok.mp hrestore
      obtain ⟨included, w₃, -, hrestore⟩ := run_bind_eq_ok.mp hrestore
      obtain ⟨n, w₄, -, hrestore⟩ := run_bind_eq_ok.mp hrestore
      obtain ⟨_, w₅, hstored, hend⟩ := run_bind_eq_ok.mp hrestore
      cases hend
      exact raw_of_confirmLiveOne hstored

/-! ## Whole rounds -/

/-- The document names every relationship the resource is fetched with. -/
def HasEveryKey (r : Res) (raw : Json) : Prop :=
  ∀ name ∈ r.info.includes, (r.info.relationships.lookup name).isSome = true →
    .label name ∈ relationshipKeys raw

/-- Every document about the resource, in the answers to requests for single records, is complete. -/
structure Env.Completes (env : Env) (r : Res) : Prop where
  record : ∀ tick id includes resp record, env.respond tick (.record r id includes) = .ok resp →
    recordOf resp = .ok (some record) → HasEveryKey r record
  included : ∀ tick id includes resp body included, env.respond tick (.record r id includes) = .ok resp →
    resp.document = .ok body → pageIncluded body = .ok included →
    ∀ doc ∈ included, ∀ id' stored, routeTarget doc none [] = .ok (some (r, id', stored)) →
      HasEveryKey r stored

/-- Where the row is there, its document is complete. -/
def CompleteAt (r : Res) (id : String) (w : World) : Prop :=
  ∀ row, w.db.row? r id = some row → HasEveryKey r row.raw

theorem completeAt_ofTables (r : Res) (id : String) : OfTables (CompleteAt r id) := by
  intro w w' hdb _ h
  rwa [CompleteAt, hdb]

variable {id : String}

theorem keeps_tombstoneOne_complete (t : Res) (k : String) (reason : Reason)
    (mergedInto : Option String) :
    Keeps (CompleteAt r id) (tombstoneOne env t k none reason mergedInto) := by
  intro w hw row hrow
  obtain ⟨held, hheld, hraw⟩ := raw_of_tombstone hrow
  rw [hraw]
  exact hw held hheld

theorem keeps_confirmLiveOne_complete {k : String} {record : Json} (source : Source)
    (h : HasEveryKey r record) : Keeps (CompleteAt r id) (confirmLiveOne env r k record source) := by
  intro w hw row hrow
  rcases raw_of_confirmLive hrow with ⟨-, -, hraw⟩ | ⟨held, hheld, hraw⟩
  · rwa [hraw]
  · rw [hraw]
    exact hw held hheld

theorem keeps_routeOne_complete {doc : Json} (source : Source)
    (h : ∀ k stored, routeTarget doc none [] = .ok (some (r, k, stored)) → HasEveryKey r stored) :
    Keeps (CompleteAt r id) (routeOne env source none [] doc) := by
  intro w hw
  cases htarget : routeTarget doc none [] with
  | error e =>
      rw [routeOne_raises htarget]
      exact completeAt_ofTables r id w _ rfl rfl hw
  | ok target =>
      rw [routeOne_run htarget]
      intro row hrow
      simp only [World.routedOne, routed, htarget] at hrow
      cases target with
      | none => exact hw row hrow
      | some target =>
          obtain ⟨t, k, stored⟩ := target
          rcases raw_of_write hrow with ⟨rfl, -, hraw⟩ | ⟨held, hheld, hraw⟩
          · rw [hraw]
            exact h k stored htarget
          · rw [hraw]
            exact hw held hheld

theorem keeps_sideload_complete {status : ℕ} {included : List Json} (source : Source)
    (h : ∀ doc ∈ included, ∀ k stored, routeTarget doc none [] = .ok (some (r, k, stored)) →
      HasEveryKey r stored) :
    Keeps (CompleteAt r id) (routePage env status
      (.obj [("data", .arr []), ("included", .arr included)]) source) := by
  have hdata : pageData (.obj [("data", .arr []), ("included", .arr included)]) = .ok [] := rfl
  have hincluded : pageIncluded (.obj [("data", .arr []), ("included", .arr included)]) =
      .ok included := rfl
  simp only [routePage, hdata, hincluded, ofPy, pure_bind, List.map_nil, List.nil_append]
  refine Keeps.bind (Keeps.modify fun w hw => hw) fun _ => Keeps.bind ?_ fun _ =>
    Keeps.bind (Keeps.pure _) fun _ => Keeps.pure _
  exact Keeps.forEach included fun doc hdoc => keeps_routeOne_complete source (h doc hdoc)

theorem keeps_confirmCandidate_complete (hcomplete : env.Completes r) (k : String)
    (round : AuditRound) : Keeps (CompleteAt r id) (confirmCandidate env r k round) := by
  refine keeps_clientGet_bind (completeAt_ofTables r id) fun tick resp hresp => Spec.ite (fun _ =>
    Keeps.bind (keeps_tombstoneOne_complete r k _ _) fun _ => Keeps.pure _) fun _ => ?_
  refine Spec.ite (fun _ => keeps_ofPy_bind fun record hrecord => ?_) fun _ => Keeps.pure _
  refine Keeps.bind (Keeps.whenSome record ?_) fun _ => Keeps.pure _
  rintro record rfl
  exact keeps_confirmLiveOne_complete _ (hcomplete.record tick k [] resp record hresp hrecord)

theorem keeps_restoreOne_complete (hcomplete : env.Completes r) (k : String) :
    Keeps (CompleteAt r id) (restoreOne env r k) := by
  refine keeps_clientGet_bind (completeAt_ofTables r id) fun tick resp hresp =>
    Spec.ite (fun _ => Keeps.pure _) fun _ => keeps_ofPy_bind fun record hrecord => ?_
  cases record with
  | none => exact Keeps.pure _
  | some record =>
      refine keeps_ofPy_bind fun body hbody => keeps_ofPy_bind fun included hincluded => ?_
      refine Keeps.bind (keeps_sideload_complete _ ?_) fun _ => Keeps.bind ?_ fun _ => Keeps.pure _
      · exact hcomplete.included tick k _ resp body included hresp hbody hincluded
      · exact keeps_confirmLiveOne_complete _ (hcomplete.record tick k _ resp record hresp hrecord)

/-- A step of the round that writes no row. -/
theorem keeps_aside {f : World → World} (hdb : ∀ w, (f w).db = w.db) :
    Keeps (CompleteAt r id) (modify f : Proc PUnit) := by
  refine Keeps.modify fun w hw => ?_
  rwa [CompleteAt, hdb]

theorem keeps_enumerate_complete (left : ℕ) (round : AuditRound) :
    Keeps (CompleteAt r id) (enumerate env r left round) := by
  induction left generalizing round with
  | zero => exact Keeps.pure _
  | succ left ih =>
      have hpage : Keeps (CompleteAt r id) (enumeratePage env r round) := by
        refine keeps_clientGet_bind (completeAt_ofTables r id) fun tick resp hresp =>
          keeps_ofPy_bind fun body _ => keeps_ofPy_bind fun data _ => keeps_ofPy_bind fun items _ => ?_
        refine Keeps.bind (Keeps.forEach items fun d _ => keeps_ofPy_bind fun k _ =>
          keeps_aside fun _ => rfl) fun _ => keeps_ofPy_bind fun turned _ => ?_
        cases turned with
        | none => exact Keeps.bind (keeps_aside fun _ => rfl) fun _ => Keeps.pure _
        | some round =>
            refine Spec.ite (fun _ => ?_) fun _ =>
              Keeps.bind (keeps_aside fun _ => rfl) fun _ => Keeps.pure _
            refine Keeps.bind (Keeps.bind Keeps.get fun w => Keeps.bind (keeps_aside fun _ => rfl)
              fun _ => Keeps.bind Keeps.get fun w => keeps_aside fun _ => rfl) fun _ => Keeps.pure _
      refine Keeps.bind hpage fun pass => ?_
      cases pass with
      | again round => exact ih round
      | leave round => exact Keeps.pure _

theorem keeps_confirm_complete (hcomplete : env.Completes r) (left : ℕ) (round : AuditRound) :
    Keeps (CompleteAt r id) (confirm env r left round) := by
  induction left generalizing round with
  | zero => exact Keeps.pure _
  | succ left ih =>
      refine Keeps.bind (Keeps.bind Keeps.get fun _ => Keeps.pure _) fun next => ?_
      cases next with
      | none => exact Keeps.pure _
      | some k =>
          exact Keeps.bind (keeps_confirmCandidate_complete hcomplete k round) fun round =>
            Keeps.bind (keeps_aside fun _ => rfl) fun _ =>
              Keeps.bind (keeps_aside fun _ => rfl) fun _ => ih round

theorem keeps_finishAudit_complete (outcome : AuditOutcome) :
    Keeps (CompleteAt r id) (do finishAudit env r; return outcome) :=
  Keeps.bind (Keeps.bind (keeps_aside fun _ => rfl) fun _ =>
    Keeps.bind (keeps_nowIso (completeAt_ofTables r id) env) fun _ =>
      Keeps.bind (keeps_aside fun _ => rfl) fun _ => keeps_aside fun _ => rfl) fun _ => Keeps.pure _

theorem keeps_restore_complete (hcomplete : env.Completes r) (left : ℕ) (round : AuditRound) :
    Keeps (CompleteAt r id) (restore env r left round) := by
  induction left generalizing round with
  | zero => exact Keeps.pure _
  | succ left ih =>
      refine Keeps.bind (Keeps.bind Keeps.get fun _ => Keeps.pure _) fun next => ?_
      cases next with
      | none => exact keeps_finishAudit_complete _
      | some k =>
          refine Spec.ite (fun _ => ?_) fun _ => keeps_finishAudit_complete _
          exact Keeps.bind (keeps_restoreOne_complete hcomplete k) fun restored =>
            Keeps.bind (keeps_aside fun _ => rfl) fun _ =>
              Keeps.bind (keeps_aside fun _ => rfl) fun _ => ih _

/-- A unit of an audit whose answers are complete leaves every complete record complete. -/
theorem keeps_deleteAuditStep_complete (hcomplete : env.Completes r) (budget : ℕ) :
    Keeps (CompleteAt r id) (deleteAuditStep env r budget) := by
  have hsave (round : AuditRound) : Keeps (CompleteAt r id) (saveAuditRound r round) :=
    keeps_aside fun _ => rfl
  have hrestore (q : ℕ × AuditRound) : Keeps (CompleteAt r id) (restorePart env r q) :=
    Spec.ite (fun _ => keeps_restore_complete hcomplete _ _) fun _ => Keeps.pure _
  have hconfirm (q : ℕ × AuditRound) : Keeps (CompleteAt r id) (confirmPart env r q) := by
    refine Spec.ite (fun _ => ?_) fun _ => Keeps.bind (Keeps.pure q) hrestore
    exact Keeps.bind (keeps_confirm_complete hcomplete _ _) fun q =>
      Keeps.bind (hsave q.2) fun _ => Keeps.bind (Keeps.pure q) hrestore
  have henumerate (round : AuditRound) :
      Keeps (CompleteAt r id) (enumeratePart env r budget round) := by
    refine Spec.ite (fun _ => ?_) fun _ => Keeps.bind (Keeps.pure (budget, round)) hconfirm
    exact Keeps.bind (keeps_enumerate_complete _ _) fun q =>
      Keeps.bind (hsave q.2) fun _ => Keeps.bind (Keeps.pure q) hconfirm
  have hstart : Keeps (CompleteAt r id) (startAudit env r) :=
    Keeps.bind (keeps_nowIso (completeAt_ofTables r id) env) fun now =>
      Keeps.bind (keeps_aside fun _ => rfl) fun _ => Keeps.bind Keeps.get fun w =>
        Keeps.bind (keeps_aside fun _ => rfl) fun _ => Keeps.bind (hsave _) fun _ => Keeps.pure _
  rw [deleteAuditStep_eq]
  refine Keeps.bind Keeps.get fun w => ?_
  cases w.auditRound r with
  | none => exact Keeps.bind hstart henumerate
  | some round => exact Keeps.bind (Keeps.pure round) henumerate

/-- The units of a round, with their budgets. -/
def auditUnits (env : Env) (r : Res) (budgets : List ℕ) : Proc Unit :=
  forEach (fun budget => do let _ ← deleteAuditStep env r budget) budgets

/-- An answer leaves a record no poorer exactly where it names every relationship the record has,
and a round whose answers are complete leaves every complete record complete. -/
theorem audit_no_poorer_iff (env : Env) (r : Res) :
    (∀ (get : AuditGet) id w w' resp record row,
      env.respond w.tick (.record r id (get.includes r)) = .ok resp → resp.ok = true →
      recordOf resp = .ok (some record) → w.db.row? r id = some row →
      (get.ask env r id).run w = .ok () w' →
      ∃ after, w'.db.row? r id = some after ∧
        (relationshipKeys row.raw ⊆ relationshipKeys after.raw ↔
          relationshipKeys row.raw ⊆ relationshipKeys record)) ∧
    (env.Completes r → ∀ id budgets, Keeps (CompleteAt r id) (auditUnits env r budgets)) := by
  refine ⟨?_, fun hcomplete id budgets => ?_⟩
  · intro get id w w' resp record row hresp hok hrecord hrow hrun
    obtain ⟨after, hafter, hraw⟩ := get.raw_after hresp hok hrecord hrun
    exact ⟨after, hafter, by rw [hraw]⟩
  · exact Keeps.forEach budgets fun budget _ =>
      Keeps.bind (keeps_deleteAuditStep_complete hcomplete budget) fun _ => Keeps.pure _

/-! ## A bare request -/

/-- A person as a sweep fetches them, with the household they are in. -/
def sweptPerson : Json :=
  document "Person" "1" "2024-03-01T00:00:00Z" [("households", .obj [("data", .arr [])])]

/-- The same person, unchanged, as a request without includes is answered. -/
def barePerson : Json :=
  document "Person" "1" "2024-03-01T00:00:00Z" [("primary_campus", .obj [("data", .null)])]

def bareAnswer : Response :=
  ⟨200, .json (.obj [("data", barePerson)])⟩

def bareEnv : Env where
  respond := fun _ _ => .ok bareAnswer
  now := fun _ => "2024-03-02T00:00:00Z"
  apiVersion := "2024-01-31"

def sweptRow : Row :=
  Row.fresh sweptPerson ⟨.backfill, "2024-01-31", "2024-03-01T00:00:05Z"⟩

def sweptWorld : World :=
  { db := Db.empty.put .person "1" sweptRow }

theorem audit_no_poorer_iff_bare :
    ∃ after, (sweptWorld.after (AuditGet.ask bareEnv .person "1" .confirm)).db.row? .person "1" =
        some after ∧
      (relationshipKeys sweptPerson ⊆ relationshipKeys after.raw ↔
        relationshipKeys sweptPerson ⊆ relationshipKeys barePerson) :=
  (audit_no_poorer_iff bareEnv .person).1 .confirm "1" sweptWorld _ bareAnswer barePerson sweptRow
    (by rfl) (by decide) (by rfl) (by rfl) (by rfl)

/-- A candidate that PCO still has loses what a request without includes does not name. -/
theorem audit_impoverishes : ¬ ∀ (env : Env) (r : Res) (get : AuditGet) (id : String)
    (w w' : World) (resp : Response) (record : Json) (row after : Row),
      env.respond w.tick (.record r id (get.includes r)) = .ok resp → resp.ok = true →
      recordOf resp = .ok (some record) → w.db.row? r id = some row →
      pcoUpdatedAt record = row.uat → (get.ask env r id).run w = .ok () w' →
      w'.db.row? r id = some after → relationshipKeys row.raw ⊆ relationshipKeys after.raw := by
  intro h
  have hrun : (AuditGet.ask bareEnv .person "1" .confirm).run sweptWorld =
      .ok () (sweptWorld.after (AuditGet.ask bareEnv .person "1" .confirm)) := rfl
  have hresp : bareEnv.respond sweptWorld.tick
      (.record .person "1" (AuditGet.confirm.includes .person)) = .ok bareAnswer := rfl
  have hrecord : recordOf bareAnswer = .ok (some barePerson) := rfl
  obtain ⟨after, hafter, hraw⟩ := AuditGet.confirm.raw_after hresp (by decide) hrecord hrun
  have hkept := h bareEnv .person .confirm "1" sweptWorld _ bareAnswer barePerson sweptRow after
    (by rfl) (by decide) (by rfl) (by rfl) (by rfl) (by rfl) hafter
  rw [hraw] at hkept
  exact absurd (hkept (show Json.EachKey.label "households" ∈ relationshipKeys sweptRow.raw by decide))
    (by decide)

end PcoMirror
