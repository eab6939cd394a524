import PcoMirror.Model.Serving.WriteThrough

/-! # A write is sent once, and nothing is stored unless it was accepted -/

namespace PcoMirror

open Program

/-- PCO refused the request before anything could have applied it. -/
def Busy (outcome : Outcome) : Prop :=
  ∃ resp, outcome = .ok resp ∧ resp.status = 429

namespace Exchange

/-- Each send but the newest was answered `429`. -/
def ResentWhereBusy (x : Exchange) : Prop :=
  ∀ outcome ∈ x.sends.tail, Busy outcome

/-- The newest send was answered with a 2xx. -/
def Accepted (x : Exchange) : Prop :=
  ∃ resp, x.sends.head? = some (.ok resp) ∧ resp.ok = true

/-- No row differs from before, unless PCO accepted the write. -/
def Held (w : World) (x : Exchange) : Prop :=
  x.world.db ≠ w.db → x.Accepted

end Exchange

/-! ## The client's loop -/

variable {transport : Transport} {method : Verb} {α β : Type}

/-- What cannot be sent twice is sent again after a `429` alone. -/
theorem busy_of_retries (hmethod : method.idempotent = false) {outcome : Outcome}
    (h : retries method outcome = true) : Busy outcome := by
  cases outcome with
  | error e => simp [retries, hmethod] at h
  | ok resp => exact ⟨resp, rfl, by simpa [retries, hmethod] using h⟩

variable (transport) in
/-- The answer a request settles on is the newest, and those before it were busy. -/
theorem spec_attempts (hmethod : method.idempotent = false) (w : World) (left : ℕ) :
    Spec (fun x => x.world = w ∧ ∀ outcome ∈ x.sends, Busy outcome)
      (attempts transport method left)
      (fun resp x => x.world = w ∧ x.ResentWhereBusy ∧ x.sends.head? = some (.ok resp))
      fun _ x => x.world = w ∧ x.ResentWhereBusy := by
  have hsettle : ∀ outcome : Outcome,
      Spec (fun x => x.world = w ∧ x.ResentWhereBusy ∧ x.sends.head? = some outcome)
        (servePy outcome)
        (fun resp x => x.world = w ∧ x.ResentWhereBusy ∧ x.sends.head? = some (.ok resp))
        fun _ x => x.world = w ∧ x.ResentWhereBusy := by
    intro outcome
    cases outcome with
    | ok resp => exact Spec.pure fun x hx => hx
    | error e => exact Spec.throw fun x hx => ⟨hx.1, hx.2.1⟩
  have hsend : ∀ E : Fault → Exchange → Prop,
      Spec (fun x => x.world = w ∧ ∀ outcome ∈ x.sends, Busy outcome) (send transport)
        (fun outcome x => x.world = w ∧ x.ResentWhereBusy ∧ x.sends.head? = some outcome) E := by
    intro E x hx
    exact ⟨hx.1, hx.2, rfl⟩
  induction left with
  | zero => exact Spec.bind (hsend _) hsettle
  | succ left ih =>
      refine Spec.bind (hsend _) fun outcome => Spec.ite (fun hagain => ?_) fun _ => hsettle outcome
      refine ih.conseq (fun x hx => ⟨hx.1, ?_⟩) (fun _ _ h => h) fun _ _ h => h
      obtain ⟨-, hbusy, hhead⟩ := hx
      intro o ho
      match hsends : x.sends with
      | [] => rw [hsends] at ho; cases ho
      | newest :: older =>
          rw [hsends] at ho hhead
          obtain rfl | ho := List.mem_cons.mp ho
          · cases hhead
            exact busy_of_retries hmethod hagain
          · exact hbusy o (by rw [hsends]; exact ho)

/-! ## What follows the sends -/

/-- An exception, and no answer decided on by the serving code. -/
def Fault.Unplanned (fault : Fault) : Prop :=
  ∀ status detail info, fault ≠ .http status detail info

/-- However the program ends, nothing more has been sent, nor has an answer been decided on. -/
def Sendless (m : Serving α) : Prop :=
  ∀ sends, Spec (fun x => x.sends = sends) m (fun _ x => x.sends = sends)
    fun fault x => x.sends = sends ∧ fault.Unplanned

theorem Sendless.bind {m : Serving α} {f : α → Serving β} (hm : Sendless m)
    (hf : ∀ a, Sendless (f a)) : Sendless (m >>= f) :=
  fun sends => Spec.bind (hm sends) fun a => hf a sends

theorem sendless_pure (a : α) : Sendless (pure a : Serving α) := fun _ => Spec.pure fun _ h => h

theorem sendless_throw {e : Fault} (he : e.Unplanned) : Sendless (throw e : Serving α) :=
  fun _ => Spec.throw fun _ h => ⟨h, he⟩

theorem sendless_get : Sendless (get : Serving Exchange) := fun _ => Spec.get fun _ h => h

theorem sendless_serveSql (e : Except SqlError α) : Sendless (serveSql e) := by
  cases e with
  | ok a => exact sendless_pure a
  | error e => exact sendless_throw nofun

theorem sendless_servePy (e : Except PyError α) : Sendless (servePy e) := by
  cases e with
  | ok a => exact sendless_pure a
  | error e => exact sendless_throw nofun

theorem Sendless.forEach {action : β → Serving Unit} (h : ∀ x, Sendless (action x))
    (xs : List β) : Sendless (forEach action xs) :=
  fun sends => Spec.forEach xs fun x _ => h x sends

theorem Sendless.whenSome {action : β → Serving Unit} (h : ∀ x, Sendless (action x))
    (x : Option β) : Sendless (whenSome x action) := by
  cases x with
  | none => exact sendless_pure ()
  | some b => exact h b

theorem run_onMirror (m : Proc α) (x : Exchange) :
    (onMirror m).run x = match m.run x.world with
      | .ok a w => .ok a { x with world := w }
      | .error (.raised e) w => .error (.raised e) { x with world := w }
      | .error .stopped w => .error .stopped { x with world := w } := by
  have hget : (get : Serving Exchange).run x = .ok x x := rfl
  rw [onMirror, run_bind_of_ok hget]
  cases m.run x.world with
  | ok a w => rfl
  | error halt w => cases halt <;> rfl

theorem sendless_onMirror (m : Proc α) : Sendless (onMirror m) := by
  intro sends x hx
  rw [run_onMirror]
  match m.run x.world with
  | .ok a w => exact hx
  | .error (.raised e) w => exact ⟨hx, nofun⟩
  | .error .stopped w => exact ⟨hx, nofun⟩

theorem sendless_quietly (m : Proc α) : Sendless (quietly m) :=
  sendless_onMirror _

theorem sendless_queueQuietly (env : Env) (r : Res) (id reason : String) (delayS : ℕ) :
    Sendless (queueQuietly env r id reason delayS) :=
  sendless_quietly _

theorem sendless_verifyPeerEdge (env : Env) (site : Site) (subject : Res)
    (subjectId : Option String) (peer : Res) (peerId : String) :
    Sendless (verifyPeerEdge env site subject subjectId peer peerId) := by
  refine sendless_get.bind fun x => ?_
  match subjectId, edgePath peer subject with
  | some subjectId, some path =>
      refine (sendless_serveSql _).bind fun held => ?_
      split_ifs
      · exact sendless_pure ()
      · exact sendless_queueQuietly env peer peerId "write_verify" 60
  | none, _ => exact sendless_pure ()
  | some _, none => exact sendless_pure ()

theorem sendless_refreshPeer (env : Env) (site : Site) (subject : Res)
    (subjectId : Option String) (peer : Res × String) :
    Sendless (refreshPeer env site subject subjectId peer) :=
  (sendless_quietly _).bind fun _ => sendless_verifyPeerEdge env site subject subjectId _ _

theorem sendless_queueEach (env : Env) (records : List (Res × String)) :
    Sendless (forEach (fun record => queueQuietly env record.1 record.2 "write_through" 0)
      records) := by
  refine Sendless.forEach ?_ records
  intro record
  exact sendless_queueQuietly env record.1 record.2 "write_through" 0

theorem sendless_refreshNamedPeers (env : Env) (site : Site) (r : Res) (sent : Json)
    (subjectId : Option String) : Sendless (refreshNamedPeers env site r sent subjectId) := by
  unfold refreshNamedPeers
  refine (sendless_servePy _).bind fun named => ?_
  refine (Sendless.forEach (sendless_refreshPeer env site r subjectId) (named.take 8)).bind
    fun _ => ?_
  exact sendless_queueEach env (named.drop 8)

theorem sendless_refreshUnder (env : Env) (fuel : ℕ) (r : Res) (parentId name : String)
    (out sent : Json) : Sendless (refreshUnder env fuel r parentId name out sent) := by
  have hqueue : Sendless (queueTouched env r parentId out sent) :=
    (sendless_servePy _).bind fun members => sendless_queueEach env _
  unfold refreshUnder
  match r.info.relationships.lookup name with
  | none => exact sendless_pure ()
  | some rel =>
      simp only
      split_ifs
      · exact sendless_pure ()
      · exact sendless_quietly _
      · exact (sendless_quietly _).bind fun _ => hqueue
      · exact (sendless_pure ()).bind fun _ => hqueue

theorem sendless_refreshAffected (env : Env) (site : Site) (fuel : ℕ) (r : Res)
    (segs : List String) (out sent : Json) :
    Sendless (refreshAffected env site fuel r segs out sent) := by
  unfold refreshAffected
  split
  · exact sendless_refreshUnder env fuel r _ _ out sent
  · exact sendless_refreshNamedPeers env site r sent _

theorem sendless_applyWrite (env : Env) (site : Site) (fuel : ℕ) (method : Verb) (r : Res)
    (segs : List String) (sent : Json) (resp : Answer) :
    Sendless (applyWrite env site fuel method r segs sent resp) := by
  unfold applyWrite
  split_ifs
  · exact (Sendless.whenSome (fun id => sendless_quietly _) _).bind fun _ =>
      (sendless_refreshAffected env site fuel r segs .null sent).bind fun _ => sendless_pure _
  · refine (sendless_servePy _).bind fun out => (sendless_servePy _).bind fun _ =>
      (sendless_quietly _).bind fun _ => (sendless_refreshAffected env site fuel r segs _ sent).bind
        fun _ => (sendless_servePy _).bind fun headers => (sendless_servePy _).bind fun document =>
          sendless_pure _

theorem not_http_applyWrite {env : Env} {site : Site} {fuel : ℕ} {method : Verb} {r : Res}
    {segs : List String} {sent : Json} {resp : Answer} {x x' : Exchange} {fault : Fault}
    (h : (applyWrite env site fuel method r segs sent resp).run x = .error fault x') :
    fault.Unplanned :=
  ((sendless_applyWrite env site fuel method r segs sent resp x.sends).error rfl h).2

/-! ## The write -/

/-- The tables are as they were, and so was every send but the newest refused. -/
theorem spec_writeThrough (hmethod : method.idempotent = false) (env : Env) (site : Site)
    (fuel : ℕ) (r : Res) (segs : List String) (body : Body) (w : World) :
    Spec (fun x => x = { world := w }) (writeThrough env transport site fuel method r segs body)
      (fun _ x => x.ResentWhereBusy ∧ x.Held w) fun _ x => x.ResentWhereBusy ∧ x.Held w := by
  have hidle : ∀ x : Exchange, x.world = w → x.Held w :=
    fun x hx hne => absurd (congrArg World.db hx) hne
  have hrelay : ∀ e : Except PyError (List (String × String)), ∀ reply : List (String × String) → Reply,
      Spec (fun x => x.world = w ∧ x.ResentWhereBusy)
        (do return reply (← servePy e)) (fun _ x => x.ResentWhereBusy ∧ x.Held w)
        fun _ x => x.ResentWhereBusy ∧ x.Held w := by
    intro e reply
    cases e with
    | ok headers => exact Spec.pure fun x hx => ⟨hx.2, hidle x hx.1⟩
    | error e => exact Spec.throw fun x hx => ⟨hx.2, hidle x hx.1⟩
  unfold writeThrough
  refine Spec.bind (R := fun _ x => x = { world := w }) ?_ fun sent => ?_
  · cases decoded body with
    | ok sent => exact Spec.pure fun x hx => hx
    | error e =>
        refine Spec.throw fun x hx => ?_
        subst hx
        exact ⟨nofun, hidle _ rfl⟩
  refine Spec.bind (R := fun resp x => x.world = w ∧ x.ResentWhereBusy ∧
    x.sends.head? = some (.ok resp)) ?_ fun resp => ?_
  · refine Spec.tryCatch (R := fun _ x => x.world = w ∧ x.ResentWhereBusy) ?_ fun fault => ?_
    · refine (spec_attempts transport hmethod w 5).conseq ?_ (fun _ _ h => h) fun _ _ h => h
      rintro x rfl
      exact ⟨rfl, nofun⟩
    · cases fault <;> exact Spec.throw fun x hx => ⟨hx.2, hidle x hx.1⟩
  · refine Spec.ite (fun hok => ?_) fun _ => ?_
    · intro x ⟨_, hbusy, hhead⟩
      have h := sendless_applyWrite env site fuel method r segs sent resp x.sends x rfl
      have hkept : ∀ x' : Exchange, x'.sends = x.sends → x'.ResentWhereBusy ∧ x'.Held w := by
        intro x' hsends
        refine ⟨?_, fun _ => ⟨resp, by rw [hsends]; exact hhead, hok⟩⟩
        rw [Exchange.ResentWhereBusy, hsends]
        exact hbusy
      cases hrun : (applyWrite env site fuel method r segs sent resp).run x with
      | ok reply x' =>
          simp only [hrun] at h ⊢
          exact hkept x' h
      | error fault x' =>
          simp only [hrun] at h ⊢
          exact hkept x' h.1
    · exact (hrelay _ _).conseq (fun x hx => ⟨hx.1, hx.2.1⟩) (fun _ _ h => h) fun _ _ h => h

theorem Mutation.not_idempotent (method : Mutation) : method.verb.idempotent = false := by
  cases method <;> rfl

variable (transport) in
theorem spec_serveWrite (env : Env) (site : Site) (fuel : ℕ)
    (scopes : Except String (List String)) (method : Mutation) (path : String) (body : Body)
    (w : World) :
    Spec (fun x => x = { world := w })
      (serveWrite env transport site fuel scopes method path body)
      (fun _ x => x.ResentWhereBusy ∧ x.Held w) fun _ x => x.ResentWhereBusy ∧ x.Held w := by
  refine Spec.tryCatch (R := fun _ x => x.ResentWhereBusy ∧ x.Held w) ?_ fun fault => ?_
  · have hrefuse : ∀ fault : Fault, Spec (fun x => x = { world := w }) (throw fault : Serving Reply)
        (fun _ x => x.ResentWhereBusy ∧ x.Held w) fun _ x => x.ResentWhereBusy ∧ x.Held w := by
      intro fault
      refine Spec.throw fun x hx => ?_
      subst hx
      exact ⟨nofun, fun hne => absurd rfl hne⟩
    unfold routeWrite
    match scopes with
    | .error detail => exact hrefuse _
    | .ok scopes =>
        simp only
        match segments path with
        | none => exact hrefuse _
        | some [] => exact hrefuse _
        | some (first :: rest) =>
            simp only
            match bySegment first with
            | none => exact hrefuse _
            | some r =>
                refine Spec.ite (fun _ => ?_) fun _ => hrefuse _
                exact spec_writeThrough method.not_idempotent env site fuel r (first :: rest) body w
  · cases fault with
    | raised e => exact Spec.pure fun _ hx => hx
    | sqlite => exact Spec.pure fun _ hx => hx
    | http status detail info => exact Spec.pure fun _ hx => hx
    | stopped => exact Spec.throw fun _ hx => hx

/-- Whatever the transport does, a write is sent again only after a `429`, and no mirrored row
changes unless a 2xx answer to it was received. -/
theorem write_at_most_once (env : Env) (transport : Transport) (site : Site) (fuel : ℕ)
    (scopes : Except String (List String)) (method : Mutation) (path : String) (body : Body)
    (w : World) :
    let x := final (serveWrite env transport site fuel scopes method path body) { world := w }
    (∀ earlier outcome later, x.sends = later ++ outcome :: earlier → later ≠ [] → Busy outcome) ∧
      (x.world.db ≠ w.db → ∃ resp, x.sends.head? = some (.ok resp) ∧ resp.ok = true) := by
  obtain ⟨hresent, hheld⟩ := (spec_serveWrite transport env site fuel scopes method path
    body w).final rfl
  refine ⟨?_, hheld⟩
  intro earlier outcome later hsends hlater
  obtain ⟨newest, rest, rfl⟩ := List.exists_cons_of_ne_nil hlater
  refine hresent outcome ?_
  rw [hsends]
  simp

end PcoMirror
