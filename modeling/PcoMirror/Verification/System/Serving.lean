import PcoMirror.Verification.Serving.Presented
import PcoMirror.Verification.System.Passes

/-! The inbox, the deliveries that fill it, and the service write from known documents: what is
written of an event was posted, and what is written of a forwarded request is PCO's answer to it. -/

namespace PcoMirror

open Program

variable {env : Env} {transport : Transport} {site : Site} {u : Unicode} {fuel : ℕ}
  {posted known : Json → Prop} {α β : Type}

/-! ## The inbox -/

/-- What was posted is at hand at any time. -/
theorem Sources.ofPosted {m : Proc α} (h : Sources posted (fun doc => known doc ∨ posted doc) m) :
    Sources posted known m :=
  fun base => (h base).conseq (fun _ hw => ⟨hw.sourced, fun doc hdoc => hdoc.elim (hw.knows doc) .inl⟩)
    (fun _ _ hw => ⟨hw.sourced, fun doc hdoc => hw.knows doc (.inl hdoc)⟩)
    fun _ _ hw => ⟨hw.sourced, fun doc hdoc => hw.knows doc (.inl hdoc)⟩

/-- What follows a look at the state finds only posted events in the inbox. -/
theorem sources_get_bind {f : World → Proc α}
    (h : ∀ w, (∀ row ∈ w.events, ∀ doc, row.2.Brings doc → posted doc) →
      Sources posted known (f w)) : Sources posted known (get >>= f) :=
  fun base w hw => h w hw.sourced.inbox base w hw

theorem WebhookEvent.Brings.of_payload {ev ev' : WebhookEvent} {doc : Json} (h : ev'.Brings doc)
    (hpayload : ev'.payload = ev.payload) : ev.Brings doc := by
  rwa [WebhookEvent.Brings, hpayload] at h

/-- An event changed in place stays the one that was posted. -/
theorem sources_setEvent (eventId : Option String) {f : WebhookEvent → WebhookEvent}
    (hf : ∀ ev, (f ev).payload = ev.payload) : Sources posted known (setEvent eventId f) := by
  refine fun base => Keeps.modify fun w hw => ⟨⟨hw.sourced.tables, fun row hrow doc hdoc => ?_⟩,
    hw.knows⟩
  rcases List.mem_append.mp hrow with hnamed | hnameless
  · obtain ⟨e', he', rfl⟩ := List.mem_map.mp hnamed
    obtain ⟨e, he, rfl⟩ := List.mem_map.mp he'
    refine hw.sourced.inbox (some e.1, e.2)
      (List.mem_append_left _ (List.mem_map.mpr ⟨e, he, rfl⟩)) doc (hdoc.of_payload ?_)
    simp only [Sigma.map]
    split_ifs
    · exact hf e.2
    · rfl
  · exact hw.sourced.inbox row (List.mem_append_right _ hnameless) doc hdoc

theorem sources_deadEvent (eventId : Option String) (ev : WebhookEvent) (error : String) :
    Sources posted known (deadEvent eventId ev error) := by
  refine Sources.bind (fun base => Keeps.modify fun w hw => ?_) fun _ =>
    sources_setEvent eventId fun _ => rfl
  cases eventId <;> exact hw.aside rfl List.suffix_rfl rfl

theorem sources_retryOrDead (eventId : Option String) (ev : WebhookEvent) (error : String) :
    Sources posted known (retryOrDead env eventId ev error) :=
  .ite (sources_deadEvent eventId ev error) ((sources_nowIso env).bind fun _ =>
    sources_setEvent eventId fun _ => rfl)

theorem sources_ignoreEvent (eventId : Option String) (why : String) :
    Sources posted known (ignoreEvent env eventId why) :=
  (sources_nowIso env).bind fun _ => sources_setEvent eventId fun _ => rfl

theorem sources_enqueueOrDefer (r : Res) (id : String) :
    Sources posted known (enqueueOrDefer env r id) :=
  sources_get.bind fun _ => .ite ((sources_nowIso env).bind fun _ => sources_setState r _)
    (sources_enqueueHydration env r id _)

theorem sources_applyEvent (r : Option Res) (ev : WebhookEvent) {payload : Json}
    (hdoc : known payload) : Sources posted known (applyEvent env r ev payload) := by
  refine .ite (sources_handleMerge hdoc) ?_
  cases r with
  | none => exact sources_pure _
  | some r =>
      have hforget : Sources posted known (if ev.action = "refreshed" then
          (do forgetChildWalks r (← ofPy (idOf payload))) else pure () : Proc Unit) :=
        .ite ((sources_ofPy _).bind fun id => sources_apart (fun _ => rfl) (fun _ => rfl)
          fun _ => rfl) (sources_pure _)
      refine .ite ((sources_ofPy _).bind fun _ => (sources_ofPy _).bind fun _ =>
        (sources_ofPy _).bind fun id => sources_tombstoneOne env r id _ _ _) ?_
      refine (sources_routeOne hdoc env _ _ _).bind fun _ => .ite ?_ hforget
      exact (sources_ofPy _).bind fun id => (sources_enqueueOrDefer r id).bind fun _ => hforget

/-- What processing an event writes is what it brings. -/
theorem sources_processEvent (eventId : Option String) {ev : WebhookEvent}
    (hev : ∀ doc, ev.Brings doc → posted doc) :
    Sources posted known (processEvent env eventId ev) := by
  have hdecoded (decoded : Json) (h : ev.payload.decoded? = some decoded) :
      Sources posted known (do
        let payload ← ofPy (unwrap decoded)
        if (byEventResource ev.resourceType).isNone ∧ ev.resourceType ≠ "person_merger" then
          ignoreEvent env eventId ("no table for " ++ ev.resourceType)
        else
          catching (do
            applyEvent env (byEventResource ev.resourceType) ev payload
            let now ← nowIso env
            setEvent eventId fun ev => { ev with status := "done", processedAt := some now })
            fun e => retryOrDead env eventId ev e.text : Proc Unit) := by
    refine .ofPosted (sources_ofPy_bind fun payload hpayload => .ite (sources_ignoreEvent eventId _)
      (.catching ?_ fun e => sources_retryOrDead eventId ev e.text))
    exact (sources_applyEvent _ ev (.inr (hev payload ⟨decoded, h, hpayload⟩))).bind fun _ =>
      (sources_nowIso env).bind fun _ => sources_setEvent eventId fun _ => rfl
  unfold processEvent
  cases hpayload : ev.payload with
  | empty => exact hdecoded (.obj []) (by rw [hpayload]; rfl)
  | invalid => exact sources_deadEvent eventId ev _
  | json j => exact hdecoded j (by rw [hpayload]; rfl)

theorem sources_drain (limit : ℕ) : Sources posted known (drain env limit) := by
  refine (sources_nowIso env).bind fun now => sources_get_bind fun w hinbox =>
    (Sources.forEach fun row hrow => ?_).bind fun _ => sources_pure _
  have hsorted := (List.mem_insertionSort _).mp (List.mem_of_mem_take hrow)
  exact sources_processEvent row.1 (hinbox row (List.mem_of_mem_filter hsorted))

theorem sources_retryDeadLetters : Sources posted known retryDeadLetters := by
  have hone (eventId : Option String) : Sources posted known (retryOne eventId) := by
    refine Sources.bind ?_ fun _ => .whenSome fun id _ => ?_
    · exact sources_setEvent eventId fun _ => rfl
    · exact sources_apart (fun _ => rfl) (fun _ => rfl) fun _ => rfl
  exact sources_get.bind fun w => (Sources.forEach fun id _ => hone id).bind fun _ => sources_pure _

/-! ## Deliveries -/

/-- A document among the events of a delivery. -/
def Post.Delivers (post : Post) (edge : Edge) (doc : Json) : Prop :=
  ∃ body data items item fallback row, edge.loads post.raw = .ok body ∧ dataOf body = .ok data ∧
    pyItems data = .ok items ∧ item ∈ items ∧ edge.readEvent fallback item = .ok row ∧
    row.2.Brings doc

theorem sources_captureOne {edge : Edge} {fallback : String} {item : Json}
    (h : ∀ row, edge.readEvent fallback item = .ok row → ∀ doc, row.2.Brings doc → posted doc) :
    Sources posted known (captureOne edge env fallback item) := by
  refine sources_ofPy_bind fun row hrow => (sources_nowIso env).bind fun now base =>
    Keeps.modify fun w hw => ⟨⟨?_, fun held hheld doc hdoc => ?_⟩, fun doc hdoc => ?_⟩
  · have htables := hw.sourced.tables
    unfold World.received
    split
    · split_ifs
      · exact htables
      · exact htables
    · exact htables
  · have hnew : held.2.payload = row.2.payload → posted doc := fun hpayload =>
      h row hrow doc (hdoc.of_payload hpayload)
    unfold World.received at hheld
    cases hid : row.1 with
    | none =>
        simp only [hid] at hheld
        rcases List.mem_append.mp hheld with hnamed | hnameless
        · exact hw.sourced.inbox held (List.mem_append_left _ hnamed) doc hdoc
        · obtain ⟨ev, hev, rfl⟩ := List.mem_map.mp hnameless
          rcases List.mem_append.mp hev with hold | hlast
          · exact hw.sourced.inbox (none, ev)
              (List.mem_append_right _ (List.mem_map_of_mem hold)) doc hdoc
          · exact hnew (by rw [List.mem_singleton.mp hlast])
    | some id =>
        simp only [hid] at hheld
        split_ifs at hheld with hthere
        · exact hw.sourced.inbox held hheld doc hdoc
        · rcases List.mem_append.mp hheld with hnamed | hnameless
          · obtain ⟨e, he, rfl⟩ := List.mem_map.mp hnamed
            rw [AList.entries_insert_of_notMem (fun hin => hthere
              (AList.lookup_isSome.mpr hin))] at he
            rcases List.mem_cons.mp he with rfl | hold
            · exact hnew rfl
            · exact hw.sourced.inbox (some e.1, e.2)
                (List.mem_append_left _ (List.mem_map.mpr ⟨e, hold, rfl⟩)) doc hdoc
          · exact hw.sourced.inbox held (List.mem_append_right _ hnameless) doc hdoc
  · have hknows := hw.knows doc hdoc
    unfold World.received
    split
    · split_ifs
      · exact hknows
      · exact hknows
    · exact hknows

theorem sources_receive {edge : Edge} {post : Post}
    (hpost : ∀ doc, post.Delivers edge doc → posted doc) :
    Sources posted known (receive edge env post) := by
  have hfile (body : Json) : Sources posted known (fileAs env post body) := by
    refine (sources_ofPy _).bind fun id => ?_
    cases id.filter Json.truthy with
    | some id => exact sources_pure _
    | none =>
        cases headerText post.deliveryId with
        | some id => exact sources_pure _
        | none => exact (sources_nowIso env).bind fun _ => sources_pure _
  have hcapture {body : Json} (hbody : edge.loads post.raw = .ok body) (sub : Subscription)
      (id : Except PyError (Option String)) :
      Sources posted known (capture edge env post sub body id) := by
    refine (sources_ofPy _).bind fun attempt => (sources_ofPy _).bind fun id => .bind
      (.whenSome fun id _ base => Keeps.modify fun w hw => ?_) fun _ => ?_
    · split_ifs
      · exact hw
      · exact hw.aside rfl List.suffix_rfl rfl
    · refine sources_ofPy_bind fun data hdata => sources_ofPy_bind fun items hitems =>
        (Sources.forEach fun item hitem => sources_captureOne fun row hrow doc hdoc => ?_).bind
          fun _ => (sources_nowIso env).bind fun _ =>
            sources_apart (fun _ => rfl) (fun _ => rfl) fun _ => rfl
      exact hpost doc ⟨body, data, items, item, _, row, hbody, hdata, hitems, hitem, hrow, hdoc⟩
  refine sources_get.bind fun w => .ite (sources_pure _) ?_
  simp only
  split
  · exact sources_pure _
  · split
    · exact sources_pure _
    · exact sources_raise _
    · rename_i body hbody
      exact (sources_ofPy _).bind fun sub => (hfile body).bind fun id =>
        .catching ((hcapture hbody sub id).bind fun _ => sources_pure _) fun _ => sources_pure _

/-! ## Writes -/

/-- A document of an answer to a forwarded request. -/
def Transport.Answers (transport : Transport) (doc : Json) : Prop :=
  ∃ n resp, transport n = .ok resp ∧ resp.Carries doc

/-- While a request is served, whatever the program writes is written from known documents. -/
def ServesSourced (posted known : Json → Prop) (m : Serving α) : Prop :=
  ∀ base, Keeps (fun x => x.world.AtHand posted known base) m

theorem ServesSourced.bind {m : Serving α} {f : α → Serving β} (hm : ServesSourced posted known m)
    (hf : ∀ a, ServesSourced posted known (f a)) : ServesSourced posted known (m >>= f) :=
  fun base => Keeps.bind (hm base) fun a => hf a base

theorem servesSourced_pure (a : α) : ServesSourced posted known (pure a : Serving α) :=
  fun _ => Keeps.pure a

theorem servesSourced_throw (e : Fault) : ServesSourced posted known (throw e : Serving α) :=
  fun _ => Keeps.throw e

theorem servesSourced_get : ServesSourced posted known (get : Serving Exchange) :=
  fun _ => Keeps.get

theorem servesSourced_servePy (e : Except PyError α) : ServesSourced posted known (servePy e) := by
  cases e with
  | ok a => exact servesSourced_pure a
  | error e => exact servesSourced_throw _

theorem servesSourced_servePy_bind {e : Except PyError α} {f : α → Serving β}
    (h : ∀ a, e = .ok a → ServesSourced posted known (f a)) :
    ServesSourced posted known (servePy e >>= f) := by
  cases e with
  | ok a => exact h a rfl
  | error e => exact fun _ _ hx => hx

theorem servesSourced_serveSql (e : Except SqlError α) :
    ServesSourced posted known (serveSql e) := by
  cases e with
  | ok a => exact servesSourced_pure a
  | error e => exact servesSourced_throw _

theorem ServesSourced.ite {p : Prop} [Decidable p] {m m' : Serving α}
    (h : ServesSourced posted known m) (h' : ServesSourced posted known m') :
    ServesSourced posted known (if p then m else m') :=
  fun base => Keeps.ite (h base) (h' base)

theorem ServesSourced.forEach {action : β → Serving Unit}
    (h : ∀ x, ServesSourced posted known (action x)) (xs : List β) :
    ServesSourced posted known (forEach action xs) :=
  fun base => Keeps.forEach xs fun x _ => h x base

theorem Sources.onMirror {m : Proc α} (h : Sources posted known m) :
    ServesSourced posted known (onMirror m) :=
  fun base => spec_onMirror_ends (h base)

theorem Sources.quietly {m : Proc α} (h : Sources posted known m) :
    ServesSourced posted known (quietly m) :=
  (h.attempt.bind fun _ => sources_pure ()).onMirror

/-- A request leaves the mirror alone, and what it returns is an answer of the transport. -/
theorem spec_request_answered (method : Verb) (P : World → Prop) :
    Spec (fun x : Exchange => P x.world) (request transport method)
      (fun resp x => P x.world ∧ ∃ n, transport n = .ok resp) fun _ x => P x.world := by
  have hsend : Spec (fun x : Exchange => P x.world) (send transport)
      (fun outcome x => P x.world ∧ ∃ n, transport n = outcome) fun _ x => P x.world :=
    fun x hx => ⟨hx, x.sends.length, rfl⟩
  have hserve (outcome : Outcome) : Spec (fun x : Exchange => P x.world ∧ ∃ n, transport n = outcome)
      (servePy outcome) (fun resp x => P x.world ∧ ∃ n, transport n = .ok resp)
      fun _ x => P x.world := by
    cases outcome with
    | ok resp => exact Spec.pure fun _ h => h
    | error e => exact Spec.throw fun _ h => h.1
  have hattempts (left : ℕ) : Spec (fun x : Exchange => P x.world) (attempts transport method left)
      (fun resp x => P x.world ∧ ∃ n, transport n = .ok resp) fun _ x => P x.world := by
    induction left with
    | zero => exact Spec.bind hsend hserve
    | succ left ih =>
        exact Spec.bind hsend fun outcome => Spec.ite
          (fun _ => ih.conseq (fun _ h => h.1) (fun _ _ h => h) fun _ _ h => h)
          fun _ => hserve outcome
  exact hattempts 5

/-- What follows a forwarded request has the documents of its answer at hand. -/
theorem servesSourced_request_bind {method : Verb} {f : Answer → Serving β}
    (hposted : ∀ doc, transport.Answers doc → posted doc)
    (h : ∀ resp : Answer, (∀ doc, resp.Carries doc → posted doc) →
      ServesSourced posted known (f resp)) :
    ServesSourced posted known (request transport method >>= f) :=
  fun base => Spec.bind (spec_request_answered method _) fun resp x hx =>
    h resp (fun doc hdoc => hx.2.elim fun n hn => hposted doc ⟨n, resp, hn, hdoc⟩) base x hx.1

theorem servesSourced_queueEach (records : List (Res × String)) :
    ServesSourced posted known
      (forEach (fun record => queueQuietly env record.1 record.2 "write_through" 0) records) :=
  .forEach (fun record => (sources_enqueueHydrationWith env record.1 record.2 _ [] 0).quietly) records

theorem servesSourced_refreshPeer (subject : Res) (subjectId : Option String)
    (peer : Res × String) :
    ServesSourced posted known (refreshPeer env site subject subjectId peer) := by
  refine (sources_hydrate peer.1 peer.2 _).quietly.bind fun _ => servesSourced_get.bind fun x => ?_
  split
  · exact (servesSourced_serveSql _).bind fun held => .ite (servesSourced_pure ())
      (sources_enqueueHydrationWith env peer.1 peer.2 _ [] 60).quietly
  · exact servesSourced_pure ()

theorem sources_walkChildren (child : Res) (parentId : String) :
    Sources posted known (walkChildren env child parentId fuel) := by
  unfold walkChildren
  split
  · exact sources_walkParent child _ parentId .passthrough fuel
  · exact sources_raise _

theorem servesSourced_refreshUnder (r : Res) (parentId name : String) (out sent : Json) :
    ServesSourced posted known (refreshUnder env fuel r parentId name out sent) := by
  have hqueue : ServesSourced posted known (queueTouched env r parentId out sent) :=
    (servesSourced_servePy _).bind fun members => servesSourced_queueEach _
  unfold refreshUnder
  split
  · exact servesSourced_pure ()
  · refine .ite (servesSourced_pure ()) (.ite (sources_hydrate r parentId _).quietly (.ite ?_ ?_))
    · exact (sources_walkChildren _ parentId).quietly.bind fun _ => hqueue
    · exact (servesSourced_pure ()).bind fun _ => hqueue

theorem servesSourced_refreshAffected (r : Res) (segs : List String) (out sent : Json) :
    ServesSourced posted known (refreshAffected env site fuel r segs out sent) := by
  unfold refreshAffected
  split
  · exact servesSourced_refreshUnder r _ _ out sent
  · refine (servesSourced_servePy _).bind fun named => ?_
    exact (ServesSourced.forEach (servesSourced_refreshPeer r _) _).bind fun _ =>
      servesSourced_queueEach _

theorem servesSourced_applyWrite (method : Verb) (r : Res) (segs : List String) (sent : Json)
    {resp : Answer} (hresp : ∀ doc, resp.Carries doc → posted doc) :
    ServesSourced posted known (applyWrite env site fuel method r segs sent resp) := by
  have hbury : ServesSourced posted known (whenSome (resolveWrite r segs).id fun id =>
      recordLocally (tombstoneOne env (resolveWrite r segs).r id none .destroyed)) :=
    fun base => Keeps.whenSome _ fun id _ => (sources_tombstoneOne env _ id _ _ _).quietly base
  refine .ite (hbury.bind fun _ => (servesSourced_refreshAffected r segs .null sent).bind fun _ =>
    servesSourced_pure _) ?_
  refine servesSourced_servePy_bind fun out hout => (servesSourced_servePy _).bind fun _ => ?_
  have hstored (hint : Option Json) :
      Sources posted known (routePage env resp.status out .passthrough [] hint) :=
    .ofPosted (sources_routePage
      (fun _ h _ hdoc => .inr (hresp _ ⟨out, hout, bears_of_pageData h hdoc⟩))
      (fun _ h _ hdoc => .inr (hresp _ ⟨out, hout, bears_of_pageIncluded h hdoc⟩)) env _ _ _ _)
  exact (hstored _).quietly.bind fun _ => (servesSourced_refreshAffected r segs _ sent).bind
    fun _ => (servesSourced_servePy _).bind fun _ => (servesSourced_servePy _).bind fun _ =>
      servesSourced_pure _

theorem servesSourced_writeThrough (hposted : ∀ doc, transport.Answers doc → posted doc)
    (method : Verb) (r : Res) (segs : List String) (body : Body) :
    ServesSourced posted known (writeThrough env transport site fuel method r segs body) := by
  refine (servesSourced_servePy _).bind fun sent base =>
    Spec.bind (Spec.tryCatch (spec_request_answered method _) fun fault => ?_) fun resp x hx => ?_
  · cases fault with
    | raised e => exact Spec.throw fun _ hx => hx
    | http status detail info => exact Spec.throw fun _ hx => hx
    | sqlite e => exact Spec.throw fun _ hx => hx
    | stopped => exact Spec.throw fun _ hx => hx
  have hresp : ∀ doc, resp.Carries doc → posted doc := fun doc hdoc =>
    hx.2.elim fun n hn => hposted doc ⟨n, resp, hn, hdoc⟩
  exact ServesSourced.ite (servesSourced_applyWrite method r segs sent hresp)
    ((servesSourced_servePy _).bind fun _ => servesSourced_pure _) base x hx.1

theorem servesSourced_serveWrite (hposted : ∀ doc, transport.Answers doc → posted doc)
    (scopes : Except String (List String)) (method : Mutation) (path : String) (body : Body) :
    ServesSourced posted known (serveWrite env transport site fuel scopes method path body) := by
  have hroute : ServesSourced posted known
      (routeWrite env transport site fuel scopes method path body) := by
    unfold routeWrite
    split
    · exact servesSourced_throw _
    · split
      · exact servesSourced_throw _
      · exact servesSourced_throw _
      · split
        · exact servesSourced_throw _
        · exact .ite (servesSourced_writeThrough hposted method.verb _ _ body)
            (servesSourced_throw _)
  refine fun base => Keeps.tryCatch (hroute base) fun fault => ?_
  cases fault with
  | stopped => exact Keeps.throw _
  | http status detail info => exact Keeps.pure _
  | raised e => exact Keeps.pure _
  | sqlite e => exact Keeps.pure _

/-! ## Reads -/

/-- While a read is served, whatever the program writes is written from known documents. -/
def ReadsSourced (posted known : Json → Prop) (m : Read α) : Prop :=
  ∀ base, Keeps (fun x : Reading => x.world.AtHand posted known base) m

theorem ReadsSourced.bind {m : Read α} {f : α → Read β} (hm : ReadsSourced posted known m)
    (hf : ∀ a, ReadsSourced posted known (f a)) : ReadsSourced posted known (m >>= f) :=
  fun base => Keeps.bind (hm base) fun a => hf a base

theorem readsSourced_pure (a : α) : ReadsSourced posted known (pure a : Read α) :=
  fun _ => Keeps.pure a

theorem readsSourced_throw (fault : Fault) : ReadsSourced posted known (throw fault : Read α) :=
  fun _ => Keeps.throw fault

theorem readsSourced_get : ReadsSourced posted known (get : Read Reading) :=
  fun _ => Keeps.get

theorem readsSourced_database : ReadsSourced posted known database :=
  readsSourced_get.bind fun _ => readsSourced_pure _

theorem readsSourced_readPy (e : Except PyError α) : ReadsSourced posted known (readPy e) :=
  fun _ => readPy_keeps (fun _ _ h => h) e

theorem readsSourced_readPy_bind {e : Except PyError α} {f : α → Read β}
    (h : ∀ a, e = .ok a → ReadsSourced posted known (f a)) :
    ReadsSourced posted known (readPy e >>= f) := by
  cases e with
  | ok a => exact h a rfl
  | error e => exact fun _ _ hx => hx

theorem readsSourced_readSql (e : Except SqlError α) : ReadsSourced posted known (readSql e) := by
  cases e with
  | ok a => exact readsSourced_pure a
  | error e => exact readsSourced_throw _

theorem readsSourced_ofFault (e : Except Fault α) : ReadsSourced posted known (ofFault e) := by
  cases e with
  | ok a => exact readsSourced_pure a
  | error e => exact readsSourced_throw _

theorem ReadsSourced.ite {p : Prop} [Decidable p] {m m' : Read α} (h : ReadsSourced posted known m)
    (h' : ReadsSourced posted known m') : ReadsSourced posted known (if p then m else m') :=
  fun base => Keeps.ite (h base) (h' base)

theorem readsSourced_aside {f : Reading → Reading} (hf : ∀ x, (f x).world = x.world) :
    ReadsSourced posted known (modify f : Read PUnit) :=
  fun _ => Keeps.modify fun x hx => by rwa [hf x]

theorem readsSourced_present (collections : Db → List (Res × String)) :
    ReadsSourced posted known (present collections) :=
  readsSourced_aside fun _ => rfl

/-- What holds of the mirror at the end of a program of the service holds of it in a read. -/
theorem spec_onExchange_ends {m : Serving α} {P : World → Prop} {Q : α → World → Prop}
    {E : World → Prop} (h : Spec (fun x : Exchange => P x.world) m (fun a x => Q a x.world)
      fun _ x => E x.world) :
    Spec (fun x : Reading => P x.world) (onExchange m) (fun a x => Q a x.world)
      fun _ x => E x.world := by
  intro x hx
  have hend := h x.toExchange hx
  rw [run_onExchange]
  cases hrun : m.run x.toExchange with
  | ok a e => simpa only [hrun] using hend
  | error fault e => simpa only [hrun] using hend

theorem ServesSourced.onExchange {m : Serving α} (h : ServesSourced posted known m) :
    ReadsSourced posted known (onExchange m) :=
  fun base => spec_onExchange_ends (h base)

theorem readsSourced_fillParent (c parent : Res) (budget : ℕ) (parentId : String) :
    ReadsSourced posted known (fillParent env fuel c parent budget parentId) := by
  have hnote (n : ℕ) :
      ReadsSourced posted known (do noteEnsured c parentId; return n : Read ℕ) :=
    (readsSourced_aside fun _ => rfl).bind fun _ => readsSourced_pure n
  refine readsSourced_get.bind fun x => .ite (hnote budget) (.ite (readsSourced_pure _)
    (.ite (readsSourced_throw _) ?_))
  refine (sources_ensureParentWalked c parent parentId fuel).attempt.onMirror.onExchange.bind
    fun tried => ?_
  cases tried with
  | ok done => exact hnote _
  | error e => exact readsSourced_throw _

theorem readsSourced_ensureWalked (r : Res) (rel : Rel) (rows : List Held) :
    ReadsSourced posted known (ensureWalked env fuel r rel rows) := by
  unfold ensureWalked
  cases rel.walkedUnder with
  | none => exact readsSourced_pure _
  | some parent =>
      have hrow (budget : ℕ) (held : Held) :
          ReadsSourced posted known (fillRow env fuel r rel.target parent budget held) :=
        readsSourced_database.bind fun db => (readsSourced_readPy _).bind fun ids base =>
          Spec.foldlM (I := fun _ (x : Reading) => x.world.AtHand posted known base) ids
            (fun budget id _ => readsSourced_fillParent _ parent budget id base) budget
      exact ReadsSourced.bind (fun base => Spec.foldlM
        (I := fun _ (x : Reading) => x.world.AtHand posted known base) rows
        (fun budget held _ => hrow budget held base) 25) fun _ => readsSourced_pure _

theorem readsSourced_buildIncludes (r : Res) (rows : List Held) (qs : Qs) :
    ReadsSourced posted known (buildIncludes env site u fuel r rows qs) := by
  have hrelated (r : Res) (rel : Rel) (rows : List Held) :
      ReadsSourced posted known (readRelated r rel rows) :=
    (readsSourced_present _).bind fun _ => readsSourced_database.bind fun _ =>
      readsSourced_readPy _
  exact fun base => buildIncludes_keeps (fun _ _ h => h)
    (fun r rel rows => readsSourced_ensureWalked r rel rows base)
    (fun r rel rows => hrelated r rel rows base) r rows qs

theorem readsSourced_list (r : Res) (path : String) (qs : Qs) (keeps : Held → Bool)
    (parent : Option Json) :
    ReadsSourced posted known (list env site u fuel r path qs keeps parent) := by
  have hpage : ReadsSourced posted known (listPage site u r qs keeps) := by
    refine (readsSourced_ofFault _).bind fun clauses => (readsSourced_ofFault _).bind fun keys =>
      (readsSourced_ofFault _).bind fun perPage => (readsSourced_ofFault _).bind fun offset =>
        readsSourced_database.bind fun db => (readsSourced_present _).bind fun _ => ?_
    refine ReadsSourced.ite ((readsSourced_throw _).bind fun _ => ?_) ?_ <;>
      refine (readsSourced_readSql _).bind fun matching => ?_
    all_goals
      cases fitsInt64 ((max 0 offset).toNat : ℤ) with
      | true => exact readsSourced_pure _
      | false => exact (readsSourced_throw _).bind fun _ => readsSourced_pure _
  exact hpage.bind fun page => (readsSourced_buildIncludes r page.rows qs).bind fun g =>
    (readsSourced_readPy _).bind fun data => readsSourced_get.bind fun _ => readsSourced_pure _

/-- An object decoded from an answer is the document of the answer. -/
theorem document_of_decoded {resp : Answer} {out : Json} {found : Option Json} {key : String}
    (hout : (match resp.body with
      | .empty => .ok (.obj [])
      | .invalid => .error .jsonDecodeError
      | .json j => .ok j : Except PyError Json) = .ok out)
    (hobject : pyGet out key = .ok found) : resp.document = .ok out := by
  unfold Response.document
  cases hbody : resp.body with
  | empty =>
      rw [hbody] at hout
      exact hout
  | invalid =>
      rw [hbody] at hout
      cases hout
  | json j =>
      rw [hbody] at hout
      cases hout
      cases out with
      | obj members =>
          cases members with
          | nil => rfl
          | cons e members => rfl
      | _ => cases hobject

theorem readsSourced_passthrough (hposted : ∀ doc, transport.Answers doc → posted doc)
    (scopes : List String) (path : String) (qs : Qs) (body : Body) :
    ReadsSourced posted known (passthrough env transport site scopes path qs body) := by
  have hscope : ReadsSourced posted known (requireScope scopes "passthrough") :=
    .ite (readsSourced_pure _) (readsSourced_throw _)
  refine hscope.bind fun _ => (readsSourced_readPy _).bind fun _ base =>
    Spec.bind (spec_onExchange_ends (Q := fun resp w => w.AtHand posted known base ∧
      ∃ n, transport n = .ok resp) (spec_request_answered .get _)) fun resp x hx => ?_
  have hresp : ∀ doc, resp.Carries doc → posted doc := fun doc hdoc =>
    hx.2.elim fun n hn => hposted doc ⟨n, resp, hn, hdoc⟩
  refine readsSourced_readPy_bind (fun out hout => ?_) base x hx.1
  have hstored (synthesized : List String) :
      Sources posted known (routePage env resp.status out .passthrough synthesized) := by
    refine .ofPosted (sources_routePage (fun items h doc hdoc => .inr (hresp doc ?_))
      (fun items h doc hdoc => .inr (hresp doc ?_)) env _ _ _ _)
    · obtain ⟨data, hdata, -⟩ := except_bind_eq_ok.mp h
      exact ⟨out, document_of_decoded hout hdata, bears_of_pageData h hdoc⟩
    · obtain ⟨included, hincluded, -⟩ := except_bind_eq_ok.mp h
      exact ⟨out, document_of_decoded hout hincluded, bears_of_pageIncluded h hdoc⟩
  refine .ite ((hstored _).onMirror.onExchange.bind fun _ => ?_) ?_ <;>
    exact (readsSourced_readPy _).bind fun _ => readsSourced_pure _

theorem readsSourced_single (hposted : ∀ doc, transport.Answers doc → posted doc)
    (scopes : List String) (r : Res) (id path : String) (qs : Qs) :
    ReadsSourced posted known (single env transport site u fuel scopes r id path qs) := by
  refine readsSourced_database.bind fun db => ?_
  cases db.row? r id with
  | none =>
      exact .ite (readsSourced_passthrough hposted scopes path qs .empty) (readsSourced_throw _)
  | some row =>
      refine .ite (readsSourced_pure _) ?_
      exact (readsSourced_buildIncludes r _ qs).bind fun g => (readsSourced_readPy _).bind
        fun data => readsSourced_get.bind fun _ => readsSourced_pure _

theorem readsSourced_nested (hposted : ∀ doc, transport.Answers doc → posted doc)
    (scopes : List String) (r : Res) (id name path : String) (qs : Qs) :
    ReadsSourced posted known (nested env transport site u fuel scopes r id name path qs) := by
  unfold nested
  split
  · exact readsSourced_passthrough hposted scopes path qs .empty
  · rename_i rel _
    refine readsSourced_database.bind fun db => ?_
    cases db.live? r id with
    | none => exact readsSourced_throw _
    | some held =>
        refine .ite (readsSourced_database.bind fun db => ?_) ?_
        · split
          · exact readsSourced_throw _
          · exact readsSourced_single hposted scopes rel.target _ path qs
        · exact (readsSourced_ensureWalked r rel _).bind fun _ => (readsSourced_present _).bind
            fun _ => (readsSourced_readPy _).bind fun keeps =>
              readsSourced_list rel.target path qs keeps _

theorem readsSourced_nestedSingle (hposted : ∀ doc, transport.Answers doc → posted doc)
    (scopes : List String) (r : Res) (id name childId : String) (tail : Option String)
    (path : String) (qs : Qs) : ReadsSourced posted known
      (nestedSingle env transport site u fuel scopes r id name childId tail path qs) := by
  unfold nestedSingle
  split
  · exact readsSourced_passthrough hposted scopes path qs .empty
  · rename_i rel _
    refine .ite (readsSourced_passthrough hposted scopes path qs .empty)
      (readsSourced_database.bind fun db => ?_)
    cases db.live? r id with
    | none => exact readsSourced_throw _
    | some held =>
        refine (readsSourced_ensureWalked r rel _).bind fun _ => (readsSourced_present _).bind
          fun _ => (readsSourced_readPy _).bind fun keeps => readsSourced_database.bind
            fun db => ?_
        split
        · exact readsSourced_throw _
        · cases tail with
          | none => exact readsSourced_single hposted scopes rel.target childId path qs
          | some tail => exact readsSourced_nested hposted scopes rel.target childId tail path qs

theorem readsSourced_routeRead (hposted : ∀ doc, transport.Answers doc → posted doc)
    (scopes : Except String (List String)) (path : String) (qs : Qs) (body : Body) :
    ReadsSourced posted known (routeRead env transport site u fuel scopes path qs body) := by
  unfold routeRead
  split
  · exact readsSourced_throw _
  · rename_i scopes
    split
    · exact readsSourced_passthrough hposted scopes path qs body
    · exact readsSourced_throw _
    · split
      · exact readsSourced_passthrough hposted scopes path qs body
      · refine .ite (readsSourced_throw _) ?_
        split
        · exact readsSourced_throw _
        · exact readsSourced_list _ path qs _ _
        · exact readsSourced_throw _
        · exact readsSourced_single hposted scopes _ _ path qs
        · exact readsSourced_nested hposted scopes _ _ _ path qs
        · exact readsSourced_nestedSingle hposted scopes _ _ _ _ _ path qs
        · exact readsSourced_nestedSingle hposted scopes _ _ _ _ _ path qs
        · exact readsSourced_throw _

theorem readsSourced_serveRead (hposted : ∀ doc, transport.Answers doc → posted doc)
    (scopes : Except String (List String)) (path : String) (qs : Qs) (body : Body) :
    ReadsSourced posted known (serveRead env transport site u fuel scopes path qs body) := by
  refine fun base => Keeps.tryCatch (readsSourced_routeRead hposted scopes path qs body base)
    fun fault => ?_
  cases fault with
  | stopped => exact Keeps.throw _
  | http status detail info => exact Keeps.pure _
  | raised e => exact Keeps.pure _
  | sqlite e =>
      cases e
      exact Keeps.pure _

end PcoMirror
