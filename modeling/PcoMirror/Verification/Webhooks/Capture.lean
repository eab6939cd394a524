import PcoMirror.Lib.Run
import PcoMirror.Model.Receiver
import PcoMirror.Verification.Writer.Operations

/-! What a delivery leaves in the inbox, however often it is posted again. -/

namespace PcoMirror

open Program

variable {edge : Edge} {item : Json} {fallback : String} {w : World}

/-! ## Reading an item -/

/-- Capture can read the item. -/
def Edge.reads (edge : Edge) (item : Json) : Bool :=
  (edge.readEvent "" item).isOk

/-- Capture can store what the envelope says of itself. -/
def envelopeReads (body : Json) : Bool :=
  ["id", "attempt"].all fun key =>
    ((body.member? key).filter Json.truthy).all fun v => (bindText v).isOk

theorem isOk_iff_succeeds {ε α : Type} {e : Except ε α} : e.isOk = true ↔ Succeeds e := by
  cases e <;> simp [Except.isOk, Except.toBool]

/-- The name a subscription lends an unnamed event does not decide whether it can be read. -/
theorem succeeds_readEvent (h : Succeeds (edge.readEvent fallback item)) (fallback' : String) :
    Succeeds (edge.readEvent fallback' item) := by
  simp only [Edge.readEvent, succeeds_bind] at h ⊢
  obtain ⟨attributes, hattributes, name, hname, text, htext, hrest⟩ := h
  refine ⟨attributes, hattributes, name, hname, ?_⟩
  cases name with
  | none => exact ⟨fallback', rfl, by simpa using hrest⟩
  | some v => exact ⟨text, htext, hrest⟩

theorem reads_iff (fallback : String) :
    edge.reads item = true ↔ Succeeds (edge.readEvent fallback item) := by
  rw [Edge.reads, isOk_iff_succeeds]
  exact ⟨fun h => succeeds_readEvent h _, fun h => succeeds_readEvent h _⟩

theorem bindText_eq_ok {v : Json} {bound : Option String} (h : bindText v = .ok bound) :
    bound = v.text? ∧ (∀ items, v ≠ .arr items) ∧ ∀ members, v ≠ .obj members := by
  cases v with
  | int n =>
      rw [bindText] at h
      split_ifs at h
      cases h
      exact ⟨rfl, nofun, nofun⟩
  | arr items => cases h
  | obj members => cases h
  | _ =>
      cases h
      exact ⟨rfl, nofun, nofun⟩

/-- An item that was read is captured under the id it carries. -/
theorem readEvent_id {id? : Option String} {ev : WebhookEvent}
    (h : edge.readEvent fallback item = .ok (id?, ev)) (id : String) :
    id? = some id ↔ idOf item = .ok id := by
  simp only [Edge.readEvent, except_bind_eq_ok] at h
  obtain ⟨attributes, -, name, -, text, -, payload, -, v, hv, body, -, pcoId, -, bound, hbound,
    _, -, h⟩ := h
  cases h
  obtain ⟨rfl, harr, hobj⟩ := bindText_eq_ok hbound
  have hmember : item.member? "id" = some v := by
    cases item with
    | obj members =>
        rw [pyItem] at hv
        rw [Json.member?]
        cases hlookup : members.lookup "id" with
        | none => simp [hlookup] at hv
        | some v' => simpa [hlookup] using hv
    | _ => cases hv
  rw [idOf, hmember]
  cases v with
  | null => simp [Json.text?]
  | arr items => exact absurd rfl (harr items)
  | obj members => exact absurd rfl (hobj members)
  | _ => simp [Json.text?]

/-! ## Capturing items -/

theorem received_isSome (w : World) (id : Option String) (ev : WebhookEvent) (k : String) :
    ((w.received id ev).inbox.lookup k).isSome = true ↔
      (w.inbox.lookup k).isSome = true ∨ id = some k := by
  cases id with
  | none => simp [World.received]
  | some id =>
      rw [World.received]
      split_ifs with hheld
      · refine ⟨.inl, ?_⟩
        rintro (h | h)
        · exact h
        · exact Option.some.inj h ▸ hheld
      · by_cases hk : k = id
        · subst hk
          simp
        · simp [hk, Ne.symm hk]

theorem received_subscriptions (w : World) (id : Option String) (ev : WebhookEvent) :
    (w.received id ev).subscriptions = w.subscriptions := by
  cases id with
  | none => rfl
  | some id =>
      rw [World.received]
      split_ifs <;> rfl

theorem run_captureOne (edge : Edge) (env : Env) (fallback : String) (item : Json) (w : World) :
    (captureOne edge env fallback item).run w = match edge.readEvent fallback item with
      | .error e => .error (.raised e) w
      | .ok (id, ev) => .ok () ({ w with tick := w.tick + 1 }.received id
          { ev with receivedAt := env.now w.tick }) := by
  rw [captureOne]
  cases edge.readEvent fallback item with
  | error e => rfl
  | ok read => rfl

/-- The items before the first that cannot be read are captured, and no other. -/
theorem after_captureAll (edge : Edge) (env : Env) (fallback : String) (items : List Json)
    (w : World) (k : String) :
    ((w.after (forEach (captureOne edge env fallback) items)).inbox.lookup k).isSome = true ↔
      (w.inbox.lookup k).isSome = true ∨
        ∃ item ∈ items.takeWhile edge.reads, idOf item = .ok k := by
  induction items generalizing w with
  | nil => simp [World.after, forEach, EStateM.run, pure, EStateM.pure]
  | cons item items ih =>
      rw [World.after, forEach, EStateM.run_bind, run_captureOne]
      cases hread : edge.readEvent fallback item with
      | error e =>
          have hreads : ¬ edge.reads item = true := by
            rw [reads_iff fallback, hread]
            simp
          simp [hreads]
      | ok read =>
          have hreads : edge.reads item = true := by
            rw [reads_iff fallback, hread]
            simp
          obtain ⟨id?, ev⟩ := read
          have hid := readEvent_id hread k
          rw [List.takeWhile_cons_of_pos hreads]
          have hafter := ih ({ w with tick := w.tick + 1 }.received id?
            { ev with receivedAt := env.now w.tick })
          rw [received_isSome, or_assoc] at hafter
          simp only [List.mem_cons, exists_eq_or_imp, ← hid]
          exact hafter

/-! ## Deliveries -/

/-- An active subscription of the token has a secret that verifies what was posted. -/
def Post.Verified (edge : Edge) (post : Post) (w : World) : Prop :=
  ∃ sub ∈ w.subscriptions, sub.urlToken = post.urlToken ∧ sub.active = true ∧
    sub.unverified = false ∧ edge.verify sub.secret post.raw post.signature = true

theorem Post.Verified.matched {post : Post} (h : post.Verified edge w) :
    ∃ sub, ((w.subscriptionsOf post.urlToken).find? fun s =>
      !s.unverified && edge.verify s.secret post.raw post.signature) = some sub := by
  obtain ⟨sub, hmem, htoken, hactive, hsigned, hverify⟩ := h
  rw [← Option.isSome_iff_exists, List.find?_isSome]
  refine ⟨sub, ?_, by simp [hsigned, hverify]⟩
  rw [World.subscriptionsOf, List.mem_mergeSort, List.mem_filter]
  exact ⟨hmem, by simp [htoken, hactive]⟩

theorem run_fileAs {body : Json} {members : List (String × Json)} (hbody : body = .obj members)
    (env : Env) (post : Post) (w : World) :
    ∃ key w', (fileAs env post body).run w = .ok key w' ∧ w'.inbox = w.inbox ∧
      key.isOk = ((body.member? "id").filter Json.truthy).all fun v => (bindText v).isOk := by
  subst hbody
  have hget : pyGet (.obj members) "id" = .ok ((Json.obj members).member? "id") := rfl
  rw [fileAs, hget, ofPy_ok_bind]
  cases ((Json.obj members).member? "id").filter Json.truthy with
  | some v => exact ⟨bindText v, w, rfl, rfl, rfl⟩
  | none =>
      cases headerText post.deliveryId with
      | some id => exact ⟨.ok (some id), w, rfl, rfl, rfl⟩
      | none => exact ⟨_, { w with tick := w.tick + 1 }, rfl, rfl, rfl⟩

theorem isOk_attemptOf {body : Json} {members : List (String × Json)} (hbody : body = .obj members)
    (post : Post) :
    (attemptOf post body).isOk =
      ((body.member? "attempt").filter Json.truthy).all fun v => (bindText v).isOk := by
  subst hbody
  have hget : pyGet (.obj members) "attempt" = .ok ((Json.obj members).member? "attempt") := rfl
  simp only [attemptOf, hget, bind, Except.bind]
  cases ((Json.obj members).member? "attempt").filter Json.truthy <;> rfl

/-- A handler that only answers leaves what the program left. -/
theorem after_catching_pure {α : Type} (m : Proc α) (a : α) (w : World) :
    w.after (catching m fun _ => pure a) = w.after m := by
  rw [World.after, World.after, catching]
  cases hrun : m.run w with
  | ok b w' => rw [run_tryCatch_of_ok hrun]
  | error e w' =>
      rw [run_tryCatch_of_error hrun]
      cases e <;> rfl

/-- A loop of captures, and what follows it that leaves the inbox alone. -/
theorem inbox_capture (env : Env) (post : Post) (sub : Subscription) {body : Json}
    {items : List Json} (hdata : body.member? "data" = some (.arr items))
    (key : Except PyError (Option String)) (w : World) (k : String) :
    ((w.after (capture edge env post sub body key)).inbox.lookup k).isSome = true ↔
      (w.inbox.lookup k).isSome = true ∨ ((attemptOf post body).isOk && key.isOk) = true ∧
        ∃ item ∈ items.takeWhile edge.reads, idOf item = .ok k := by
  obtain ⟨members, rfl⟩ : ∃ members, body = .obj members := by
    cases body <;> first | exact ⟨_, rfl⟩ | cases hdata
  have hitems : dataOf (.obj members) = .ok (.arr items) := by
    change Except.ok ((members.lookup "data").getD _) = _
    rw [show members.lookup "data" = some (.arr items) from hdata]
    rfl
  unfold capture
  cases attemptOf post (.obj members) with
  | error e =>
      change (w.inbox.lookup k).isSome = true ↔ _
      simp [Except.isOk, Except.toBool]
  | ok attempt =>
      cases key with
      | error e =>
          change (w.inbox.lookup k).isSome = true ↔ _
          simp [Except.isOk, Except.toBool]
      | ok id? =>
          simp only [ofPy_ok_bind, hitems]
          obtain ⟨w₁, hfiled, hinbox⟩ : ∃ w₁, (whenSome id? fun id => modify fun w =>
              if (w.deliveries.lookup id).isSome then w
              else { w with
                deliveries := w.deliveries.insert id {
                  subscriptionId := sub.id
                  signature := post.signature.getD ""
                  rawBody := post.raw
                  attempt := attempt } } : Proc Unit).run w = .ok () w₁ ∧ w₁.inbox = w.inbox := by
            cases id? with
            | none => exact ⟨w, rfl, rfl⟩
            | some id =>
                refine ⟨_, rfl, ?_⟩
                beta_reduce
                split_ifs <;> rfl
          rw [after_bind_of_ok hfiled]
          simp only [pyItems, ofPy_ok_bind]
          rw [after_bind_view World.inbox fun _ _ => rfl, after_captureAll, hinbox]
          simp [Except.isOk, Except.toBool]

/-- What a verified delivery leaves in the inbox. -/
theorem inbox_receive {post : Post} (h : post.Verified edge w) (env : Env) {body : Json}
    {items : List Json} (hbody : edge.loads post.raw = .ok body)
    (hdata : body.member? "data" = some (.arr items)) (k : String) :
    ((w.after (receive edge env post)).inbox.lookup k).isSome = true ↔
      (w.inbox.lookup k).isSome = true ∨
        envelopeReads body = true ∧ ∃ item ∈ items.takeWhile edge.reads, idOf item = .ok k := by
  obtain ⟨members, hobj⟩ : ∃ members, body = .obj members := by
    cases body <;> first | exact ⟨_, rfl⟩ | cases hdata
  obtain ⟨sub, hsub⟩ := h.matched
  obtain ⟨key, w₁, hkey, hinbox, hkeyOk⟩ := run_fileAs hobj env post w
  have hsubs : (w.subscriptionsOf post.urlToken).isEmpty = false := by
    cases hlist : w.subscriptionsOf post.urlToken with
    | nil => simp [hlist] at hsub
    | cons s subs => rfl
  have hrun : (receive edge env post).run w = (catching (do
      capture edge env post sub body key
      return (204, "ok")) fun _ => return (503, "capture failed")).run w₁ := by
    have hget : (get : Proc World).run w = .ok w w := rfl
    rw [receive, run_bind_of_ok hget]
    simp only [hsubs, hsub, Bool.false_eq_true, if_false, Option.some_or, hbody]
    have hattributed : (ofPy (attributed (some sub) sub
        ((w.subscriptionsOf post.urlToken).filter Subscription.unverified) body)).run w =
        .ok sub w := rfl
    rw [run_bind_of_ok hattributed, run_bind_of_ok hkey]
  rw [World.after, hrun]
  change ((w₁.after (catching _ _)).inbox.lookup k).isSome = true ↔ _
  rw [after_catching_pure, after_bind_view World.inbox fun _ _ => rfl, inbox_capture env post sub hdata,
    hinbox, hkeyOk, isOk_attemptOf hobj, envelopeReads]
  simp [and_comm]

/-! ## Redeliveries -/

/-- Nothing a delivery does touches a subscription's secret. -/
theorem Post.Verified.modify {post : Post} {f : World → World}
    (h : ∀ w, (f w).subscriptions = w.subscriptions) :
    Keeps (post.Verified edge) (modify f : Proc PUnit) :=
  Keeps.modify fun w ⟨sub, hmem, hsub⟩ => ⟨sub, (h w).symm ▸ hmem, hsub⟩

theorem Post.Verified.nowIso {post : Post} (env : Env) :
    Keeps (post.Verified edge) (nowIso env) :=
  fun _ h => h

theorem Post.Verified.capture {post : Post} (env : Env) (post' : Post) (sub : Subscription)
    (body : Json) (key : Except PyError (Option String)) :
    Keeps (post.Verified edge) (capture edge env post' sub body key) := by
  refine Keeps.bind (keeps_ofPy _) fun attempt => Keeps.bind (keeps_ofPy _) fun id? => ?_
  refine Keeps.bind (Keeps.whenSome _ fun id _ => Post.Verified.modify fun w => ?_) fun _ => ?_
  · split_ifs <;> rfl
  refine Keeps.bind (keeps_ofPy _) fun data => Keeps.bind (keeps_ofPy _) fun items => ?_
  refine Keeps.bind (Keeps.forEach items fun item _ => ?_) fun _ => ?_
  · exact Keeps.bind (keeps_ofPy _) fun read => Keeps.bind (Post.Verified.nowIso env) fun now =>
      Post.Verified.modify fun w => received_subscriptions w _ _
  refine Keeps.bind (Post.Verified.nowIso env) fun now => Keeps.modify ?_
  rintro w ⟨s, hmem, htoken, hactive, hsigned, hverify⟩
  refine ⟨if s.id = sub.id then { s with lastEventAt := some now } else s,
    List.mem_map_of_mem hmem, ?_⟩
  split_ifs
  · exact ⟨htoken, hactive, hsigned, hverify⟩
  · exact ⟨htoken, hactive, hsigned, hverify⟩

theorem Post.Verified.receive {post : Post} (env : Env) (post' : Post) :
    Keeps (post.Verified edge) (receive edge env post') := by
  unfold PcoMirror.receive
  refine Keeps.bind Keeps.get fun w => Spec.ite (fun _ => Keeps.pure _) fun _ => ?_
  dsimp only
  split
  · exact Keeps.pure _
  · split
    · exact Keeps.pure _
    · exact Keeps.throw _
    · refine Keeps.bind (keeps_ofPy _) fun sub => Keeps.bind ?_ fun key => ?_
      · refine Keeps.bind (keeps_ofPy _) fun id => ?_
        split
        · exact Keeps.pure _
        · split
          · exact Keeps.pure _
          · exact Keeps.bind (Post.Verified.nowIso env) fun _ => Keeps.pure _
      · refine Keeps.tryCatch (Keeps.bind (Post.Verified.capture env post' _ _ key) fun _ =>
          Keeps.pure _) fun halt => ?_
        cases halt with
        | raised e => exact Keeps.pure _
        | stopped => exact Keeps.throw _

/-! ## The inbox after redeliveries -/

/-- A delivery, and one redelivery after another. -/
def receiveAll (edge : Edge) (w : World) (calls : List (Env × Post)) : World :=
  Run.exec (fun w call => w.after (receive edge call.1 call.2)) w calls

theorem inbox_receiveAll {raw : String} {body : Json} {items : List Json}
    (hbody : edge.loads raw = .ok body) (hdata : body.member? "data" = some (.arr items))
    {calls : List (Env × Post)} (hne : calls ≠ [])
    (hcalls : ∀ call ∈ calls, call.2.raw = raw ∧ call.2.Verified edge w) (k : String) :
    ((receiveAll edge w calls).inbox.lookup k).isSome = true ↔
      (w.inbox.lookup k).isSome = true ∨
        envelopeReads body = true ∧ ∃ item ∈ items.takeWhile edge.reads, idOf item = .ok k := by
  induction calls generalizing w with
  | nil => exact absurd rfl hne
  | cons call calls ih =>
      obtain ⟨hraw, hverified⟩ := hcalls call (by simp)
      have hone := inbox_receive hverified call.1 (hraw ▸ hbody) hdata k
      cases calls with
      | nil => exact hone
      | cons call' calls =>
          have hrest := ih (w := w.after (receive edge call.1 call.2)) (by simp) fun call'' hmem => by
            obtain ⟨hraw', hverified'⟩ := hcalls call'' (by simp [hmem])
            exact ⟨hraw', keeps_after (Post.Verified.receive call.1 call.2) hverified'⟩
          refine hrest.trans ?_
          rw [hone, or_assoc, or_self]

/-- However often a delivery is posted, each item that carries an id is in the inbox once
exactly where it was there before, or comes before the first item that cannot be read. -/
theorem capture_complete_iff (edge : Edge) (w : World) (raw : String) (body : Json)
    (items : List Json) (calls : List (Env × Post)) (hbody : edge.loads raw = .ok body)
    (hdata : body.member? "data" = some (.arr items)) (hne : calls ≠ [])
    (hcalls : ∀ call ∈ calls, call.2.raw = raw ∧ call.2.Verified edge w) :
    (∀ item ∈ items, ∀ id, idOf item = .ok id →
      (receiveAll edge w calls).inbox.keys.count id = 1) ↔
    ∀ item ∈ items, ∀ id, idOf item = .ok id → (w.inbox.lookup id).isSome = true ∨
      envelopeReads body = true ∧ ∃ item' ∈ items.takeWhile edge.reads, idOf item' = .ok id := by
  have hcount : ∀ id, (receiveAll edge w calls).inbox.keys.count id = 1 ↔
      ((receiveAll edge w calls).inbox.lookup id).isSome = true := by
    intro id
    rw [AList.lookup_isSome, AList.mem_keys]
    exact ⟨fun h => List.count_pos_iff.mp (by omega), List.count_eq_one_of_mem (AList.keys_nodup _)⟩
  simp only [hcount, inbox_receiveAll hbody hdata hne hcalls]

/-! ## A delivery that loses an event -/

/-- An event whose payload is missing. -/
def blankItem : Json :=
  .obj [("id", .str "e1"), ("attributes", .obj [("name", .str "people.v2.events.person.updated")])]

def wholeItem : Json :=
  .obj [("id", .str "e2"), ("attributes", .obj [("name", .str "people.v2.events.person.updated"),
    ("payload", .str "\x7b\"id\": \"7\"\x7d")])]

def exampleRaw : String :=
  "\x7b\"data\": [\x7b\"id\": \"e1\", \"attributes\": \x7b\"name\": " ++
    "\"people.v2.events.person.updated\"\x7d\x7d, \x7b\"id\": \"e2\", \"attributes\": " ++
    "\x7b\"name\": \"people.v2.events.person.updated\", \"payload\": " ++
    "\"\x7b\\\"id\\\": \\\"7\\\"\x7d\"\x7d\x7d]\x7d"

def exampleBody : Json :=
  .obj [("data", .arr [blankItem, wholeItem])]

def exampleSignature : String :=
  "293ff26fd992be0b891145e0aa905870a0d08c27c65ab7c98651e01a7eb5664a"

def exampleEdge : Edge where
  verify secret raw signature :=
    secret = "whsec_a" && raw = exampleRaw && signature = some exampleSignature
  loads text :=
    if text = exampleRaw then .ok exampleBody
    else if text = "\x7b\"id\": \"7\"\x7d" then .ok (.obj [("id", .str "7")])
    else .error .jsonDecodeError

def examplePost : Post where
  urlToken := "person-events-01"
  raw := exampleRaw
  signature := some exampleSignature
  deliveryId := none
  attempt := some "1"

def subscribedWorld : World where
  subscriptions := [{
    id := "sub1"
    eventName := "people.v2.events.person.updated"
    urlToken := "person-events-01"
    secret := "whsec_a" }]

def exampleClock : Env where
  respond _ _ := .error .transportError
  now _ := "2026-07-01T00:00:00Z"
  apiVersion := "2025-11-10"

theorem exampleCall_verified (env : Env) :
    (env, examplePost).2.raw = exampleRaw ∧
      (env, examplePost).2.Verified exampleEdge subscribedWorld := by
  refine ⟨rfl, _, List.mem_singleton_self _, rfl, rfl, by decide, ?_⟩
  simp [exampleEdge, examplePost]

theorem capture_complete_iff_redelivered :
    (∀ item ∈ [blankItem, wholeItem], ∀ id, idOf item = .ok id →
      (receiveAll exampleEdge subscribedWorld
        [(exampleClock, examplePost), (exampleClock, examplePost)]).inbox.keys.count id = 1) ↔
    ∀ item ∈ [blankItem, wholeItem], ∀ id, idOf item = .ok id →
      (subscribedWorld.inbox.lookup id).isSome = true ∨ envelopeReads exampleBody = true ∧
        ∃ item' ∈ [blankItem, wholeItem].takeWhile exampleEdge.reads, idOf item' = .ok id :=
  capture_complete_iff exampleEdge subscribedWorld exampleRaw exampleBody [blankItem, wholeItem]
    [(exampleClock, examplePost), (exampleClock, examplePost)] (by simp [exampleEdge]) rfl (by simp)
    fun call hcall => by
      obtain rfl : call = (exampleClock, examplePost) := by simpa using hcall
      exact exampleCall_verified exampleClock

/-- The second item is whole, and no number of redeliveries brings it into the inbox. -/
theorem capture_not_complete :
    idOf wholeItem = .ok "e2" ∧ exampleEdge.reads wholeItem = true ∧
      examplePost.Verified exampleEdge subscribedWorld ∧
      ∀ n, (receiveAll exampleEdge subscribedWorld
        (List.replicate (n + 1) (exampleClock, examplePost))).inbox.keys.count "e2" = 0 := by
  refine ⟨rfl, by decide +kernel, (exampleCall_verified exampleClock).2, fun n => ?_⟩
  let calls := List.replicate (n + 1) (exampleClock, examplePost)
  have hbody : exampleEdge.loads exampleRaw = .ok exampleBody := by simp [exampleEdge]
  have hcalls : ∀ call ∈ calls, call.2.raw = exampleRaw ∧
      call.2.Verified exampleEdge subscribedWorld := by
    intro call hcall
    obtain rfl := List.eq_of_mem_replicate hcall
    exact exampleCall_verified exampleClock
  have hnone : [blankItem, wholeItem].takeWhile exampleEdge.reads = [] := by decide +kernel
  have hinbox := inbox_receiveAll hbody rfl (by simp [calls]) hcalls "e2"
  rw [hnone] at hinbox
  rw [List.count_eq_zero, ← AList.mem_keys, ← AList.lookup_isSome, hinbox]
  simp [subscribedWorld]

end PcoMirror
