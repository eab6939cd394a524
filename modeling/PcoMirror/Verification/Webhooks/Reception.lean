import PcoMirror.Verification.Webhooks.Capture

/-! Which deliveries are accepted, whom they are attributed to, and what a refused one leaves. -/

namespace PcoMirror

open Program

variable {edge : Edge} {env : Env} {post : Post} {sub : Subscription} {body : Json} {w : World}
  {I : World → Prop}

/-! ## What capture writes -/

/-- An item that capture comes to, and can read. -/
def Captures (edge : Edge) (body item : Json) : Prop :=
  envelopeReads body = true ∧ ∃ items, body.member? "data" = some (.arr items) ∧
    item ∈ items.takeWhile edge.reads

/-- What a delivery from this subscription writes, statement by statement, keeps a property. -/
structure Stores (I : World → Prop) (edge : Edge) (post : Post) (sub : Subscription)
    (body : Json) : Prop where
  tick : ∀ w n, I w → I { w with tick := n }
  filed : ∀ w id attempt, I w → I { w with deliveries := w.deliveries.insert id {
    subscriptionId := sub.id
    signature := post.signature.getD ""
    rawBody := post.raw
    attempt := attempt } }
  received : ∀ w fallback item id ev now, Captures edge body item →
    edge.readEvent fallback item = .ok (id, ev) → I w →
    I (w.received id { ev with receivedAt := now })
  touched : ∀ w now, I w → I { w with subscriptions := w.subscriptions.map fun s =>
    if s.id = sub.id then { s with lastEventAt := some now } else s }

theorem Stores.nowIso (h : Stores I edge post sub body) (env : Env) : Keeps I (nowIso env) :=
  fun w hw => h.tick w _ hw

theorem Stores.captureOne (h : Stores I edge post sub body) (env : Env) (fallback : String)
    {item : Json} (hitem : edge.reads item = true → Captures edge body item) :
    Keeps I (captureOne edge env fallback item) := by
  intro w hw
  rw [run_captureOne]
  cases hread : edge.readEvent fallback item with
  | error e => exact hw
  | ok read =>
      have hreads : edge.reads item = true := (reads_iff fallback).mpr ⟨read, hread⟩
      exact h.received _ _ _ _ _ _ (hitem hreads) hread (h.tick _ _ hw)

/-- A loop of captures ends at the first item that cannot be read. -/
theorem Stores.captureAll (h : Stores I edge post sub body) (env : Env) (fallback : String)
    {items : List Json} (hitems : ∀ item ∈ items.takeWhile edge.reads, Captures edge body item) :
    Keeps I (forEach (PcoMirror.captureOne edge env fallback) items) := by
  induction items with
  | nil => exact Keeps.pure _
  | cons item items ih =>
      cases hreads : edge.reads item with
      | true =>
          rw [List.takeWhile_cons_of_pos hreads, List.forall_mem_cons] at hitems
          exact Keeps.bind (h.captureOne env fallback fun _ => hitems.1) fun _ => ih hitems.2
      | false =>
          intro w hw
          have hread : ¬ Succeeds (edge.readEvent fallback item) := by
            rw [← reads_iff, hreads]
            exact Bool.false_ne_true
          rw [forEach, EStateM.run_bind, run_captureOne]
          cases hevent : edge.readEvent fallback item with
          | error e => exact hw
          | ok read => exact absurd ⟨read, hevent⟩ hread

/-- What Python iterates over in the data of a body: an array's items, or nothing that capture can
read. -/
theorem captures_of_items {data : Json} {items : List Json} (henvelope : envelopeReads body = true)
    (hdata : dataOf body = .ok data) (hitems : pyItems data = .ok items) :
    ∀ item ∈ items.takeWhile edge.reads, Captures edge body item := by
  have htext : (∀ item ∈ items, ∃ text, item = .str text) →
      ∀ item ∈ items.takeWhile edge.reads, Captures edge body item := by
    intro htexts item hmem
    obtain ⟨text, rfl⟩ := htexts item ((List.takeWhile_sublist _).subset hmem)
    cases List.mem_takeWhile_imp hmem
  obtain ⟨value, hvalue, hdata⟩ := except_bind_eq_ok.mp hdata
  cases hdata
  have hmember := pyGet_eq_ok hvalue
  cases value with
  | none =>
      cases hitems
      exact nofun
  | some value => cases value with
    | arr held =>
        cases hitems
        exact fun item hitem => ⟨henvelope, items, hmember, hitem⟩
    | obj members =>
        cases hitems
        refine htext fun item hitem => ?_
        obtain ⟨e, -, rfl⟩ := List.mem_map.mp hitem
        exact ⟨_, rfl⟩
    | str text =>
        cases hitems
        refine htext fun item hitem => ?_
        obtain ⟨c, -, rfl⟩ := List.mem_map.mp hitem
        exact ⟨_, rfl⟩
    | _ => cases hitems

theorem Stores.capture (h : Stores I edge post sub body) (env : Env)
    (key : Except PyError (Option String))
    (hkey : key.isOk = ((body.member? "id").filter Json.truthy).all fun v => (bindText v).isOk) :
    Keeps I (capture edge env post sub body key) := by
  refine keeps_ofPy_bind fun attempt hattempt => keeps_ofPy_bind fun id? hid => ?_
  refine Keeps.bind (Keeps.whenSome _ fun id _ => Keeps.modify fun w hw => ?_) fun _ => ?_
  · split_ifs
    · exact hw
    · exact h.filed w id attempt hw
  refine keeps_ofPy_bind fun data hdata => keeps_ofPy_bind fun items hitems => ?_
  have henvelope : envelopeReads body = true := by
    obtain ⟨value, hvalue, -⟩ := except_bind_eq_ok.mp hattempt
    obtain ⟨members, hbody⟩ : ∃ members, body = .obj members := by
      cases body <;> first | exact ⟨_, rfl⟩ | cases hvalue
    have hbound := isOk_attemptOf hbody post
    rw [hattempt] at hbound
    rw [hid] at hkey
    simp only [envelopeReads, List.all_cons, List.all_nil, ← hbound, ← hkey]
    rfl
  refine Keeps.bind (h.captureAll env _ (captures_of_items henvelope hdata hitems)) fun _ => ?_
  exact Keeps.bind (h.nowIso env) fun now => Keeps.modify fun w hw => h.touched w now hw

/-- The key a delivery is filed under can be bound where its id can. -/
theorem Stores.fileAs (h : Stores I edge post sub body) (env : Env) :
    Spec I (fileAs env post body) (fun key w => I w ∧
      key.isOk = ((body.member? "id").filter Json.truthy).all fun v => (bindText v).isOk)
      fun _ => I := by
  refine spec_ofPy_bind (fun id hid => ?_) fun _ _ _ hw => hw
  rw [pyGet_eq_ok hid]
  cases id.filter Json.truthy with
  | some v => exact Spec.pure fun w hw => ⟨hw, by simp⟩
  | none =>
      cases headerText post.deliveryId with
      | some id => exact Spec.pure fun w hw => ⟨hw, rfl⟩
      | none => exact Spec.bind (h.nowIso env) fun _ => Spec.pure fun w hw => ⟨hw, rfl⟩

/-! ## Who a delivery is attributed to -/

/-- An active subscription of the token a delivery was posted to. -/
def Post.Candidate (post : Post) (w : World) (sub : Subscription) : Prop :=
  sub ∈ w.subscriptions ∧ sub.urlToken = post.urlToken ∧ sub.active = true

/-- The signature of a delivery is the subscription's, made with a secret that is not blank. -/
def Post.Signed (edge : Edge) (post : Post) (sub : Subscription) : Prop :=
  sub.unverified = false ∧ edge.verify sub.secret post.raw post.signature = true

theorem mem_subscriptionsOf {urlToken : String} :
    sub ∈ w.subscriptionsOf urlToken ↔
      sub ∈ w.subscriptions ∧ sub.urlToken = urlToken ∧ sub.active = true := by
  rw [World.subscriptionsOf, List.mem_mergeSort, List.mem_filter]
  simp

/-- The subscription that receives a delivery: one that signed it, else an unchecked one. -/
def Post.From (edge : Edge) (post : Post) (w : World) (sub : Subscription) : Prop :=
  post.Candidate w sub ∧
    (post.Signed edge sub ∨ sub.unverified = true ∧ ¬ post.Verified edge w)

theorem byEventName_mem {first : Subscription} {subs : List Subscription} {body : Json}
    (h : byEventName first subs body = .ok sub) : sub ∈ subs ∨ sub = first := by
  have hnamed : ∀ name : Option Json, (subs.find? fun s => decide (name = some (.str s.eventName))).getD first =
      sub → sub ∈ subs ∨ sub = first := by
    rintro name rfl
    cases hfind : subs.find? fun s => decide (name = some (.str s.eventName)) with
    | none => exact .inr rfl
    | some found => exact .inl (List.mem_of_find?_eq_some hfind)
  obtain ⟨data, -, h⟩ := except_bind_eq_ok.mp h
  dsimp only at h
  split at h
  · exact hnamed _ (Except.ok.inj h)
  · obtain ⟨attributes, -, h⟩ := except_bind_eq_ok.mp h
    obtain ⟨name, -, h⟩ := except_bind_eq_ok.mp h
    exact hnamed name (Except.ok.inj h)
  all_goals cases h

/-- Nobody signed the delivery, and there is an unchecked subscription, or there is a first that
signed it. -/
theorem from_of_attributed {first : Subscription} {body : Json}
    (hfirst : ((w.subscriptionsOf post.urlToken).find? fun s =>
        !s.unverified && edge.verify s.secret post.raw post.signature).or
      ((w.subscriptionsOf post.urlToken).filter Subscription.unverified).head? = some first)
    (h : attributed ((w.subscriptionsOf post.urlToken).find? fun s =>
        !s.unverified && edge.verify s.secret post.raw post.signature) first
      ((w.subscriptionsOf post.urlToken).filter Subscription.unverified) body = .ok sub) :
    post.From edge w sub := by
  cases hfind : (w.subscriptionsOf post.urlToken).find? fun s =>
      !s.unverified && edge.verify s.secret post.raw post.signature with
  | some matched =>
      rw [hfind] at h
      cases h
      have hmem := mem_subscriptionsOf.mp (List.mem_of_find?_eq_some hfind)
      have hsigned := List.find?_some hfind
      rw [Bool.and_eq_true, Bool.not_eq_true'] at hsigned
      exact ⟨hmem, .inl hsigned⟩
  | none =>
      rw [hfind] at h hfirst
      have hunsigned : ¬ post.Verified edge w := by
        intro hverified
        obtain ⟨matched, hmatched⟩ := hverified.matched
        rw [hfind] at hmatched
        cases hmatched
      have hopen : ∀ s ∈ (w.subscriptionsOf post.urlToken).filter Subscription.unverified,
          post.From edge w s := by
        intro s hs
        obtain ⟨hmem, hopen⟩ := List.mem_filter.mp hs
        exact ⟨mem_subscriptionsOf.mp hmem, .inr ⟨hopen, hunsigned⟩⟩
      rcases byEventName_mem h with hmem | rfl
      · exact hopen sub hmem
      · exact hopen sub (List.mem_of_head? hfirst)

/-! ## A whole delivery -/

/-- There is somebody a delivery can be attributed to. -/
def Post.Admitted (edge : Edge) (post : Post) (w : World) : Prop :=
  ∃ sub, post.Candidate w sub ∧
    (sub.unverified = true ∨ edge.verify sub.secret post.raw post.signature = true)

theorem admitted_of_first {first : Subscription}
    (h : ((w.subscriptionsOf post.urlToken).find? fun s =>
        !s.unverified && edge.verify s.secret post.raw post.signature).or
      ((w.subscriptionsOf post.urlToken).filter Subscription.unverified).head? = some first) :
    post.Admitted edge w := by
  rcases Option.or_eq_some_iff.mp h with hfind | ⟨-, hhead⟩
  · have hsigned := List.find?_some hfind
    rw [Bool.and_eq_true] at hsigned
    exact ⟨first, mem_subscriptionsOf.mp (List.mem_of_find?_eq_some hfind), .inr hsigned.2⟩
  · obtain ⟨hmem, hopen⟩ := List.mem_filter.mp (List.mem_of_head? hhead)
    exact ⟨first, mem_subscriptionsOf.mp hmem, .inl hopen⟩

/-- A delivery is refused, and nothing is written, or it is received from a subscription. -/
theorem spec_receive (env : Env) (hI : ∀ sub body, post.From edge w sub →
      edge.loads post.raw = .ok body → Stores I edge post sub body) (hw : I w) :
    Spec (fun w' => w' = w) (receive edge env post)
      (fun reply w' => w' = w ∧ (reply.1 = 401 ∨ reply.1 = 404) ∨
        post.Admitted edge w ∧ I w' ∧ reply.1 ≠ 401 ∧ reply.1 ≠ 404)
      fun _ w' => post.Admitted edge w ∧ I w' := by
  rintro w' rfl
  have hget : (get : Proc World).run w' = .ok w' w' := rfl
  rw [receive, run_bind_of_ok hget]
  refine (?_ : Spec (fun s => s = w') _ _ _) w' rfl
  refine Spec.ite (fun _ => Spec.pure fun w' hw' => .inl ⟨hw', .inr rfl⟩) fun _ => ?_
  dsimp only
  split
  · exact Spec.pure fun w' hw' => .inl ⟨hw', .inl rfl⟩
  · rename_i first hfirst
    have hadmitted := admitted_of_first hfirst
    split
    · rintro w' rfl
      exact .inr ⟨hadmitted, hw, by decide, by decide⟩
    · rintro w' rfl
      exact ⟨hadmitted, hw⟩
    · rename_i body hbody
      refine spec_ofPy_bind (fun sub hsub => ?_) fun _ _ _ hw' => ⟨hadmitted, hw' ▸ hw⟩
      have hstores := hI sub body (from_of_attributed hfirst hsub) hbody
      refine Spec.bind ((hstores.fileAs env).conseq (fun w' hw' => hw' ▸ hw) (fun _ _ h => h)
        fun _ _ h => ⟨hadmitted, h⟩) fun key => ?_
      rintro w₁ ⟨hw₁, hkey⟩
      refine
        (Spec.tryCatch (P := I) (R := fun _ => I) ?_ fun halt => ?_) w₁ hw₁
      · refine Spec.bind (hstores.capture env key hkey) fun _ => Spec.pure fun w' hw' => ?_
        exact .inr ⟨hadmitted, hw', by decide, by decide⟩
      · cases halt with
        | raised e => exact Spec.pure fun w' hw' => .inr ⟨hadmitted, hw', by decide, by decide⟩
        | stopped => exact Spec.throw fun w' hw' => ⟨hadmitted, hw'⟩

/-! ## The rule -/

/-- What the inbox keeps of deliveries is as it was. -/
def World.SameStored (w w' : World) : Prop :=
  w'.deliveries = w.deliveries ∧ w'.inbox = w.inbox ∧ w'.nameless = w.nameless ∧
    w'.subscriptions = w.subscriptions

/-- Only a delivery that an active subscription signed, or that one of them does not check, is
stored or acknowledged; it is filed under a subscription that signed it where there is one; and a
delivery that is refused leaves nothing. -/
structure Post.Ruled (edge : Edge) (env : Env) (post : Post) (w : World) : Prop where
  accepted : (¬ w.SameStored (w.after (receive edge env post)) ∨
    ∃ detail w', (receive edge env post).run w = .ok (204, detail) w') → post.Admitted edge w
  filed : post.Verified edge w → ∀ id delivery,
    (w.after (receive edge env post)).deliveries.lookup id = some delivery →
    w.deliveries.lookup id = some delivery ∨ ∃ sub, post.Candidate w sub ∧ post.Signed edge sub ∧
      delivery.subscriptionId = sub.id ∧ ((w.subscriptions.map (·.id)).Nodup →
        ∀ other ∈ w.subscriptions, other.id = delivery.subscriptionId → other = sub)
  refused : ∀ status detail w', (receive edge env post).run w = .ok (status, detail) w' →
    status = 401 ∨ status = 404 → w' = w

theorem stores_true (post : Post) (sub : Subscription) (body : Json) :
    Stores (fun _ => True) edge post sub body :=
  ⟨fun _ _ _ => trivial, fun _ _ _ _ => trivial, fun _ _ _ _ _ _ _ _ _ => trivial,
    fun _ _ _ => trivial⟩

theorem after_receive_of_not_admitted (h : ¬ post.Admitted edge w) (env : Env) :
    w.after (receive edge env post) = w ∧
      ∀ reply w', (receive edge env post).run w = .ok reply w' → reply.1 = 401 ∨ reply.1 = 404 := by
  have hspec := spec_receive env
    (fun sub body (_ : post.From edge w sub) _ => stores_true post sub body) trivial w rfl
  unfold World.after
  cases hrun : (receive edge env post).run w with
  | ok reply w' =>
      rw [hrun] at hspec
      rcases hspec with ⟨hsame, hstatus⟩ | ⟨hadmitted, -⟩
      · exact ⟨hsame, fun _ _ h => by cases h; exact hstatus⟩
      · exact absurd hadmitted h
  | error e w' =>
      rw [hrun] at hspec
      exact absurd hspec.1 h

/-- What is filed was there, or is filed under a subscription that signed it. -/
def FiledSigned (edge : Edge) (post : Post) (w w' : World) : Prop :=
  ∀ id delivery, w'.deliveries.lookup id = some delivery →
    w.deliveries.lookup id = some delivery ∨ ∃ sub, post.Candidate w sub ∧ post.Signed edge sub ∧
      delivery.subscriptionId = sub.id

theorem received_deliveries (w : World) (id : Option String) (ev : WebhookEvent) :
    (w.received id ev).deliveries = w.deliveries := by
  cases id with
  | none => rfl
  | some id =>
      rw [World.received]
      split_ifs <;> rfl

theorem stores_filedSigned (hcandidate : post.Candidate w sub) (hsigned : post.Signed edge sub)
    (body : Json) : Stores (FiledSigned edge post w) edge post sub body where
  tick _ _ h := h
  filed w' id attempt h id' delivery hlookup := by
    by_cases hid : id' = id
    · subst hid
      rw [AList.lookup_insert] at hlookup
      cases hlookup
      exact .inr ⟨sub, hcandidate, hsigned, rfl⟩
    · rw [AList.lookup_insert_ne hid] at hlookup
      exact h id' delivery hlookup
  received w' _ _ id ev _ _ _ h id' delivery hlookup :=
    h id' delivery (received_deliveries w' id _ ▸ hlookup)
  touched _ _ h := h

theorem filedSigned_of_verified (h : post.Verified edge w) (env : Env) :
    FiledSigned edge post w (w.after (receive edge env post)) := by
  have hspec := spec_receive env (I := FiledSigned edge post w) (w := w)
    (fun sub body hfrom _ =>
      stores_filedSigned hfrom.1 (hfrom.2.resolve_right fun hopen => hopen.2 h) body)
    (fun id delivery hlookup => .inl hlookup)
  refine spec_after (hspec.conseq (fun _ hw => hw) ?_ fun _ _ hw => hw.2) rfl
  rintro reply w' (⟨rfl, -⟩ | ⟨-, hfiled, -⟩)
  · exact fun id delivery hlookup => .inl hlookup
  · exact hfiled

/-- Every delivery meets the rule, whatever the subscriptions, the body and the signature. -/
theorem receive_ruled (hmac : (secret raw : String) → List UInt8)
    (loads : String → Except PyError Json) (env : Env) (post : Post) (w : World) :
    post.Ruled (Edge.over hmac loads) env w where
  accepted := by
    intro h
    by_contra hnot
    obtain ⟨hsame, hstatus⟩ := after_receive_of_not_admitted hnot env
    rcases h with hstored | ⟨detail, w', hrun⟩
    · exact hstored (by rw [hsame]; exact ⟨rfl, rfl, rfl, rfl⟩)
    · rcases hstatus _ _ hrun with h | h <;> cases h
  filed := by
    intro hverified id delivery hlookup
    refine (filedSigned_of_verified hverified env id delivery hlookup).imp_right ?_
    rintro ⟨sub, hcandidate, hsigned, hid⟩
    refine ⟨sub, hcandidate, hsigned, hid, fun hkeys other hother hsame => ?_⟩
    exact List.inj_on_of_nodup_map hkeys hother hcandidate.1 (hsame.trans hid)
  refused := by
    intro status detail w' hrun hstatus
    have hspec := (spec_receive env (fun sub body _ _ => stores_true post sub body)
      (w := w) trivial).ok rfl hrun
    rcases hspec with ⟨hsame, -⟩ | ⟨-, -, hne⟩
    · exact hsame
    · exact absurd hstatus (not_or.mpr hne)

end PcoMirror
