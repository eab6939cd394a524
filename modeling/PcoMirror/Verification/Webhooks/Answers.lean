import PcoMirror.Verification.Webhooks.Reception

/-! Which deliveries the edge answers, and which make it raise. -/

namespace PcoMirror

open Program

variable {edge : Edge} {post : Post} {w : World} {body : Json}

/-- A value that `x or {}` makes an object of. -/
def Json.OrObject (j : Option Json) : Prop :=
  ∀ v, j = some v → v.truthy = true → ∃ members, v = .obj members

/-- A delivery whose own event name can be read: nothing delivered, or a first item whose
attributes are an object. -/
def Labelled (body : Json) : Prop :=
  ∀ data, body.member? "data" = some data → data.truthy = true →
    ∃ item rest, data = .arr (.obj item :: rest) ∧ Json.OrObject (item.lookup "attributes")

/-- What the edge needs of a body, beyond its signature: JSON that cannot be parsed, or an object
that can be attributed. -/
def Edge.Answerable (edge : Edge) (post : Post) (w : World) : Prop :=
  post.Admitted edge w → edge.loads post.raw = .error .jsonDecodeError ∨
    ∃ members, edge.loads post.raw = .ok (.obj members) ∧
      (¬ post.Verified edge w → Labelled (.obj members))

/-- The call returns, with one of the four codes. -/
def Edge.Answers (edge : Edge) (env : Env) (post : Post) (w : World) : Prop :=
  ∃ reply w', (receive edge env post).run w = .ok reply w' ∧
    (reply.1 = 204 ∨ reply.1 = 401 ∨ reply.1 = 404 ∨ reply.1 = 503)

/-! ## Attribution -/

theorem succeeds_pyGet_obj {j : Json} {key : String} :
    Succeeds (pyGet j key) ↔ ∃ members, j = .obj members := by
  cases j <;> simp [pyGet]

theorem succeeds_pyGet_orEmptyObj {v : Option Json} {key : String} :
    Succeeds (pyGet (orEmptyObj v) key) ↔ Json.OrObject v := by
  rw [succeeds_pyGet_obj, Json.OrObject]
  cases v with
  | none => simp [orEmptyObj]
  | some v => cases htruthy : v.truthy <;> simp [orEmptyObj, htruthy]

theorem succeeds_byEventName {first : Subscription} {subs : List Subscription} :
    Succeeds (byEventName first subs body) ↔ (∃ members, body = .obj members) ∧ Labelled body := by
  rw [byEventName, succeeds_bind]
  cases body with
  | obj members =>
      have hget : pyGet (.obj members) "data" = .ok (members.lookup "data") := rfl
      simp only [hget, Except.ok.injEq, exists_eq_left', Labelled, Json.member?, Json.obj.injEq,
        exists_eq', true_and]
      cases members.lookup "data" with
      | none => exact iff_of_true (succeeds_pure _) (by rintro _ ⟨⟩)
      | some data =>
          cases htruthy : data.truthy with
          | false =>
              have hnone : Option.filter Json.truthy (some data) = none := by simp [htruthy]
              rw [hnone]
              refine iff_of_true (succeeds_pure _) ?_
              rintro _ hdata htrue
              cases hdata
              simp [htruthy] at htrue
          | true =>
              have hsome : Option.filter Json.truthy (some data) = some data := by simp [htruthy]
              simp only [hsome, Option.getD_some, Option.some.injEq, forall_eq', htruthy,
                forall_const]
              cases data with
              | arr items =>
                  cases items with
                  | nil => cases htruthy
                  | cons item rest =>
                      cases item with
                      | obj item =>
                          have hread : getOrEmpty (.obj item) "attributes" =
                              .ok (orEmptyObj (item.lookup "attributes")) := rfl
                          dsimp only
                          rw [hread, succeeds_bind]
                          simp only [Except.ok.injEq, exists_eq_left', succeeds_bind_pure,
                            succeeds_pyGet_orEmptyObj]
                          constructor
                          · exact fun h => ⟨item, rest, rfl, h⟩
                          · rintro ⟨_, _, hitem, h⟩
                            cases hitem
                            exact h
                      | _ => exact iff_of_false (not_succeeds_error _) (by simp)
              | _ => exact iff_of_false (not_succeeds_error _) (by simp)
  | _ => exact iff_of_false (by simp [pyGet]) (by simp)

/-! ## Capture -/

/-- A program that may raise, and does not halt otherwise. -/
def Raises {α : Type} (m : Proc α) : Prop :=
  Spec (fun _ => True) m (fun _ _ => True) fun halt _ => ∃ e, halt = .raised e

theorem Raises.bind {α β : Type} {m : Proc α} {f : α → Proc β} (hm : Raises m)
    (hf : ∀ a, Raises (f a)) : Raises (m >>= f) :=
  Spec.bind hm hf

theorem Raises.pure {α : Type} (a : α) : Raises (Pure.pure a) :=
  Spec.pure fun _ _ => trivial

theorem Raises.modify (f : World → World) : Raises (modify f) :=
  Spec.modify fun _ _ => trivial

theorem Raises.nowIso (env : Env) : Raises (nowIso env) :=
  (Spec.get fun _ _ => trivial).bind fun _ =>
    Spec.bind (Raises.modify _) fun _ => Spec.pure fun _ _ => trivial

theorem Raises.ofPy {α : Type} (e : Except PyError α) : Raises (ofPy e) := by
  cases e with
  | ok a => exact Raises.pure a
  | error e => exact Spec.throw fun _ _ => ⟨e, rfl⟩

theorem Raises.capture (edge : Edge) (env : Env) (post : Post) (sub : Subscription) (body : Json)
    (deliveryId : Except PyError (Option String)) :
    Raises (capture edge env post sub body deliveryId) := by
  have hone : ∀ item, Raises (captureOne edge env sub.eventName item) := fun item =>
    (Raises.ofPy _).bind fun _ => (Raises.nowIso env).bind fun _ => Raises.modify _
  refine (Raises.ofPy _).bind fun _ => (Raises.ofPy _).bind fun id => ?_
  refine Raises.bind ?_ fun _ => (Raises.ofPy _).bind fun _ => (Raises.ofPy _).bind fun items => ?_
  · cases id with
    | none => exact Raises.pure _
    | some id => exact Raises.modify _
  · exact Raises.bind (Spec.forEach items fun item _ => hone item) fun _ =>
      (Raises.nowIso env).bind fun _ => Raises.modify _

/-- What is caught is answered. -/
theorem run_catching_of_raises {α β : Type} {m : Proc α} (hm : Raises m) (good bad : β)
    (w : World) : ∃ reply w', (catching (m >>= fun _ => pure good) fun _ => pure bad).run w =
      .ok reply w' ∧ (reply = good ∨ reply = bad) := by
  rw [catching]
  cases hrun : m.run w with
  | ok a w' =>
      have hwhole : (m >>= fun _ => pure good : Proc β).run w = .ok good w' := by
        rw [EStateM.run_bind, hrun]
        rfl
      exact ⟨good, w', run_tryCatch_of_ok hwhole _, .inl rfl⟩
  | error halt w' =>
      obtain ⟨e, rfl⟩ := hm.error trivial hrun
      have hwhole : (m >>= fun _ => pure good : Proc β).run w = .error (.raised e) w' := by
        rw [EStateM.run_bind, hrun]
      exact ⟨bad, w', run_tryCatch_of_error hwhole _, .inr rfl⟩

/-! ## A whole delivery -/

/-- An object that is attributed is captured, or the capture fails. -/
theorem run_receive_captured (env : Env) (post : Post) (sub : Subscription)
    (members : List (String × Json)) (w : World) :
    ∃ reply w', (do
      let deliveryId ← fileAs env post (.obj members)
      catching (do
        capture edge env post sub (.obj members) deliveryId
        return ((204, "ok") : ℕ × String))
        fun _ => return (503, "capture failed")).run w = .ok reply w' ∧
      (reply.1 = 204 ∨ reply.1 = 503) := by
  obtain ⟨key, w₁, hkey, -⟩ := run_fileAs rfl env post w
  rw [run_bind_of_ok hkey]
  obtain ⟨reply, w', hrun, hreply⟩ := run_catching_of_raises
    (Raises.capture edge env post sub (.obj members) key) ((204, "ok") : ℕ × String)
    (503, "capture failed") w₁
  refine ⟨reply, w', hrun, ?_⟩
  rcases hreply with rfl | rfl
  · exact .inl rfl
  · exact .inr rfl

theorem Post.Verified.iff_find? : post.Verified edge w ↔
    ∃ sub, ((w.subscriptionsOf post.urlToken).find? fun s =>
      !s.unverified && edge.verify s.secret post.raw post.signature) = some sub := by
  refine ⟨Post.Verified.matched, ?_⟩
  rintro ⟨sub, hfind⟩
  obtain ⟨hmem, htoken, hactive⟩ := mem_subscriptionsOf.mp (List.mem_of_find?_eq_some hfind)
  have hsigned := List.find?_some hfind
  rw [Bool.and_eq_true, Bool.not_eq_true'] at hsigned
  exact ⟨sub, hmem, htoken, hactive, hsigned⟩

theorem succeeds_attributed {first : Subscription} {subs : List Subscription}
    {matched : Option Subscription} : Succeeds (attributed matched first subs body) ↔
      (matched = none → (∃ members, body = .obj members) ∧ Labelled body) := by
  cases matched with
  | some sub => exact iff_of_true (succeeds_pure _) nofun
  | none => simp [attributed, succeeds_byEventName]

theorem not_admitted_of_none (h : ((w.subscriptionsOf post.urlToken).find? fun s =>
      !s.unverified && edge.verify s.secret post.raw post.signature).or
        ((w.subscriptionsOf post.urlToken).filter Subscription.unverified).head? = none) :
    ¬ post.Admitted edge w := by
  rintro ⟨sub, hcandidate, hopen⟩
  obtain ⟨hfind, hhead⟩ := Option.or_eq_none_iff.mp h
  have hmem := mem_subscriptionsOf.mpr hcandidate
  cases hunverified : sub.unverified with
  | true =>
      have hnil := List.head?_eq_none_iff.mp hhead
      exact List.not_mem_nil (hnil ▸ List.mem_filter.mpr ⟨hmem, hunverified⟩)
  | false =>
      have hnot := List.find?_eq_none.mp hfind sub hmem
      rcases hopen with hopen | hopen
      · rw [hunverified] at hopen
        cases hopen
      · exact hnot (by simp [hunverified, hopen])

/-- The edge answers exactly what it can parse or cannot, of an object it can attribute. -/
theorem receive_answers_iff (edge : Edge) (env : Env) (post : Post) (w : World) :
    edge.Answers env post w ↔ edge.Answerable post w := by
  have hget : (get : Proc World).run w = .ok w w := rfl
  rw [Edge.Answers, receive, run_bind_of_ok hget]
  dsimp only
  split
  · rename_i hempty
    refine iff_of_true ⟨_, w, rfl, .inr (.inr (.inl rfl))⟩ ?_
    rintro ⟨sub, hcandidate, -⟩
    rw [List.isEmpty_iff] at hempty
    exact absurd (mem_subscriptionsOf.mpr hcandidate) (hempty ▸ List.not_mem_nil)
  split
  · rename_i hnone
    exact iff_of_true ⟨_, w, rfl, .inr (.inl rfl)⟩ fun h => absurd h (not_admitted_of_none hnone)
  rename_i first hfirst
  have hadmitted := admitted_of_first hfirst
  split
  · rename_i hloads
    exact iff_of_true ⟨_, w, rfl, .inr (.inr (.inr rfl))⟩ fun _ => .inl hloads
  · rename_i e hdecode hloads
    refine iff_of_false (by rintro ⟨_, _, h, -⟩; cases h) fun h => ?_
    rcases h hadmitted with hparse | ⟨members, hparse, -⟩ <;> rw [hloads] at hparse
    · exact hdecode (Except.error.inj hparse)
    · cases hparse
  · rename_i body hloads
    cases hattributed : attributed ((w.subscriptionsOf post.urlToken).find? fun s =>
        !s.unverified && edge.verify s.secret post.raw post.signature) first
      ((w.subscriptionsOf post.urlToken).filter Subscription.unverified) body with
    | error e =>
        refine iff_of_false (by rintro ⟨_, _, h, -⟩; cases h) fun h => ?_
        have hfails : ¬ Succeeds (attributed ((w.subscriptionsOf post.urlToken).find? fun s =>
            !s.unverified && edge.verify s.secret post.raw post.signature) first
          ((w.subscriptionsOf post.urlToken).filter Subscription.unverified) body) := by
          rw [hattributed]
          exact not_succeeds_error e
        rw [succeeds_attributed] at hfails
        push Not at hfails
        obtain ⟨hunmatched, hfails⟩ := hfails
        rcases h hadmitted with hparse | ⟨members, hparse, hlabelled⟩ <;> rw [hloads] at hparse
        · cases hparse
        · cases hparse
          refine hfails ⟨members, rfl⟩ (hlabelled fun hverified => ?_)
          obtain ⟨sub, hsub⟩ := hverified.matched
          rw [hunmatched] at hsub
          cases hsub
    | ok sub =>
        rw [ofPy_ok_bind]
        cases body with
        | obj members =>
            obtain ⟨reply, w', hrun, hreply⟩ := run_receive_captured env post sub members w
            refine iff_of_true ⟨reply, w', hrun, ?_⟩ fun _ => .inr ⟨members, hloads, ?_⟩
            · exact hreply.imp_right fun h => .inr (.inr h)
            · intro hverified
              rw [Post.Verified.iff_find?] at hverified
              push Not at hverified
              exact (succeeds_attributed.mp ⟨sub, hattributed⟩ (Option.eq_none_iff_forall_ne_some.mpr
                hverified)).2
        | _ =>
            -- A body that is no object has no `get` to file it by.
            refine iff_of_false ?_ fun h => ?_
            · rintro ⟨_, _, h, -⟩
              cases h
            · rcases h hadmitted with hparse | ⟨members, hparse, -⟩ <;> rw [hloads] at hparse <;>
                cases hparse

/-- A receiver that checks nothing. -/
def openWorld : World where
  subscriptions := [{
    id := "sub1"
    eventName := "people.v2.events.person.updated"
    urlToken := "person-events-01"
    secret := "" }]

/-- An array without items, read as JSON. -/
def emptyArrayEdge : Edge where
  verify _ _ _ := false
  loads _ := .ok (.arr [])

/-- A body that is a JSON array makes the edge raise. -/
theorem receive_not_answered :
    ¬ emptyArrayEdge.Answers exampleClock { examplePost with raw := "[]" } openWorld := by
  have hraises : endsWith (receive emptyArrayEdge exampleClock { examplePost with raw := "[]" })
      openWorld (fun _ => true) = false := by decide +kernel
  rintro ⟨reply, w', hrun, -⟩
  rw [endsWith, hrun] at hraises
  cases hraises

end PcoMirror
