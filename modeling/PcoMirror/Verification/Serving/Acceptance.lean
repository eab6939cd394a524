import PcoMirror.Verification.Serving.AtMostOnce
import PcoMirror.Verification.Serving.Shapes
import PcoMirror.Verification.Writer.Finishes

/-! # When an accepted write is reported as accepted -/

namespace PcoMirror

open Program

variable {α β : Type}

/-! ## Programs that return -/

/-- From here, the program returns. -/
def Returns (m : Serving α) (x : Exchange) : Prop :=
  ∃ a x', m.run x = .ok a x'

theorem returns_pure (a : α) (x : Exchange) : Returns (pure a) x := ⟨a, x, rfl⟩

theorem returns_bind {m : Serving α} {f : α → Serving β} {x : Exchange} :
    Returns (m >>= f) x ↔ ∃ a x', m.run x = .ok a x' ∧ Returns (f a) x' := by
  simp only [Returns, run_bind_eq_ok]
  exact ⟨fun ⟨b, x'', a, x', hm, hf⟩ => ⟨a, x', hm, b, x'', hf⟩,
    fun ⟨a, x', hm, b, x'', hf⟩ => ⟨b, x'', a, x', hm, hf⟩⟩

theorem returns_bind_of_run {m : Serving α} {f : α → Serving β} {x x' : Exchange} {a : α}
    (h : m.run x = .ok a x') : Returns (m >>= f) x ↔ Returns (f a) x' := by
  rw [returns_bind]
  refine ⟨?_, fun hf => ⟨a, x', h, hf⟩⟩
  rintro ⟨b, x'', hm, hf⟩
  rw [h] at hm
  cases hm
  exact hf

theorem returns_servePy_bind {e : Except PyError α} {f : α → Serving β} {x : Exchange} :
    Returns (servePy e >>= f) x ↔ ∃ a, e = .ok a ∧ Returns (f a) x := by
  cases e with
  | ok a => exact (returns_bind_of_run rfl).trans ⟨fun h => ⟨a, rfl, h⟩, fun ⟨_, heq, h⟩ => by cases heq; exact h⟩
  | error e => exact iff_of_false nofun nofun

/-- What is only noted goes on, in the state the program ends in. -/
theorem run_quietly {m : Proc α} {x : Exchange} (h : ∀ w', m.run x.world ≠ .error .stopped w') :
    (quietly m).run x = .ok () { x with world := x.world.after m } := by
  rw [quietly, run_onMirror, EStateM.run_bind, run_attempt, World.after]
  cases hrun : m.run x.world with
  | ok a w' => rfl
  | error halt w' =>
      cases halt with
      | raised e => rfl
      | stopped => exact absurd hrun (h w')

theorem not_returns_quietly {m : Proc α} {x : Exchange} {w' : World}
    (h : m.run x.world = .error .stopped w') : ¬ Returns (quietly m) x := by
  rintro ⟨a, x', hrun⟩
  rw [quietly, run_onMirror, EStateM.run_bind, run_attempt, h] at hrun
  cases hrun

theorem Finishes.run_quietly {m : Proc α} (h : Finishes m) (x : Exchange) :
    (quietly m).run x = .ok () { x with world := x.world.after m } :=
  PcoMirror.run_quietly (h x.world)

theorem returns_queueEach (env : Env) (records : List (Res × String)) (x : Exchange) :
    Returns (forEach (fun record => queueQuietly env record.1 record.2 "write_through" 0)
      records) x := by
  induction records generalizing x with
  | nil => exact returns_pure () x
  | cons record records ih =>
      exact (returns_bind_of_run ((finishes_enqueueHydrationWith env _ _ _ _ _).run_quietly x)).mpr (ih _)

/-! ## Peers named by a top-level write -/

section

variable (env : Env) (site : Site) (subject : Res) (subjectId : Option String)

/-- The stored copy of a peer that has been re-read can be checked for the record's id. -/
def PeerReadable (w : World) (peer : Res × String) : Prop :=
  ∀ id path, subjectId = some id → edgePath peer.1 subject = some path →
    ∀ row, (w.after (hydrate env peer.1 peer.2 peer.1.info.includes)).db.row? peer.1 peer.2 =
      some row → site.EdgeReadable id (eachValues row.raw path)

/-- What a checked peer leaves: queued again where its copy does not name the record. -/
def World.afterPeer (w : World) (peer : Res × String) : World :=
  let read := w.after (hydrate env peer.1 peer.2 peer.1.info.includes)
  let queued := read.after (enqueueHydrationWith env peer.1 peer.2 "write_verify" [] 60)
  match subjectId, edgePath peer.1 subject with
  | some id, some path =>
    match site.peerNames read.db peer.1 peer.2 path id with
    | .ok false => queued
    | _ => read
  | _, _ => read

/-- Every peer can be checked, in turn. -/
def PeersReadable : World → List (Res × String) → Prop
  | _, [] => True
  | w, peer :: rest => PeerReadable env site subject subjectId w peer ∧
      PeersReadable (w.afterPeer env site subject subjectId peer) rest

end

variable {env : Env} {site : Site} {subject : Res} {subjectId : Option String}

theorem succeeds_peerNames {db : Db} {peer : Res} {peerId id : String} {path : List String} :
    Succeeds (site.peerNames db peer peerId path id) ↔
      ∀ row, db.row? peer peerId = some row → site.EdgeReadable id (eachValues row.raw path) := by
  unfold Site.peerNames
  cases db.row? peer peerId with
  | none =>
      simp only [reduceCtorEq, false_implies, implies_true, iff_true]
      exact succeeds_ok false
  | some row =>
      simp only [Option.some.injEq, forall_eq']
      exact Site.succeeds_namesSubject

theorem run_verifyPeerEdge (x : Exchange) (peer : Res) (peerId : String) :
    (verifyPeerEdge env site subject subjectId peer peerId).run x =
      (match subjectId, edgePath peer subject with
        | some id, some path => do
          let held ← serveSql (site.peerNames x.world.db peer peerId path id)
          if held then pure () else queueQuietly env peer peerId "write_verify" 60
        | _, _ => pure () : Serving Unit).run x := by
  unfold verifyPeerEdge
  rfl

/-- A peer that can be read is, and the request goes on from there. -/
theorem run_refreshPeer (x : Exchange) (peer : Res × String)
    (h : PeerReadable env site subject subjectId x.world peer) :
    (refreshPeer env site subject subjectId peer).run x =
      .ok () { x with world := x.world.afterPeer env site subject subjectId peer } := by
  unfold refreshPeer
  rw [EStateM.run_bind, repair, (finishes_hydrate env _ _ _).run_quietly x]
  simp only
  rw [run_verifyPeerEdge]
  unfold World.afterPeer
  cases subjectId with
  | none => rfl
  | some id =>
      cases hpath : edgePath peer.1 subject with
      | none => rfl
      | some path =>
          obtain ⟨held, hheld⟩ := succeeds_peerNames.mpr (h id path rfl hpath)
          simp only [hheld]
          cases held with
          | true => rfl
          | false =>
              change (queueQuietly env peer.1 peer.2 "write_verify" 60).run _ = _
              exact (finishes_enqueueHydrationWith env peer.1 peer.2 "write_verify" [] 60).run_quietly _

/-- A peer that cannot be read ends the request. -/
theorem not_returns_refreshPeer (x : Exchange) (peer : Res × String)
    (h : ¬ PeerReadable env site subject subjectId x.world peer) :
    ¬ Returns (refreshPeer env site subject subjectId peer) x := by
  unfold refreshPeer
  rw [repair, returns_bind_of_run ((finishes_hydrate env _ _ _).run_quietly x)]
  rintro ⟨a, x', hrun⟩
  refine h fun id path hid hpath => succeeds_peerNames.mp ?_
  rw [run_verifyPeerEdge, hid, hpath] at hrun
  simp only at hrun
  cases hnames : site.peerNames
      (x.world.after (hydrate env peer.1 peer.2 peer.1.info.includes)).db peer.1 peer.2 path id with
  | ok held => exact succeeds_ok held
  | error e =>
      rw [hnames] at hrun
      cases hrun

theorem returns_refreshPeers_iff (peers : List (Res × String)) (x : Exchange) :
    Returns (forEach (refreshPeer env site subject subjectId) peers) x ↔
      PeersReadable env site subject subjectId x.world peers := by
  induction peers generalizing x with
  | nil => exact iff_of_true (returns_pure () x) trivial
  | cons peer rest ih =>
      by_cases hread : PeerReadable env site subject subjectId x.world peer
      · exact (returns_bind_of_run (run_refreshPeer x peer hread)).trans
          ((ih _).trans (and_iff_right hread).symm)
      · refine iff_of_false (fun h => ?_) fun h => hread h.1
        obtain ⟨a, x', hrun, -⟩ := returns_bind.mp h
        exact not_returns_refreshPeer x peer hread ⟨a, x', hrun⟩

theorem returns_refreshNamedPeers_iff (r : Res) (sent : Json) (x : Exchange) :
    Returns (refreshNamedPeers env site r sent subjectId) x ↔ NamesReadable r sent ∧
      ∀ named, namedPeers r sent = .ok named →
        PeersReadable env site r subjectId x.world (named.take 8) := by
  unfold refreshNamedPeers
  rw [returns_servePy_bind, ← succeeds_namedPeers]
  have hpeers : ∀ named : List (Res × String), Returns (do
      forEach (refreshPeer env site r subjectId) (named.take 8)
      forEach (fun peer => queueQuietly env peer.1 peer.2 "write_through" 0) (named.drop 8)) x ↔
      PeersReadable env site r subjectId x.world (named.take 8) := by
    intro named
    rw [← returns_refreshPeers_iff, returns_bind]
    exact ⟨fun ⟨a, x', h, _⟩ => ⟨a, x', h⟩,
      fun ⟨a, x', h⟩ => ⟨a, x', h, returns_queueEach env _ x'⟩⟩
  simp only [hpeers]
  constructor
  · rintro ⟨named, hnamed, h⟩
    exact ⟨⟨named, hnamed⟩, fun _ heq => by rw [hnamed] at heq; cases heq; exact h⟩
  · rintro ⟨⟨named, hnamed⟩, h⟩
    exact ⟨named, hnamed, h named hnamed⟩

/-! ## Collections walked after a write under a record -/

/-- PCO's pages of the collection come to an end. -/
def WalkEnds (env : Env) (child : Res) (parentId : String) (w : World) : Prop :=
  ∃ fuel, ∀ w', (walkChildren env child parentId fuel).run w ≠ .error .stopped w'

/-- A walk that has ended ends alike with more fuel. -/
theorem run_walkChildren_of_le {child : Res} {parentId : String} {n fuel : ℕ} (hle : n ≤ fuel)
    {w : World} (h : ∀ w', (walkChildren env child parentId n).run w ≠ .error .stopped w') :
    (walkChildren env child parentId fuel).run w = (walkChildren env child parentId n).run w := by
  unfold walkChildren at h ⊢
  cases hparent : child.info.parent with
  | none => rfl
  | some parent =>
      simp only [hparent] at h
      simp only [walkParent, walkOne, EStateM.run_bind] at h ⊢
      rw [whileTrue_of_le hle]
      intro w' hstopped
      rw [hstopped] at h
      exact h w' rfl

/-- What the re-reads after a write have to find. -/
def Refreshable (env : Env) (site : Site) (w : World) (r : Res) (segs : List String)
    (out sent : Json) : Prop :=
  match segs with
  | _ :: parentId :: name :: _ =>
    ∀ rel, r.info.relationships.lookup name = some rel → rel.kind = .many →
      (rel.target.info.ownerRel.isSome && rel.target.info.method ≠ .nestedWalk) = false →
      (rel.target.info.method = .nestedWalk → WalkEnds env rel.target parentId w) ∧
        MembersReadable out sent
  | _ => NamesReadable r sent ∧ ∀ named, namedPeers r sent = .ok named →
      PeersReadable env site r (subjectOf segs out) w (named.take 8)

theorem returns_queueTouched_iff (r : Res) (parentId : String) (out sent : Json) (x : Exchange) :
    Returns (queueTouched env r parentId out sent) x ↔ MembersReadable out sent := by
  unfold queueTouched
  rw [returns_servePy_bind, ← succeeds_membersTouched]
  exact exists_congr fun members => and_iff_left (returns_queueEach env _ x)

/-- For all but small amounts of fuel. -/
def Eventually (P : ℕ → Prop) : Prop :=
  ∃ n, ∀ fuel, n ≤ fuel → P fuel

theorem eventually_const {P : Prop} : Eventually (fun _ => P) ↔ P :=
  ⟨fun ⟨n, h⟩ => h n le_rfl, fun h => ⟨0, fun _ _ => h⟩⟩

theorem eventually_and_const {P : ℕ → Prop} {Q : Prop} :
    Eventually (fun fuel => P fuel ∧ Q) ↔ Eventually P ∧ Q :=
  ⟨fun ⟨n, h⟩ => ⟨⟨n, fun fuel hle => (h fuel hle).1⟩, (h n le_rfl).2⟩,
    fun ⟨⟨n, h⟩, hQ⟩ => ⟨n, fun fuel hle => ⟨h fuel hle, hQ⟩⟩⟩

theorem eventually_congr {P Q : ℕ → Prop} (h : ∀ fuel, P fuel ↔ Q fuel) :
    Eventually P ↔ Eventually Q :=
  exists_congr fun _ => forall_congr' fun fuel => imp_congr_right fun _ => h fuel

theorem returns_repair_walk_iff (child r : Res) (parentId : String) (out sent : Json)
    (x : Exchange) :
    Eventually (fun fuel => Returns (do
        repair (walkChildren env child parentId fuel)
        queueTouched env r parentId out sent) x) ↔
      WalkEnds env child parentId x.world ∧ MembersReadable out sent := by
  constructor
  · rintro ⟨n, h⟩
    obtain ⟨a, x', hwalked, hqueued⟩ := returns_bind.mp (h n le_rfl)
    refine ⟨⟨n, fun w' hstopped => ?_⟩, (returns_queueTouched_iff r parentId out sent x').mp hqueued⟩
    exact not_returns_quietly hstopped ⟨a, x', hwalked⟩
  · rintro ⟨⟨n, hends⟩, hmembers⟩
    refine ⟨n, fun fuel hle => ?_⟩
    have hends' : ∀ w', (walkChildren env child parentId fuel).run x.world ≠ .error .stopped w' := by
      rw [run_walkChildren_of_le hle hends]
      exact hends
    exact (returns_bind_of_run (run_quietly hends')).mpr
      ((returns_queueTouched_iff r parentId out sent _).mpr hmembers)

theorem returns_refreshUnder_iff (r : Res) (parentId name : String) (out sent : Json)
    (x : Exchange) :
    Eventually (fun fuel => Returns (refreshUnder env fuel r parentId name out sent) x) ↔
      ∀ rel, r.info.relationships.lookup name = some rel → rel.kind = .many →
        (rel.target.info.ownerRel.isSome && rel.target.info.method ≠ .nestedWalk) = false →
        (rel.target.info.method = .nestedWalk → WalkEnds env rel.target parentId x.world) ∧
          MembersReadable out sent := by
  unfold refreshUnder
  cases hrel : r.info.relationships.lookup name with
  | none => exact iff_of_true (eventually_const.mpr (returns_pure () x)) nofun
  | some rel =>
      simp only [Option.some.injEq, forall_eq']
      by_cases hkind : rel.kind = .many
      · simp only [hkind, ne_eq, not_true_eq_false, if_false, forall_const]
        by_cases howned : (rel.target.info.ownerRel.isSome &&
            rel.target.info.method ≠ .nestedWalk) = true
        · simp only [howned, if_true]
          refine iff_of_true (eventually_const.mpr ?_) nofun
          exact ⟨(), _, (finishes_hydrate env _ _ _).run_quietly x⟩
        · simp only [howned, forall_const]
          by_cases hnested : rel.target.info.method = .nestedWalk
          · simp only [hnested, if_true, forall_const]
            exact returns_repair_walk_iff rel.target r parentId out sent x
          · simp only [hnested, if_false, false_implies, true_and]
            refine eventually_const.trans ?_
            exact (returns_bind_of_run rfl).trans (returns_queueTouched_iff r parentId out sent x)
      · simp only [hkind, ne_eq, not_false_eq_true, if_true, false_implies, iff_true]
        exact eventually_const.mpr (returns_pure () x)

theorem returns_refreshAffected_iff (r : Res) (segs : List String) (out sent : Json)
    (x : Exchange) :
    Eventually (fun fuel => Returns (refreshAffected env site fuel r segs out sent) x) ↔
      Refreshable env site x.world r segs out sent := by
  match segs with
  | _ :: parentId :: name :: _ => exact returns_refreshUnder_iff r parentId name out sent x
  | [] => exact eventually_const.trans (returns_refreshNamedPeers_iff r sent x)
  | [_] => exact eventually_const.trans (returns_refreshNamedPeers_iff r sent x)
  | [_, _] => exact eventually_const.trans (returns_refreshNamedPeers_iff r sent x)

/-! ## After an accepted write -/

/-- What a `DELETE` leaves: the record the path names is buried. -/
def World.deleted (w : World) (env : Env) (r : Res) (segs : List String) : World :=
  match (resolveWrite r segs).id with
  | some id => w.after (tombstoneOne env (resolveWrite r segs).r id none .destroyed)
  | none => w

/-- What storing an answer leaves. -/
def World.answered (w : World) (env : Env) (r : Res) (segs : List String) (status : ℕ)
    (out : Json) : World :=
  w.after (routePage env status out .passthrough [] (resolveWrite r segs).ownerHint)

/-- An answer that can be stored and served: a document whose links can be rewritten. -/
def Servable (env : Env) (site : Site) (w : World) (r : Res) (segs : List String)
    (sent : Json) (resp : Answer) : Prop :=
  ∃ members, resp.document = .ok (.obj members) ∧
    let out := leftByRoutePage (resolveWrite r segs).ownerHint (.obj members)
    Refreshable env site (w.answered env r segs resp.status (.obj members)) r segs out sent ∧
      site.HeadersReadable resp.headers ∧ ∀ served, out = .obj served → site.DocumentReadable served

/-- The condition under which an accepted write is reported as accepted. -/
def Reportable (env : Env) (site : Site) (w : World) (method : Verb) (r : Res)
    (segs : List String) (sent : Json) (resp : Answer) : Prop :=
  if method = .delete then Refreshable env site (w.deleted env r segs) r segs .null sent
  else Servable env site w r segs sent resp

theorem returns_applyDelete_iff (r : Res) (segs : List String) (sent : Json) (resp : Answer)
    (x : Exchange) :
    Eventually (fun fuel => Returns (applyDelete env site fuel r segs sent resp) x) ↔
      Refreshable env site (x.world.deleted env r segs) r segs .null sent := by
  have hburied : (whenSome (resolveWrite r segs).id fun id =>
      recordLocally (tombstoneOne env (resolveWrite r segs).r id none .destroyed)).run x =
      .ok () { x with world := x.world.deleted env r segs } := by
    unfold World.deleted
    cases (resolveWrite r segs).id with
    | none => rfl
    | some id => exact (finishes_tombstoneOne env _ id none _ _).run_quietly x
  rw [← returns_refreshAffected_iff (x := { x with world := x.world.deleted env r segs })]
  unfold applyDelete
  simp only [returns_bind_of_run hburied]
  refine eventually_congr fun fuel => returns_bind.trans ?_
  exact ⟨fun ⟨a, x', h, _⟩ => ⟨a, x', h⟩, fun ⟨a, x', h⟩ => ⟨a, x', h, returns_pure _ x'⟩⟩

theorem Site.succeeds_rewriteDocument_iff {out : Json} :
    Succeeds (site.rewriteDocument out) ↔
      ∀ served, out = .obj served → site.DocumentReadable served := by
  cases out with
  | obj members =>
      simp only [Json.obj.injEq, forall_eq']
      exact succeeds_rewriteDocument
  | null | bool _ | int _ | real _ | str _ | arr _ =>
      exact iff_of_true (succeeds_pure _) fun _ h => by cases h

/-- The end of a stored write: the headers and the document are rewritten. -/
theorem returns_relay_iff (resp : Answer) (out : Json) (x : Exchange) :
    Returns (do
        let headers ← servePy (site.relayHeaders resp.headers)
        return ⟨resp.status, headers, .document (← servePy (site.rewriteDocument out))⟩ :
          Serving Reply) x ↔
      site.HeadersReadable resp.headers ∧
        ∀ served, out = .obj served → site.DocumentReadable served := by
  rw [returns_servePy_bind, ← Site.succeeds_relayHeaders, ← Site.succeeds_rewriteDocument_iff]
  simp only [returns_servePy_bind]
  exact ⟨fun ⟨headers, hheaders, served, hserved, _⟩ => ⟨⟨headers, hheaders⟩, served, hserved⟩,
    fun ⟨⟨headers, hheaders⟩, served, hserved⟩ =>
      ⟨headers, hheaders, served, hserved, returns_pure _ x⟩⟩

theorem returns_applyStored_iff (r : Res) (segs : List String) (sent : Json) (resp : Answer)
    (x : Exchange) :
    Eventually (fun fuel => Returns (applyStored env site fuel r segs sent resp) x) ↔
      Servable env site x.world r segs sent resp := by
  unfold applyStored Servable
  simp only [returns_servePy_bind]
  cases hdocument : resp.document with
  | error e =>
      refine iff_of_false ?_ nofun
      rintro ⟨n, h⟩
      obtain ⟨out, hout, -⟩ := h n le_rfl
      cases hout
  | ok out =>
      simp only [Except.ok.injEq, exists_eq_left']
      cases out with
      | obj members =>
          simp only [Json.obj.injEq, exists_eq_left', pyGet, Except.ok.injEq]
          have hstored := (finishes_routePage env resp.status (.obj members) .passthrough []
            (resolveWrite r segs).ownerHint).run_quietly x
          rw [← returns_refreshAffected_iff (x := { x with
            world := x.world.answered env r segs resp.status (.obj members) })]
          refine (eventually_congr fun fuel => ?_).trans eventually_and_const
          refine (returns_bind_of_run hstored).trans (returns_bind.trans ?_)
          simp only [returns_relay_iff]
          exact ⟨fun ⟨a, x', h, hrelay⟩ => ⟨⟨a, x', h⟩, hrelay⟩,
            fun ⟨⟨a, x', h⟩, hrelay⟩ => ⟨a, x', h, hrelay⟩⟩
      | null | bool _ | int _ | real _ | str _ | arr _ =>
          refine iff_of_false ?_ fun ⟨_, h, _⟩ => by cases h
          rintro ⟨n, h⟩
          obtain ⟨_, hget, -⟩ := h n le_rfl
          cases hget

theorem returns_applyWrite_iff (method : Verb) (r : Res) (segs : List String) (sent : Json)
    (resp : Answer) (x : Exchange) :
    Eventually (fun fuel => Returns (applyWrite env site fuel method r segs sent resp) x) ↔
      Reportable env site x.world method r segs sent resp := by
  unfold applyWrite Reportable
  split_ifs
  · exact returns_applyDelete_iff r segs sent resp x
  · exact returns_applyStored_iff r segs sent resp x

/-- An accepted write that returns, returns with PCO's status. -/
theorem status_of_applyWrite {fuel : ℕ} {method : Verb} {r : Res} {segs : List String}
    {sent : Json} {resp : Answer} {x x' : Exchange} {reply : Reply} (hok : resp.ok = true)
    (h : (applyWrite env site fuel method r segs sent resp).run x = .ok reply x') :
    reply.status = resp.status := by
  unfold applyWrite at h
  split_ifs at h
  · obtain ⟨_, _, -, h⟩ := run_bind_eq_ok.mp h
    obtain ⟨_, _, -, h⟩ := run_bind_eq_ok.mp h
    cases h
    have hstatus : resp.status ≠ 0 := by
      intro hzero
      simp [Response.ok, hzero] at hok
    simp only [if_neg hstatus]
  · obtain ⟨_, _, -, h⟩ := run_bind_eq_ok.mp h
    obtain ⟨_, _, -, h⟩ := run_bind_eq_ok.mp h
    obtain ⟨_, _, -, h⟩ := run_bind_eq_ok.mp h
    obtain ⟨_, _, -, h⟩ := run_bind_eq_ok.mp h
    obtain ⟨_, _, -, h⟩ := run_bind_eq_ok.mp h
    obtain ⟨_, _, -, h⟩ := run_bind_eq_ok.mp h
    cases h
    rfl

/-! ## What the caller receives -/

section

variable {transport : Transport} {granted : List String} {method : Mutation} {path first : String}
  {rest : List String} {r : Res} {body : Body} {sent : Json} {resp : Answer} {w : World}
  {x : Exchange}

variable (env site) in
/-- A request that settles on a 2xx goes on to what follows an accepted write. -/
theorem run_routeWrite (fuel : ℕ) (hwrite : granted.contains "write" = true)
    (hpath : segments path = some (first :: rest)) (hseg : bySegment first = some r)
    (hsent : decoded body = .ok sent)
    (hresp : (request transport method.verb).run { world := w } = .ok resp x)
    (hok : resp.ok = true) :
    (routeWrite env transport site fuel (.ok granted) method path body).run { world := w } =
      (applyWrite env site fuel method.verb r (first :: rest) sent resp).run x := by
  simp only [routeWrite, hpath, hseg, hwrite, if_true]
  unfold writeThrough
  rw [hsent, EStateM.run_bind]
  change EStateM.run _ _ = _
  rw [EStateM.run_bind, run_tryCatch_of_ok hresp]
  simp only [hok, if_true]

/-- The caller of an accepted write receives PCO's status. -/
def Reported (env : Env) (transport : Transport) (site : Site) (granted : List String)
    (method : Mutation) (path : String) (body : Body) (w : World) (status fuel : ℕ) : Prop :=
  ∃ reply x', (serveWrite env transport site fuel (.ok granted) method path body).run
    { world := w } = .ok reply x' ∧ reply.status = status

/-- For a write that PCO answered with a 2xx, the caller receives that status exactly where the
answer and the request have the shapes the code reads in them. -/
theorem accepted_write_reported_iff (hwrite : granted.contains "write" = true)
    (hpath : segments path = some (first :: rest)) (hseg : bySegment first = some r)
    (hsent : decoded body = .ok sent)
    (hresp : (request transport method.verb).run { world := w } = .ok resp x)
    (hok : resp.ok = true) :
    Eventually (Reported env transport site granted method path body w resp.status) ↔
      Reportable env site w method.verb r (first :: rest) sent resp := by
  have hworld : x.world = w := by
    have h := spec_attempts transport method.not_idempotent w 5 { world := w }
      ⟨rfl, nofun⟩
    rw [request] at hresp
    rw [hresp] at h
    exact h.1
  subst hworld
  rw [← returns_applyWrite_iff]
  refine eventually_congr fun fuel => ?_
  have hrun := run_routeWrite env site fuel hwrite hpath hseg hsent hresp hok
  have hstatus : resp.status < 300 := by
    have hrange : 200 ≤ resp.status ∧ resp.status < 300 := by simpa [Response.ok] using hok
    exact hrange.2
  unfold Reported serveWrite
  constructor
  · rintro ⟨reply, x', hserved, hreply⟩
    cases happlied : (applyWrite env site fuel method.verb r (first :: rest) sent resp).run x with
    | ok reply x₁ => exact ⟨reply, x₁, happlied⟩
    | error fault x₁ =>
        rw [run_tryCatch_of_error (hrun.trans happlied)] at hserved
        have hfailed : reply.status = 500 := by
          cases fault with
          | raised e => cases hserved; exact rfl
          | sqlite e => cases e; cases hserved; exact rfl
          | stopped => cases hserved
          | http status detail info => exact absurd rfl (not_http_applyWrite happlied status detail info)
        omega
  · rintro ⟨reply, x', happlied⟩
    exact ⟨reply, x', run_tryCatch_of_ok (hrun.trans happlied) _, status_of_applyWrite hok happlied⟩

end

/-- The service in front of PCO itself. -/
def canonicalSite : Site where
  baseUrl := "https://api.planningcenteronline.com/people/v2"
  acceptsHost := fun _ => true
  readJson := fun _ => none

/-- PCO's answer to the creation of a person. -/
def createdPerson : Answer where
  status := 201
  body := .json (.obj [("data", document "Person" "1" "2024-03-01T00:00:00Z" [])])
  headers := [("Location", "https://api.planningcenteronline.com/people/v2/people/1")]

theorem accepted_write_reported_iff_created :
    Eventually (Reported quietEnv (fun _ => .ok createdPerson) canonicalSite ["write"] .post
      "/people/v2/people" (.json (.obj [])) {} 201) := by
  have hpath : segments "/people/v2/people" = some ["people"] := by decide
  have hseg : bySegment "people" = some .person := by decide
  have hsent : decoded (.json (.obj [])) = .ok (.obj []) := rfl
  have hresp : (request (fun _ => .ok createdPerson) Mutation.post.verb).run { world := {} } =
      .ok createdPerson { world := {}, sends := [.ok createdPerson] } := rfl
  refine (accepted_write_reported_iff (by decide) hpath hseg hsent hresp (by decide)).mpr ?_
  have hlocation : canonicalSite.UrlReadable
      "https://api.planningcenteronline.com/people/v2/people/1" :=
    fun _ => ⟨⟨_, rfl⟩, ⟨_, rfl⟩⟩
  have hleft : ∀ served : List (String × Json), leftByRoutePage none
      (.obj [("data", document "Person" "1" "2024-03-01T00:00:00Z" [])]) = .obj served →
      served = [("data", document "Person" "1" "2024-03-01T00:00:00Z" [])] := by
    intro served h
    have hsame : leftByRoutePage none
        (.obj [("data", document "Person" "1" "2024-03-01T00:00:00Z" [])]) =
        .obj [("data", document "Person" "1" "2024-03-01T00:00:00Z" [])] := by decide
    rw [hsame] at h
    cases h
    rfl
  refine ⟨[("data", document "Person" "1" "2024-03-01T00:00:00Z" [])], rfl, ⟨?_, ?_⟩, ?_, ?_⟩
  · rintro name rel - - v hlookup
    cases hlookup
  · intro named hnamed
    have hnobody : namedPeers .person (.obj []) = .ok [] := by decide
    rw [hnobody] at hnamed
    cases hnamed
    trivial
  · intro name url hmem _ _
    obtain ⟨-, rfl⟩ : name = "Location" ∧
        url = "https://api.planningcenteronline.com/people/v2/people/1" := by
      simpa [createdPerson] using hmem
    exact hlocation
  · intro served hserved
    rw [hleft served hserved]
    refine ⟨?_, ?_, ?_, ?_, ?_⟩
    · intro data hdata
      obtain rfl : _ = data := by simpa [document] using hdata
      refine ⟨fun links hlinks => ?_, fun rels hrels => ?_⟩
      · simp [List.lookup_cons] at hlinks
      · obtain rfl : [] = rels := by simpa [List.lookup_cons] using hrels
        nofun
    · intro items hitems
      simp [document] at hitems
    · intro items hitems
      simp [List.lookup_cons] at hitems
    · intro j hj
      simp [List.lookup_cons] at hj
    · intro links hlinks
      simp [List.lookup_cons] at hlinks

/-- A 2xx answer with a body that is not JSON is served as an error. -/
theorem accepted_write_not_reported :
    ¬ Eventually (Reported quietEnv (fun _ => .ok { status := 201, body := .invalid })
      canonicalSite ["write"] .post "/people/v2/people" (.json (.obj [])) {} 201) := by
  rintro ⟨n, h⟩
  obtain ⟨reply, x', hrun, hstatus⟩ := h n le_rfl
  have hserved : (serveWrite quietEnv (fun _ => .ok { status := 201, body := .invalid })
      canonicalSite n (.ok ["write"]) .post "/people/v2/people" (.json (.obj []))).run
      { world := {} } = .ok ⟨500, [], .document (errorDocument 500 "JSONDecodeError" none)⟩ { world := {}, sends := [.ok { status := 201, body := .invalid }] } := rfl
  rw [hserved] at hrun
  cases hrun
  cases hstatus

end PcoMirror
