import PcoMirror.Lib.Agreement
import PcoMirror.Verification.Audit.Phases

/-! The audit round: in units of any size it comes to its end, having tombstoned exactly the
lost records that PCO answers `404` about, and restored unknown ones up to the limit. -/

namespace PcoMirror

open Program

variable {d : Directory} {r : Res} {start : Db} {env : Env} {b : World}

/-! ## Listing -/

theorem turnPage_keeps {round next : AuditRound} {items : List Json}
    {es : List (String × String)} (hitems : List.Forall₂ Names items es)
    (h : turnPage round items = .ok (some next)) :
    next.phase = round.phase ∧ next.mode = round.mode ∧ next.restored = round.restored := by
  rcases turnPage_cases round hitems with ⟨-, hturn⟩ | ⟨last, -, hturn⟩
  · cases hturn.symm.trans h
    exact ⟨rfl, rfl, rfl⟩
  · rw [hturn] at h
    rcases turn_cases round es.length last.2 with ⟨hback, -⟩ | honward | ⟨hadvance, -⟩
    · cases hback.symm.trans h
    · cases honward.symm.trans h
      exact ⟨rfl, rfl, rfl⟩
    · cases hadvance.symm.trans h
      exact ⟨rfl, rfl, rfl⟩

theorem Passed.mono {round : AuditRound} {live live' : List String} (h : Passed d round live)
    (hmore : ∀ id ∈ live, id ∈ live') (hlisted : ∀ id ∈ live', id ∈ d.ids) :
    Passed d round live' :=
  ⟨hlisted, fun e he hout => hmore _ (h.behind e he hout), fun e he => hmore _ (h.before e he)⟩

/-- A round that lists, within a unit begun at some state. -/
def Listing (d : Directory) (r : Res) (start : Db) (b : World) (round : AuditRound) (w : World) :
    Prop :=
  Enumerating d r start round w ∧ RowsSince d r start b w

/-- A round that works off its sets, within a unit begun at some state. -/
def Underway (d : Directory) (r : Res) (start : Db) (b : World) (n : ℕ) (w : World) : Prop :=
  Working d r start n w ∧ RowsSince d r start b w

theorem stable_listing (round : AuditRound) : Stable r (Listing d r start b round) :=
  (stable_enumerating round).and (stable_rowsSince b)

theorem stable_underway (n : ℕ) : Stable r (Underway d r start b n) :=
  (stable_working n).and (stable_rowsSince b)

/-- The state once an id has joined a working set. -/
def World.added (w : World) (r : Res) (kind : ScratchKind) (id : String) : World :=
  { w with
    scratch := fun u => if u = r then fun k =>
        if k = kind ∧ id ∉ w.scratch u k then w.scratch u k ++ [id] else w.scratch u k
      else w.scratch u }

theorem mem_added {w : World} {kind : ScratchKind} {id k : String} :
    k ∈ (w.added r kind id).scratch r kind ↔ k ∈ w.scratch r kind ∨ k = id := by
  simp only [World.added, if_true, true_and]
  split_ifs with hold
  · exact ⟨.inl, fun h => h.elim (fun hk => hk) fun hk => hk ▸ hold⟩
  · rw [List.mem_append, List.mem_singleton]

theorem scratch_added_of_ne {w : World} {kind k : ScratchKind} (hk : k ≠ kind) (id : String) :
    (w.added r kind id).scratch r k = w.scratch r k := by
  simp [World.added, hk]

theorem Listing.added {round : AuditRound} {w : World} (h : Listing d r start b round w)
    {id : String} (hid : id ∈ d.ids) : Listing d r start b round (w.added r .live id) := by
  obtain ⟨hround, hrows⟩ := h
  refine ⟨⟨hround.phase, hround.restored, ?_, ?_, hround.passed.mono (fun k hk => ?_) fun k hk => ?_,
    hround.tombstones, hround.confirmations⟩, hrows.rows, hrows.buried, hrows.revived⟩
  · rw [scratch_added_of_ne (show ScratchKind.candidate ≠ .live by decide), hround.candidate]
  · rw [scratch_added_of_ne (show ScratchKind.known ≠ .live by decide), hround.known]
  · exact mem_added.mpr (.inl hk)
  · rcases mem_added.mp hk with hold | rfl
    · exact hround.passed.listed k hold
    · exact hid

/-- Gathering the ids of a page leaves a round that lists as it is. -/
theorem spec_gather {round : AuditRound} {items : List Json} {es : List (String × String)}
    (h : List.Forall₂ Names items es) (hes : ∀ e ∈ es, e.1 ∈ d.ids)
    (done : List (String × String)) :
    Spec (fun w => Listing d r start b round w ∧ ∀ e ∈ done, e.1 ∈ w.scratch r .live)
      (forEach (fun item => do addScratch r .live (← ofPy (scratchId item))) items)
      (fun _ w => Listing d r start b round w ∧ ∀ e ∈ done ++ es, e.1 ∈ w.scratch r .live)
      fun _ _ => False := by
  induction h generalizing done with
  | nil =>
      rw [List.append_nil]
      exact Spec.pure fun _ hw => hw
  | @cons item e items es hnames hrest ih =>
      have hids := hes e (by simp)
      simp only [forEach, hnames.scratchId, ofPy, pure_bind]
      refine Spec.bind ?_ fun _ => (ih (fun e' he' => hes e' (by simp [he'])) (done ++ [e])).conseq
        (fun _ hw => hw) (fun _ _ hw => ?_) fun _ _ hw => hw
      · refine Spec.modify fun w hw => ⟨hw.1.added hids, fun e' he' => mem_added.mpr ?_⟩
        rcases List.mem_append.mp he' with hold | hnew
        · exact .inl (hw.2 e' hold)
        · exact .inr (by rw [List.mem_singleton.mp hnew])
      · rwa [List.append_assoc] at hw

/-- The state once a completed listing has been settled. -/
def World.settled (w : World) (r : Res) : World :=
  let w' := w.dropped r .candidate (w.scratch r .live)
  w'.dropped r .live (w'.scratch r .known)

/-- With the whole list gathered, what is left is the lost candidates and the unknown ids. -/
theorem Listing.settled {round : AuditRound} {w : World} (h : Listing d r start b round w)
    (hlive : ∀ id, id ∈ w.scratch r .live ↔ id ∈ d.ids) :
    Underway d r start b 0 (w.settled r) := by
  obtain ⟨hround, hrows⟩ := h
  have hcandidate : ∀ id, id ∈ (w.settled r).scratch r .candidate ↔ Lost d r start id := by
    intro id
    have hset : (w.settled r).scratch r .candidate =
        (w.scratch r .candidate).filter (· ∉ w.scratch r .live) := by
      simp [World.settled, scratch_dropped]
    rw [hset, List.mem_filter, hround.candidate, Lost, Db.mem_select, decide_eq_true_eq, hlive,
      Db.isLive_iff]
    simp only [Row.live, Option.isNone_iff_eq_none]
  have hunknown : ∀ id, id ∈ (w.settled r).scratch r .live ↔ Unknown d r start id := by
    intro id
    have hset : (w.settled r).scratch r .live =
        (w.scratch r .live).filter (· ∉ w.scratch r .known) := by
      simp [World.settled, scratch_dropped]
    rw [hset, List.mem_filter, hround.known, Unknown, decide_eq_true_eq, Db.mem_select, hlive]
    simp only [and_true, not_exists, ← Option.eq_none_iff_forall_ne_some]
  have htombstones : (w.settled r).tombstones = [] := hround.tombstones
  have hconfirmations : (w.settled r).confirmations = [] := hround.confirmations
  refine ⟨⟨fun id => (hcandidate id).mp, fun id => (hunknown id).mp, fun t id reason => ?_,
    fun t id hid => ?_, ⟨[], rfl, List.nodup_nil, List.forall_mem_nil _, fun id hid _ hout =>
      absurd ((hunknown id).mpr hid) hout⟩, Nat.zero_le _⟩, hrows.rows, hrows.buried, hrows.revived⟩
  · rw [htombstones, hcandidate]
    exact ⟨fun h => absurd h List.not_mem_nil, fun h => absurd h.2.2.1 h.2.2.2.2⟩
  · rw [hconfirmations] at hid
    cases hid

/-- The state once a round has been saved. -/
def World.saved (w : World) (r : Res) (round : AuditRound) : World :=
  { w with auditRound := fun u => if u = r then some round else w.auditRound u }

theorem Listing.saved {round : AuditRound} {w : World} (h : Listing d r start b round w)
    (held : AuditRound) : Listing d r start b round (w.saved r held) :=
  ⟨⟨h.1.phase, h.1.restored, h.1.candidate, h.1.known, h.1.passed, h.1.tombstones,
    h.1.confirmations⟩, h.2.rows, h.2.buried, h.2.revived⟩

theorem Underway.saved {n : ℕ} {w : World} (h : Underway d r start b n w) (held : AuditRound) :
    Underway d r start b n (w.saved r held) := by
  obtain ⟨ids, hlength, hids⟩ := h.1.restored
  exact ⟨⟨h.1.candidate, h.1.live, h.1.tombstones, h.1.confirmations,
    ⟨ids, hlength, hids.nodup, hids.sound, hids.complete⟩, h.1.limit⟩, h.2.rows, h.2.buried,
    h.2.revived⟩

/-- A round that lists goes on from wherever it has passed. -/
theorem Listing.repositioned {round next : AuditRound} {w : World}
    (h : Listing d r start b round w) (hphase : next.phase = .enumerate)
    (hrestored : next.restored = 0) (hpassed : Passed d next (w.scratch r .live)) :
    Listing d r start b next w :=
  ⟨⟨hphase, hrestored, h.1.candidate, h.1.known, hpassed, h.1.tombstones, h.1.confirmations⟩, h.2⟩

/-- A page leaves a round that lists with less to list, or with its sets to work off. -/
theorem spec_enumeratePage (hserves : d.Serves env r) {round : AuditRound}
    (hmode : round.mode.isSome = true) :
    Spec (Listing d r start b round) (enumeratePage env r round)
      (Pass.Holds
        (fun next w => Listing d r start b next w ∧ next.mode.isSome = true ∧
          d.left next < d.left round)
        fun next w => Underway d r start b 0 w ∧ next.phase = .confirm ∧ next.restored = 0)
      fun _ _ => False := by
  refine spec_answer_bind (stable_listing round) fun tick => ?_
  obtain ⟨status, body, items, hrespond, -, -, hdata, hitems⟩ :=
    hserves.listing tick round.query rfl
  refine ⟨_, hrespond, ?_⟩
  simp only [document_of_member? hdata, dataOf_of_member? hdata, pyItems, ofPy, pure_bind]
  refine Spec.bind ((spec_gather hitems (fun e he => List.mem_map_of_mem
    (Directory.mem_entries_of_page he)) []).conseq (fun w hw => ⟨hw, List.forall_mem_nil _⟩)
    (fun _ _ hw => hw) fun _ _ hw => hw) fun _ => ?_
  rw [List.nil_append]
  refine spec_ofPy_bind (fun turned hturned => ?_) fun e w he hw => ?_
  · cases turned with
    | none =>
        refine Spec.bind (Spec.modify fun w hw => ?_) fun _ => Spec.pure fun _ hw => hw
        obtain ⟨turned, hturned', hback, -⟩ := hw.1.1.passed.turn hitems hw.2
        obtain rfl := Except.ok.inj (hturned.symm.trans hturned')
        obtain ⟨hpassed, hless⟩ := hback rfl
        have hnext : Listing d r start b round.fallBack w :=
          hw.1.repositioned hw.1.1.phase hw.1.1.restored hpassed
        exact ⟨hnext.saved _, rfl, hless⟩
    | some next =>
        obtain ⟨hphase, hmode', hrestored⟩ := turnPage_keeps hitems hturned
        refine Spec.ite (fun hshort => ?_) fun hfull => ?_
        · have hsettle : Spec (fun w => Listing d r start b round w ∧
              ∀ e ∈ d.page round.query, e.1 ∈ w.scratch r .live) (settleScratch r)
              (fun _ w => Underway d r start b 0 w ∧ round.restored = 0) fun _ _ => False := by
            intro w hw
            obtain ⟨turned, -, -, hcomplete, -⟩ := hw.1.1.passed.turn hitems hw.2
            exact ⟨hw.1.settled (hcomplete hshort), hw.1.1.restored⟩
          exact Spec.bind hsettle fun _ => Spec.pure fun w hw =>
            ⟨hw.1, rfl, hrestored.trans hw.2⟩
        · refine Spec.bind (Spec.modify fun w hw => ?_) fun _ => Spec.pure fun _ hw => hw
          obtain ⟨turned, hturned', -, -, honward⟩ := hw.1.1.passed.turn hitems hw.2
          obtain ⟨hpassed, hless⟩ :=
            honward next (Except.ok.inj (hturned'.symm.trans hturned)) hfull
          have hnext : Listing d r start b next w := hw.1.repositioned
            (hphase.trans hw.1.1.phase) (hrestored.trans hw.1.1.restored) hpassed
          exact ⟨hnext.saved _, hmode'.symm ▸ hmode, hless⟩
  · obtain ⟨turned, hturned, -⟩ := hw.1.1.passed.turn hitems hw.2
    cases hturned.symm.trans he

/-- A unit's listing has come to the end of the list, or has spent its budget on it. -/
def Enumerated (d : Directory) (r : Res) (start : Db) (b : World) (m : ℕ) (q : ℕ × AuditRound)
    (w : World) : Prop :=
  (Underway d r start b 0 w ∧ q.2.phase = .confirm ∧ q.2.restored = 0) ∨
    (q.2.mode.isSome = true ∧ Listing d r start b q.2 w ∧ d.left q.2 < m)

theorem spec_enumerate (hserves : d.Serves env r) {budget m : ℕ} {round : AuditRound}
    (hmode : round.mode.isSome = true) (hleft : d.left round < m + budget) :
    Spec (Listing d r start b round) (enumerate env r budget round)
      (Enumerated d r start b m) fun _ _ => False := by
  induction budget generalizing round with
  | zero => exact Spec.pure fun w hw => .inr ⟨hmode, hw, hleft⟩
  | succ budget ih =>
      refine Spec.bind (spec_enumeratePage hserves hmode) fun p => ?_
      cases p with
      | leave next => exact Spec.pure fun w hw => .inl hw
      | again next =>
          rintro w ⟨hw, hmode, hless⟩
          exact ih hmode (by omega) w hw

/-! ## Confirming -/

section

variable {n : ℕ} {id : String} {w w' : World}

theorem Underway.struck (h : Underway d r start b n w) (hid : id ∈ w.scratch r .candidate)
    (habsent : d.absent id = true) (hstruck : Struck r id w w') :
    Underway d r start b n (w'.dropped r .candidate [id]) := by
  have hrows := h.2.struck h.1 hid habsent hstruck
  exact ⟨h.1.struck hid habsent hstruck, hrows.rows, hrows.buried, hrows.revived⟩

theorem Underway.candidate_raised (h : Underway d r start b n w)
    (hid : id ∈ w.scratch r .candidate) (hpresent : d.absent id = false)
    (hraised : Raised r id w w') : Underway d r start b n (w'.dropped r .candidate [id]) := by
  have hrows := h.2.raised h.1 (.inl (h.1.candidate id hid)) hpresent hraised
  exact ⟨h.1.candidate_raised hid hpresent hraised, hrows.rows, hrows.buried, hrows.revived⟩

theorem Underway.live_raised (h : Underway d r start b n w) (hid : id ∈ w.scratch r .live)
    (hpresent : d.absent id = false) (hraised : Raised r id w w') (hlimit : n < auditRestoreLimit) :
    Underway d r start b (n + 1) (w'.dropped r .live [id]) := by
  have hrows := h.2.raised h.1 (.inr (h.1.live id hid)) hpresent hraised
  exact ⟨h.1.live_raised hid hpresent hraised hlimit, hrows.rows, hrows.buried, hrows.revived⟩

theorem Underway.live_absent (h : Underway d r start b n w) (habsent : d.absent id = true) :
    Underway d r start b n (w.dropped r .live [id]) :=
  ⟨h.1.live_absent habsent, h.2.rows, h.2.buried, h.2.revived⟩

end

theorem recordOf_of_member? {document record : Json} {status : ℕ}
    (h : document.member? "data" = some record) (htruthy : record.truthy = true) :
    recordOf ⟨status, .json document⟩ = .ok (some record) := by
  simp [recordOf, document_of_member? h, pyGet_of_member? h, htruthy, bind, Except.bind, pure,
    Except.pure]

theorem spec_nextScratch_bind {α : Type} {P : World → Prop} {kind : ScratchKind}
    {f : Option String → Proc α} {Q : α → World → Prop} {E : Halt → World → Prop}
    (hnone : Spec (fun w => P w ∧ w.scratch r kind = []) (f none) Q E)
    (hsome : ∀ id, Spec (fun w => P w ∧ id ∈ w.scratch r kind) (f (some id)) Q E) :
    Spec P (nextScratch r kind >>= f) Q E := by
  intro w hw
  have hrun : (nextScratch r kind).run w =
      .ok (Sql.sortIds (w.scratch r kind)).head? w := rfl
  rw [EStateM.run_bind, hrun]
  cases hhead : (Sql.sortIds (w.scratch r kind)).head? with
  | none =>
      refine hnone w ⟨hw, List.eq_nil_iff_forall_not_mem.mpr fun id hid => ?_⟩
      rw [List.head?_eq_none_iff] at hhead
      have hsorted := Sql.mem_sortIds.mpr hid
      rw [hhead] at hsorted
      cases hsorted
  | some id => exact hsome id w ⟨hw, Sql.mem_sortIds.mp (List.mem_of_head? hhead)⟩

/-- The answer about a candidate leaves it to be dropped. -/
theorem spec_confirmCandidate (hserves : d.Serves env r) (n : ℕ) {ids : List String} {id : String}
    (hid : id ∈ ids) (round : AuditRound) :
    Spec (fun w => Underway d r start b n w ∧ w.scratch r .candidate = ids)
      (confirmCandidate env r id round)
      (fun next w => (next.phase = round.phase ∧ next.restored = round.restored) ∧
        Underway d r start b n (w.dropped r .candidate [id]) ∧ w.scratch r .candidate = ids)
      fun _ _ => False := by
  have hstable : Stable r fun w => Underway d r start b n w ∧ w.scratch r .candidate = ids := by
    refine (stable_underway n).and fun w w' h hw => ?_
    rwa [h.scratch]
  refine spec_answer_bind hstable fun tick => ?_
  cases habsent : d.absent id with
  | true =>
      obtain ⟨body, hrespond⟩ := hserves.absent tick id [] habsent
      refine ⟨_, hrespond, Spec.bind (spec_tombstoneOne env id) fun _ => Spec.pure ?_⟩
      rintro w' ⟨w, ⟨hw, hids⟩, hstruck⟩
      exact ⟨⟨rfl, rfl⟩, hw.struck (hids ▸ hid) habsent hstruck, by rwa [hstruck.scratch]⟩
  | false =>
      obtain ⟨document, record, included, hrespond, hrecord, htruthy, -, -⟩ :=
        hserves.present tick id [] habsent
      refine ⟨_, hrespond, ?_⟩
      simp only [recordOf_of_member? hrecord htruthy, ofPy, pure_bind, whenSome]
      refine Spec.ite (fun h404 => absurd h404 (by decide)) fun _ =>
        Spec.ite (fun _ => ?_) fun hnot => absurd rfl hnot
      refine Spec.bind (spec_confirmLiveOne env id record .reconcile) fun _ => Spec.pure ?_
      rintro w' ⟨w, ⟨hw, hids⟩, hraised⟩
      exact ⟨⟨rfl, rfl⟩, hw.candidate_raised (hids ▸ hid) habsent hraised, by rwa [hraised.scratch]⟩

/-- A unit has asked for every candidate, or has spent its budget on some. -/
def Confirmed (d : Directory) (r : Res) (start : Db) (b : World) (n m : ℕ) (q : ℕ × AuditRound)
    (w : World) : Prop :=
  Underway d r start b n w ∧ q.2.restored = n ∧
    ((q.2.phase = .restore ∧ w.scratch r .candidate = []) ∨
      (q.2.phase = .confirm ∧ (w.scratch r .candidate).length < m))

theorem spec_confirm (hserves : d.Serves env r) (n : ℕ) {budget m : ℕ} {round : AuditRound}
    (hphase : round.phase = .confirm) (hrestored : round.restored = n) :
    Spec (fun w => Underway d r start b n w ∧ (w.scratch r .candidate).length < m + budget)
      (confirm env r budget round) (Confirmed d r start b n m) fun _ _ => False := by
  induction budget generalizing round with
  | zero => exact Spec.pure fun w hw => ⟨hw.1, hrestored, .inr ⟨hphase, hw.2⟩⟩
  | succ budget ih =>
      refine spec_nextScratch_bind
        (Spec.pure fun w hw => ⟨hw.1.1, hrestored, .inl ⟨rfl, hw.2⟩⟩) fun id w hw => ?_
      obtain ⟨⟨hw, hlength⟩, hid⟩ := hw
      refine Spec.bind (spec_confirmCandidate hserves n hid round) (fun next => ?_) w ⟨hw, rfl⟩
      rintro w' ⟨⟨hphase', hrestored'⟩, hw', hids⟩
      have hless := length_dropped_lt (hids.symm ▸ hid)
      rw [hids] at hless
      have hfewer : ((w'.dropped r .candidate [id]).scratch r .candidate).length < m + budget := by
        omega
      exact ih (hphase'.trans hphase) (hrestored'.trans hrestored) _ ⟨hw'.saved next, hfewer⟩

/-! ## Restoring -/

/-- Asking for a listed id leaves it to be dropped, restored where it answers. -/
theorem spec_restoreOne (hserves : d.Serves env r) {n : ℕ} (hlimit : n < auditRestoreLimit)
    {sets : ScratchKind → List String} {id : String} (hid : id ∈ sets .live) :
    Spec (fun w => Underway d r start b n w ∧ w.scratch r = sets) (restoreOne env r id)
      (fun restored w => Underway d r start b (n + if restored then 1 else 0)
        (w.dropped r .live [id]) ∧ w.scratch r = sets) fun _ _ => False := by
  have hstable : Stable r fun w => Underway d r start b n w ∧ w.scratch r = sets := by
    refine (stable_underway n).and fun w w' h hw => ?_
    rwa [h.scratch]
  refine spec_answer_bind hstable fun tick => ?_
  cases habsent : d.absent id with
  | true =>
      obtain ⟨body, hrespond⟩ := hserves.absent tick id r.info.includes habsent
      exact ⟨_, hrespond, Spec.ite (fun _ => Spec.pure fun w hw => ⟨hw.1.live_absent habsent, hw.2⟩)
        fun hnot => absurd rfl hnot⟩
  | false =>
      obtain ⟨document, record, included, hrespond, hrecord, htruthy, hincluded, hsideload⟩ :=
        hserves.present tick id r.info.includes habsent
      have haside : Aside r (routePage env 200
          (.obj [("data", .arr []), ("included", .arr included)]) .reconcile) := by
        refine aside_sideload fun doc hdoc => ?_
        obtain ⟨target, htarget, hmem⟩ := hsideload doc hdoc
        exact ⟨target, htarget, fun e he => sideloaded_apart r _ (hmem e he)⟩
      refine ⟨_, hrespond, Spec.ite nofun fun _ => ?_⟩
      simp only [recordOf_of_member? hrecord htruthy, document_of_member? hrecord, hincluded, ofPy,
        pure_bind]
      refine spec_aside_bind haside hstable fun _ => ?_
      refine Spec.bind (spec_confirmLiveOne env id record .reconcile) fun _ => Spec.pure ?_
      rintro w' ⟨w, ⟨hw, hsets⟩, hraised⟩
      refine ⟨hw.live_raised (by rw [hsets]; exact hid) habsent hraised hlimit, ?_⟩
      rw [hraised.scratch, hsets]

/-- What a round that has come to its end leaves of its exchanges. -/
structure Audited (d : Directory) (r : Res) (start : Db) (count : ℕ) (w : World) : Prop where
  tombstones : ∀ t id reason, (t, id, reason) ∈ w.tombstones ↔
    t = r ∧ reason = .auditAbsent ∧ Lost d r start id ∧ d.absent id = true
  restored : ∃ ids : List String, ids.length = count ∧ ids.Nodup ∧
    (∀ id ∈ ids, Unknown d r start id ∧ d.absent id = false ∧ (r, id) ∈ w.confirmations) ∧
    (count < auditRestoreLimit → ∀ id, Unknown d r start id → d.absent id = false → id ∈ ids)
  limit : count ≤ auditRestoreLimit

/-- A round whose candidates are all settled. -/
def Restoring (d : Directory) (r : Res) (start : Db) (b : World) (n : ℕ) (w : World) : Prop :=
  Underway d r start b n w ∧ w.scratch r .candidate = []

theorem Restoring.saved {n : ℕ} {w : World} (h : Restoring d r start b n w) (held : AuditRound) :
    Restoring d r start b n (w.saved r held) :=
  ⟨h.1.saved held, h.2⟩

theorem Restoring.audited {n : ℕ} {w : World} (h : Restoring d r start b n w)
    (hend : w.scratch r .live = [] ∨ auditRestoreLimit ≤ n) : Audited d r start n w := by
  obtain ⟨⟨hworking, -⟩, hcandidate⟩ := h
  obtain ⟨ids, hlength, hids⟩ := hworking.restored
  refine ⟨fun t id reason => ?_, ⟨ids, hlength, hids.nodup, fun id hid => ?_,
    fun hlimit id hunknown hpresent => ?_⟩, hworking.limit⟩
  · rw [hworking.tombstones, hcandidate]
    simp only [List.not_mem_nil, not_false_eq_true, and_true]
  · obtain ⟨hunknown, hpresent, hconfirmed, -⟩ := hids.sound id hid
    exact ⟨hunknown, hpresent, hconfirmed⟩
  · have hlive : w.scratch r .live = [] := hend.resolve_right (not_le.mpr hlimit)
    exact hids.complete id hunknown hpresent (by rw [hlive]; exact List.not_mem_nil)

/-- A unit of the round has ended it, or has saved where it goes on. -/
def RestoreEnd (d : Directory) (r : Res) (start : Db) (b : World) (m : ℕ) (outcome : AuditOutcome)
    (w : World) : Prop :=
  (outcome.done = true ∧ Audited d r start outcome.restored w ∧ RowsSince d r start b w ∧
      w.auditRound r = none) ∨
    (outcome.done = false ∧ ∃ round, w.auditRound r = some round ∧ round.phase = .restore ∧
      Restoring d r start b round.restored w ∧ (w.scratch r .live).length < m)

theorem spec_finishAudit {n : ℕ} (m : ℕ) (tombstoned : ℕ) :
    Spec (fun w => Restoring d r start b n w ∧ (w.scratch r .live = [] ∨ auditRestoreLimit ≤ n))
      (do finishAudit env r; return ⟨true, tombstoned, n⟩) (RestoreEnd d r start b m)
      fun _ _ => False := by
  intro w ⟨hw, hend⟩
  obtain ⟨htombstones, hrestored, hlimit⟩ := hw.audited hend
  have hrows := hw.1.2
  exact .inl ⟨rfl, ⟨htombstones, hrestored, hlimit⟩, ⟨hrows.rows, hrows.buried, hrows.revived⟩,
    if_pos rfl⟩

theorem spec_restore (hserves : d.Serves env r) {n budget m : ℕ} {round : AuditRound}
    (hphase : round.phase = .restore) (hrestored : round.restored = n) :
    Spec (fun w => Restoring d r start b n w ∧ w.auditRound r = some round ∧
        (w.scratch r .live).length < m + budget)
      (restore env r budget round) (RestoreEnd d r start b m) fun _ _ => False := by
  induction budget generalizing round n with
  | zero =>
      refine Spec.pure fun w hw => .inr ⟨rfl, round, hw.2.1, hphase, ?_, hw.2.2⟩
      rw [hrestored]
      exact hw.1
  | succ budget ih =>
      subst hrestored
      refine spec_nextScratch_bind ?_ fun id => Spec.ite (fun hlimit w hw => ?_) fun hlimit => ?_
      · exact (spec_finishAudit m round.tombstoned).conseq (fun w hw => ⟨hw.1.1, .inl hw.2⟩)
          (fun _ _ hw => hw) fun _ _ hw => hw
      · obtain ⟨⟨hw, -, hlength⟩, hid⟩ := hw
        refine Spec.bind (spec_restoreOne hserves hlimit hid) (fun restored => ?_) w ⟨hw.1, rfl⟩
        rintro w' ⟨hw', hsets⟩
        have hless := length_dropped_lt (hsets.symm ▸ hid)
        rw [hsets] at hless
        have hfewer : ((w'.dropped r .live [id]).scratch r .live).length < m + budget := by omega
        have hcandidate : (w'.dropped r .live [id]).scratch r .candidate = [] := by
          rw [scratch_dropped, if_neg nofun, hsets, hw.2]
        exact ih (by exact hphase) rfl _
          ⟨Restoring.saved ⟨hw', hcandidate⟩ _, if_pos rfl, hfewer⟩
      · exact (spec_finishAudit m round.tombstoned).conseq
          (fun w hw => ⟨hw.1.1, .inr (not_lt.mp hlimit)⟩) (fun _ _ hw => hw) fun _ _ hw => hw

end PcoMirror
