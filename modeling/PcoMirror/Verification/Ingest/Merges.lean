import PcoMirror.Verification.Writer.Merge

/-! Merges from the poll and from webhooks: what a call applies, statement by statement. -/

namespace PcoMirror

open Program

variable {env : Env} {m : Merge}

/-! ## Rows of a page -/

/-- A row is read, and a merge that is new is applied. -/
theorem run_pollOne (env : Env) (wm : String) (fresh : ℕ) (d : Json) (w : World) :
    (pollOne env wm fresh d).run w = match readMerger d with
      | .error e => .error (.raised e) w
      | .ok (createdAt, id) =>
        let wm := if wm < createdAt then createdAt else wm
        if (w.db.row? .personMerger id).isSome then .ok (wm, fresh) w
        else match polledMerge id d with
          | .error e => .error (.raised e) w
          | .ok m => (do
              m.apply env
              return (wm, fresh + 1)).run w := by
  have hnew : ∀ id, (mergerIsNew id).run w = .ok (w.db.row? .personMerger id).isNone w :=
    fun _ => rfl
  unfold pollOne
  cases ha : pyItem d "attributes" with
  | error e => simp [readMerger, ha, bind, Except.bind]; rfl
  | ok a =>
      cases htime : itemTime "created_at" d with
      | error e => simp [readMerger, ha, htime, bind, Except.bind]; rfl
      | ok createdAt =>
          cases hid : idOf d with
          | error e => simp [readMerger, ha, htime, hid, bind, Except.bind]; rfl
          | ok id =>
              have hread : readMerger d = .ok (createdAt, id) := by
                simp [readMerger, ha, htime, hid, bind, Except.bind, pure, Except.pure]
              simp only [hread, ofPy_ok_bind]
              rw [run_bind_of_ok (hnew id)]
              cases w.db.row? .personMerger id with
              | some row => rfl
              | none =>
                  cases hkeep : pyItem a "person_to_keep_id" with
                  | error e => simp [polledMerge, ha, hkeep, bind, Except.bind]; rfl
                  | ok keep =>
                      cases hgone : pyItem a "person_to_remove_id" <;>
                        simp [polledMerge, ha, hkeep, hgone, bind, Except.bind, pure, Except.pure] <;>
                        rfl

/-! ## An application -/

theorem run_apply (env : Env) (m : Merge) (w : World) :
    (m.apply env).run w = .ok () (w.after (m.apply env)) := rfl

theorem row?_upTo_merger (env : Env) (m : Merge) {k : ℕ} (hk : k < 3) (w : World) (id : String) :
    (w.after (m.upTo env k)).db.row? .personMerger id = w.db.row? .personMerger id := by
  have hbury : ∀ now, (tombstone .person m.gone none .merged (some m.keep) now w.db).row?
      .personMerger id = w.db.row? .personMerger id := by
    intro now
    rw [row?_tombstone_unowned ownedFk_personMerger]
    simp
  match k with
  | 0 => rfl
  | 1 => exact hbury _
  | 2 => exact hbury _

/-- What a merge that was new leaves in the merger log. -/
theorem row?_apply_merger (env : Env) (m : Merge) (w : World)
    (hnew : w.db.row? .personMerger m.id = none) (id : String) :
    (w.after (m.apply env)).db.row? .personMerger id =
      if id = m.id then some (Row.fresh m.raw ⟨m.source, env.apiVersion, env.now (w.tick + 2)⟩)
      else w.db.row? .personMerger id := by
  have hqueued := row?_upTo_merger env m (show 2 < 3 by omega) w
  change (if ((w.after (m.upTo env 2)).db.row? .personMerger m.id).isSome then
      { w.after (m.upTo env 2) with tick := (w.after (m.upTo env 2)).tick + 1 } else
      { w.after (m.upTo env 2) with
        tick := (w.after (m.upTo env 2)).tick + 1
        db := (w.after (m.upTo env 2)).db.put .personMerger m.id
          (Row.fresh m.raw ⟨m.source, env.apiVersion, env.now (w.tick + 2)⟩) } :
      World).db.row? .personMerger id = _
  rw [hqueued, hnew]
  simp only [Option.isSome_none, Bool.false_eq_true, if_false, Db.row?_put, true_and, hqueued]

theorem polledMerge_id {id : String} {d : Json} (h : polledMerge id d = .ok m) : m.id = id := by
  obtain ⟨a, -, h⟩ := except_bind_eq_ok.mp h
  obtain ⟨keep, -, h⟩ := except_bind_eq_ok.mp h
  obtain ⟨gone, -, h⟩ := except_bind_eq_ok.mp h
  cases h
  rfl

theorem idOf_of_readMerger {d : Json} {read : String × String} (h : readMerger d = .ok read) :
    idOf d = .ok read.2 := by
  obtain ⟨a, -, h⟩ := except_bind_eq_ok.mp h
  obtain ⟨createdAt, -, h⟩ := except_bind_eq_ok.mp h
  obtain ⟨id, hid, h⟩ := except_bind_eq_ok.mp h
  cases h
  exact hid

/-! ## What a call applies -/

def World.knowsMerge (w : World) (id : String) : Prop :=
  (w.db.row? .personMerger id).isSome = true

/-- From the first state to the last, these merges were applied, each where it was new, and
nothing else was done to the tables and the queue. -/
inductive Applied (w : World) : List Merge → World → Prop where
  | start : Applied w [] w
  | aside {ms : List Merge} {w₁ w₂ : World} : Applied w ms w₁ → w₂.db = w₁.db →
      w₂.hydration = w₁.hydration → w₂.tombstones = w₁.tombstones → Applied w ms w₂
  | merge {ms : List Merge} {w₁ : World} (env : Env) (m : Merge) : Applied w ms w₁ →
      ¬ w₁.knowsMerge m.id → Applied w (ms ++ [m]) (w₁.after (m.apply env))

theorem Applied.trans {w w₁ w₂ : World} {ms ms' : List Merge} (h : Applied w ms w₁)
    (h' : Applied w₁ ms' w₂) : Applied w (ms ++ ms') w₂ := by
  induction h' with
  | start => simpa using h
  | aside _ hdb hhydration htombstones ih => exact ih.aside hdb hhydration htombstones
  | merge env m _ hnew ih =>
      rw [← List.append_assoc]
      exact ih.merge env m hnew

/-- Exactly the merges applied are known that were not, and none was applied twice. -/
theorem Applied.ids {w w' : World} {ms : List Merge} (h : Applied w ms w') :
    (ms.map Merge.id).Nodup ∧
      ∀ id, w'.knowsMerge id ↔ w.knowsMerge id ∨ id ∈ ms.map Merge.id := by
  induction h with
  | start => simp
  | aside _ hdb _ _ ih =>
      refine ⟨ih.1, fun id => ?_⟩
      rw [World.knowsMerge, hdb]
      exact ih.2 id
  | @merge ms w₁ env m _ hnew ih =>
      have habsent : w₁.db.row? .personMerger m.id = none := by
        simpa [World.knowsMerge] using hnew
      have hfresh : m.id ∉ ms.map Merge.id := fun hmem => hnew ((ih.2 m.id).mpr (.inr hmem))
      refine ⟨?_, fun id => ?_⟩
      · rw [List.map_append, List.nodup_append]
        refine ⟨ih.1, by simp, ?_⟩
        rintro a ha b hb rfl
        obtain rfl : a = m.id := by simpa using hb
        exact hfresh ha
      · have hlog := row?_apply_merger env m w₁ habsent id
        rw [World.knowsMerge, hlog, List.map_append, List.mem_append, ← or_assoc, ← ih.2 id]
        by_cases hid : id = m.id
        · simp [hid]
        · simp [hid, World.knowsMerge]

theorem Applied.knows {w w' : World} {ms : List Merge} (h : Applied w ms w') {id : String}
    (hknown : w.knowsMerge id) : w'.knowsMerge id :=
  (h.ids.2 id).mpr (.inl hknown)

theorem Applied.fresh {w w' : World} {ms : List Merge} (h : Applied w ms w') :
    ∀ id ∈ ms.map Merge.id, ¬ w.knowsMerge id := by
  induction h with
  | start => simp
  | aside _ _ _ _ ih => exact ih
  | @merge ms w₁ env m happlied hnew ih =>
      intro id hid
      rcases List.mem_append.mp (List.map_append ▸ hid) with hid | hid
      · exact ih id hid
      · obtain rfl : id = m.id := by simpa using hid
        exact fun hknown => hnew (happlied.knows hknown)

/-- However the program ends, it has only applied merges that were new. -/
def Applies {α : Type} (p : Proc α) : Prop :=
  ∀ w, Keeps (fun w' => ∃ ms, Applied w ms w') p

variable {α β : Type}

theorem Applies.bind {p : Proc α} {f : α → Proc β} (hp : Applies p) (hf : ∀ a, Applies (f a)) :
    Applies (p >>= f) :=
  fun w => Keeps.bind (hp w) fun a => hf a w

theorem applies_pure (a : α) : Applies (pure a : Proc α) :=
  fun _ => Keeps.pure a

theorem applies_ofPy (e : Except PyError α) : Applies (ofPy e) := by
  cases e with
  | ok a => exact applies_pure a
  | error e => exact fun _ => Keeps.throw _

theorem applies_modify {f : World → World} (hdb : ∀ w, (f w).db = w.db)
    (hhydration : ∀ w, (f w).hydration = w.hydration)
    (htombstones : ∀ w, (f w).tombstones = w.tombstones) :
    Applies (modify f : Proc PUnit) :=
  fun _ => Keeps.modify fun w' ⟨ms, h⟩ =>
    ⟨ms, h.aside (hdb w') (hhydration w') (htombstones w')⟩

theorem applies_clientGet (env : Env) (request : Request) : Applies (clientGet env request) := by
  rintro w w' ⟨ms, h⟩
  rw [clientGet_run]
  have hasked : Applied w ms (w'.asked env request) := h.aside rfl rfl rfl
  cases env.respond w'.tick request <;> exact ⟨ms, hasked⟩

theorem applies_pollOne (env : Env) (wm : String) (fresh : ℕ) (d : Json) :
    Applies (pollOne env wm fresh d) := by
  rintro w w' ⟨ms, h⟩
  rw [run_pollOne]
  cases readMerger d with
  | error e => exact ⟨ms, h⟩
  | ok read =>
      by_cases hknown : w'.knowsMerge read.2
      · rw [World.knowsMerge] at hknown
        simp only [hknown, if_true]
        exact ⟨ms, h⟩
      · have hnew := hknown
        rw [World.knowsMerge] at hnew
        simp only [hnew, Bool.false_eq_true, if_false]
        cases hpolled : polledMerge read.2 d with
        | error e => exact ⟨ms, h⟩
        | ok m =>
            have hid := polledMerge_id hpolled
            simp only [run_bind_of_ok (run_apply env m w')]
            exact ⟨_, h.merge env m (hid ▸ hknown)⟩

theorem applies_pollPage (env : Env) (wm : String) (fresh : ℕ) (items : List Json) :
    Applies (pollPage env wm fresh items) := by
  induction items generalizing wm fresh with
  | nil => exact applies_pure _
  | cons d rest ih => exact (applies_pollOne env wm fresh d).bind fun p => ih p.1 p.2

theorem applies_pollRound (env : Env) (p : PollPass) : Applies (pollRound env p) := by
  refine (applies_clientGet env _).bind fun resp => (applies_ofPy _).bind fun body =>
    (applies_ofPy _).bind fun data => fun w => ?_
  refine Spec.ite (fun _ => Keeps.pure _) fun _ => ?_
  refine Keeps.bind (applies_ofPy _ w) fun items =>
    Keeps.bind (applies_pollPage env p.wm 0 items w) fun q => ?_
  have hset : Applies (setState .personMerger fun st => { st with mergerWatermark := q.1 }) :=
    applies_modify (fun _ => rfl) (fun _ => rfl) fun _ => rfl
  exact Keeps.bind (hset w) fun _ => Spec.ite (fun _ => Keeps.pure _) fun _ => Keeps.pure _

theorem applies_mergerPoll (env : Env) (fuel : ℕ) : Applies (mergerPoll env fuel) :=
  fun w => Keeps.bind (Keeps.bind Keeps.get fun _ => Keeps.pure _) fun st =>
    Keeps.whileTrue (fun p => applies_pollRound env p w) fuel ⟨st.mergerWatermark, 0⟩

/-! ## A poll that returns -/

/-- The rows of a page of mergers. -/
def Response.mergers (resp : Response) : List Json :=
  match resp.document >>= dataOf >>= pyItems with
  | .ok items => items
  | .error _ => []

theorem exchanges_apply (env : Env) (m : Merge) (w : World) :
    (w.after (m.apply env)).exchanges = w.exchanges := by
  change World.exchanges (if _ then _ else _ : World) = _
  split_ifs <;> rfl

theorem sync_apply (env : Env) (m : Merge) (w : World) :
    (w.after (m.apply env)).sync = w.sync := by
  change World.sync (if _ then _ else _ : World) = _
  split_ifs <;> rfl

/-- A row that was read was known, or its merge was applied. -/
theorem pollOne_cases {wm : String} {fresh : ℕ} {d : Json} {w w' : World} {q : String × ℕ}
    (hrun : (pollOne env wm fresh d).run w = .ok q w') :
    ∃ createdAt id, readMerger d = .ok (createdAt, id) ∧
      q.1 = (if wm < createdAt then createdAt else wm) ∧
      ((w.knowsMerge id ∧ w' = w) ∨ ¬ w.knowsMerge id ∧ ∃ m : Merge, m.id = id ∧
        w' = w.after (m.apply env)) := by
  rw [run_pollOne] at hrun
  cases hread : readMerger d with
  | error e => simp only [hread] at hrun; cases hrun
  | ok read =>
      simp only [hread] at hrun
      refine ⟨read.1, read.2, rfl, ?_⟩
      by_cases hknown : w.knowsMerge read.2
      · have hsome := hknown
        rw [World.knowsMerge] at hsome
        simp only [hsome, if_true] at hrun
        cases hrun
        exact ⟨rfl, .inl ⟨hknown, rfl⟩⟩
      · have hnone := hknown
        rw [World.knowsMerge] at hnone
        simp only [hnone, Bool.false_eq_true, if_false] at hrun
        cases hpolled : polledMerge read.2 d with
        | error e => simp only [hpolled] at hrun; cases hrun
        | ok m =>
            simp only [hpolled, run_bind_of_ok (run_apply env m w)] at hrun
            cases hrun
            exact ⟨rfl, .inr ⟨hknown, m, polledMerge_id hpolled, rfl⟩⟩

theorem pollOne_sync {wm : String} {fresh : ℕ} {d : Json} {w w' : World} {q : String × ℕ}
    (hrun : (pollOne env wm fresh d).run w = .ok q w') : w'.sync = w.sync := by
  obtain ⟨-, id, -, -, ⟨-, rfl⟩ | ⟨-, m, -, rfl⟩⟩ := pollOne_cases hrun
  · rfl
  · exact sync_apply env m w

/-- A row that was read is known from there on. -/
theorem pollOne_knows {wm : String} {fresh : ℕ} {d : Json} {w w' : World} {q : String × ℕ}
    (hrun : (pollOne env wm fresh d).run w = .ok q w') :
    w'.exchanges = w.exchanges ∧ (∀ id, w.knowsMerge id → w'.knowsMerge id) ∧
      ∀ id, idOf d = .ok id → w'.knowsMerge id := by
  obtain ⟨createdAt, id, hread, -, hcases⟩ := pollOne_cases hrun
  have hid := idOf_of_readMerger hread
  obtain ⟨hknown, rfl⟩ | ⟨hnew, m, rfl, rfl⟩ := hcases
  · refine ⟨rfl, fun _ h => h, fun id' hid' => ?_⟩
    cases hid.symm.trans hid'
    exact hknown
  · have happlied := Applied.start.merge env m hnew
    refine ⟨exchanges_apply env m w, fun _ => happlied.knows, fun id' hid' => ?_⟩
    cases hid.symm.trans hid'
    exact (happlied.ids.2 _).mpr (.inr (by simp))

theorem pollPage_knows {wm : String} {fresh : ℕ} {items : List Json} {w w' : World}
    {q : String × ℕ} (hrun : (pollPage env wm fresh items).run w = .ok q w') :
    w'.exchanges = w.exchanges ∧ (∀ id, w.knowsMerge id → w'.knowsMerge id) ∧
      ∀ d ∈ items, ∀ id, idOf d = .ok id → w'.knowsMerge id := by
  induction items generalizing wm fresh w with
  | nil =>
      cases hrun
      exact ⟨rfl, fun _ h => h, by simp⟩
  | cons d items ih =>
      obtain ⟨p, w₁, hone, hrest⟩ := run_bind_eq_ok.mp hrun
      obtain ⟨hexchanges, hkept, hd⟩ := pollOne_knows hone
      obtain ⟨hexchanges', hkept', hitems⟩ := ih hrest
      refine ⟨hexchanges'.trans hexchanges, fun id h => hkept' id (hkept id h), ?_⟩
      intro d' hd' id hid
      rcases List.mem_cons.mp hd' with rfl | hd'
      · exact hkept' id (hd id hid)
      · exact hitems d' hd' id hid

/-- Every merge that was answered since `w` is known. -/
def HasRecorded (w w' : World) : Prop :=
  ∃ since, w'.exchanges = since ++ w.exchanges ∧ ∀ request resp, (request, .ok resp) ∈ since →
    ∀ d ∈ resp.mergers, ∀ id, idOf d = .ok id → w'.knowsMerge id

theorem HasRecorded.after {w w₁ w₂ : World} (h : HasRecorded w w₁)
    (hexchanges : w₂.exchanges = w₁.exchanges) (hkept : ∀ id, w₁.knowsMerge id → w₂.knowsMerge id) :
    HasRecorded w w₂ := by
  obtain ⟨since, hsince, hknown⟩ := h
  exact ⟨since, hexchanges.trans hsince, fun request resp hmem d hd id hid =>
    hkept id (hknown request resp hmem d hd id hid)⟩

theorem pyItems_of_not_truthy {data : Json} (h : data.truthy = false) {items : List Json}
    (hitems : pyItems data = .ok items) : items = [] := by
  cases data <;> simp_all [pyItems, Json.truthy]

/-- The page a round asks for. -/
def PollPass.request (p : PollPass) : Request :=
  .collection .personMerger {
    order := some "created_at"
    gte := if p.wm = "" then none else some ("created_at", p.wm) }

/-- What is left of a round once its page is read. -/
def pollItems (env : Env) (p : PollPass) (items : List Json) : Proc (Pass PollPass ℕ) := do
  let (wm, fresh) ← pollPage env p.wm 0 items
  setState .personMerger fun st => { st with mergerWatermark := wm }
  if items.length < 100 ∨ (fresh = 0 ∧ wm = p.wm) then return .leave (p.applied + fresh)
  return .again ⟨wm, p.applied + fresh⟩

theorem pollRound_eq (env : Env) (p : PollPass) :
    pollRound env p = (do
      let resp ← clientGet env p.request
      let body ← ofPy resp.document
      let data ← ofPy (dataOf body)
      if !data.truthy then return .leave p.applied
      let items ← ofPy (pyItems data)
      pollItems env p items) := rfl

/-- A round that returns has left known all that its page lists. -/
theorem clientGet_asked {env : Env} {request : Request} {w w' : World} {resp : Response}
    (h : (clientGet env request).run w = .ok resp w') :
    env.respond w.tick request = .ok resp ∧ w' = w.asked env request := by
  rw [clientGet_run] at h
  cases hanswer : env.respond w.tick request with
  | error e => simp only [hanswer] at h; cases h
  | ok resp' =>
      simp only [hanswer] at h
      cases h
      exact ⟨rfl, rfl⟩

theorem spec_pollRound (env : Env) (w : World) (p : PollPass) :
    Spec (HasRecorded w) (pollRound env p)
      (Pass.Holds (fun _ => HasRecorded w) fun _ => HasRecorded w) fun _ _ => True := by
  intro w₁ h
  cases hrun : (pollRound env p).run w₁ with
  | error e w₂ => exact trivial
  | ok pass w' =>
      obtain ⟨resp, w₂, hget, hrest⟩ := run_bind_eq_ok.mp hrun
      change (clientGet env p.request).run w₁ = .ok resp w₂ at hget
      obtain ⟨hanswer, hw₂⟩ := clientGet_asked hget
      obtain ⟨body, w₃, hbodyRun, hrest⟩ := run_bind_eq_ok.mp hrest
      obtain ⟨hbody, hw₃⟩ := run_ofPy_eq_ok.mp hbodyRun
      obtain ⟨data, w₄, hdataRun, hrest⟩ := run_bind_eq_ok.mp hrest
      obtain ⟨hdata, hw₄⟩ := run_ofPy_eq_ok.mp hdataRun
      rw [hw₄, hw₃, hw₂] at hrest
      clear hrun hget hbodyRun hdataRun hw₄ hw₃ hw₂
      have hmergers : ∀ items, pyItems data = .ok items → resp.mergers = items := by
        intro items hitems
        simp [Response.mergers, hbody, hdata, hitems, bind, Except.bind]
      have hnone : data.truthy = false → resp.mergers = [] := by
        intro hdata'
        simp only [Response.mergers, hbody, bind, Except.bind, hdata]
        cases hitems : pyItems data with
        | error e => rfl
        | ok items => exact pyItems_of_not_truthy hdata' hitems
      -- What is left to show of the page just answered.
      have hpage : ∀ w', w'.exchanges = (w₁.asked env p.request).exchanges → (∀ id, w₁.knowsMerge id → w'.knowsMerge id) →
          (∀ d ∈ resp.mergers, ∀ id, idOf d = .ok id → w'.knowsMerge id) → HasRecorded w w' := by
        intro w' hexchanges hkept hd
        obtain ⟨since, hsince, hknown⟩ := h
        refine ⟨(p.request, env.respond w₁.tick p.request) :: since, ?_, ?_⟩
        · rw [hexchanges, List.cons_append, ← hsince]
          rfl
        · intro request resp' hmem
          rcases List.mem_cons.mp hmem with heq | hmem
          · obtain ⟨-, heq⟩ := Prod.mk.inj heq
            rw [hanswer] at heq
            cases heq
            exact hd
          · intro d hd' id hid
            exact hkept id (hknown request resp' hmem d hd' id hid)
      by_cases htruthy : data.truthy
      · simp only [htruthy, Bool.not_true, Bool.false_eq_true, if_false] at hrest
        obtain ⟨items, w₅, hitemsRun, hrest⟩ := run_bind_eq_ok.mp hrest
        obtain ⟨hitems, hw₅⟩ := run_ofPy_eq_ok.mp hitemsRun
        rw [hw₅] at hrest
        obtain ⟨q, w₆, hread, hrest⟩ := run_bind_eq_ok.mp hrest
        obtain ⟨hexchanges, hkept, hd⟩ := pollPage_knows hread
        obtain ⟨⟨⟩, w₇, hset, hrest⟩ := run_bind_eq_ok.mp hrest
        have hrecorded := hpage _ (hexchanges.trans rfl) hkept (hmergers items hitems ▸ hd)
        cases hset
        split_ifs at hrest <;> cases hrest <;> exact hrecorded.after rfl fun _ hknown => hknown
      · have hfalse : data.truthy = false := by simpa using htruthy
        simp only [hfalse, Bool.not_false, if_true] at hrest
        cases hrest
        exact hpage _ rfl (fun _ hknown => hknown) (by simp [hnone hfalse])

theorem mergerPoll_records {fuel n : ℕ} {w w' : World}
    (hrun : (mergerPoll env fuel).run w = .ok n w') : HasRecorded w w' := by
  have hpoll : Spec (HasRecorded w) (mergerPoll env fuel) (fun _ => HasRecorded w)
      fun _ _ => True :=
    Spec.bind (Spec.bind (Spec.get fun _ h => h) fun _ => Spec.pure fun _ h => h) fun st =>
      Spec.whileTrue (fun _ => HasRecorded w) (spec_pollRound env w) (fun _ _ _ => trivial) fuel
        ⟨st.mergerWatermark, 0⟩
  exact hpoll.ok ⟨[], rfl, by simp⟩ hrun

/-! ## Deliveries -/

/-- The payload of a delivery carries a merge's own id and both people. -/
structure Carries (payload : Json) (m : Merge) : Prop where
  own : ∃ v, payload.member? "id" = some v ∧ v.truthy = true
  id_eq : idOf payload = .ok m.id
  keep_eq : mergePerson ((payload.member? "attributes").getD (.obj [])) "person_to_keep_id" =
    .ok (some m.keep)
  gone_eq : mergePerson ((payload.member? "attributes").getD (.obj [])) "person_to_remove_id" =
    .ok (some m.gone)
  raw_eq : m.raw = payload
  source_eq : m.source = .webhook

/-- A merge that is new is applied, and one that is known is not. -/
theorem run_handleMerge {payload : Json} (h : Carries payload m) (env : Env) (w : World) :
    (handleMerge env payload).run w =
      if (w.db.row? .personMerger m.id).isSome then .ok () w else (m.apply env).run w := by
  obtain ⟨v, hv, htruthy⟩ := h.own
  have hget : ∀ key, pyGet payload key = .ok (payload.member? key) := by
    intro key
    cases payload with
    | obj members => rfl
    | _ => cases hv
  have hid : mergerId payload (some m.keep) (some m.gone) = .ok m.id := by
    simp [mergerId, hget, hv, htruthy, h.id_eq, bind, Except.bind]
  unfold handleMerge
  simp only [hget, ofPy_ok_bind, h.keep_eq, h.gone_eq, hid]
  have hnew : (mergerIsNew m.id).run w = .ok (w.db.row? .personMerger m.id).isNone w := rfl
  rw [run_bind_of_ok hnew]
  cases w.db.row? .personMerger m.id with
  | some row => rfl
  | none =>
      obtain ⟨id, keep, gone, raw, source⟩ := m
      obtain rfl : raw = payload := h.raw_eq
      obtain rfl : source = .webhook := h.source_eq
      rfl

/-- An event brings a merge. -/
def Brings (ev : WebhookEvent) (m : Merge) : Prop :=
  ev.resourceType = "person_merger" ∧ ∃ body payload, ev.payload = .json body ∧
    unwrap body = .ok payload ∧ Carries payload m

/-- The state a delivery of a merge leaves, less what it notes of the event. -/
def World.told (w : World) (env : Env) (m : Merge) : World :=
  if (w.db.row? .personMerger m.id).isSome then w else w.after (m.apply env)

theorem run_processEvent {ev : WebhookEvent} (h : Brings ev m) (env : Env) (eventId : String)
    (w : World) :
    ∃ inbox, (processEvent env eventId ev).run w =
      .ok () { w.told env m with tick := (w.told env m).tick + 1, inbox := inbox } := by
  obtain ⟨hmerger, body, payload, hpayload, hunwrap, hcarries⟩ := h
  have happly : (applyEvent env (byEventResource ev.resourceType) ev payload).run w =
      .ok () (w.told env m) := by
    simp only [applyEvent, hmerger, if_true]
    rw [run_handleMerge hcarries, World.told]
    split_ifs <;> rfl
  refine ⟨(w.told env m).inbox.update fun id ev => if some id = some eventId then { ev with
    status := "done", processedAt := some (env.now (w.told env m).tick) } else ev, ?_⟩
  simp only [processEvent, hpayload, hunwrap, ofPy_ok_bind]
  rw [if_neg (fun hnone => hnone.2 hmerger)]
  refine run_tryCatch_of_ok ?_ _
  rw [run_bind_of_ok happly]
  rfl

theorem after_processEvent {ev : WebhookEvent} (h : Brings ev m) (env : Env) (eventId : String)
    (w : World) :
    (w.after (processEvent env eventId ev)).db = (w.told env m).db ∧
      (w.after (processEvent env eventId ev)).hydration = (w.told env m).hydration ∧
      (w.after (processEvent env eventId ev)).tombstones = (w.told env m).tombstones := by
  obtain ⟨inbox, hrun⟩ := run_processEvent h env eventId w
  rw [World.after_of_run hrun]
  exact ⟨rfl, rfl, rfl⟩

/-! ## Sequences of calls -/

/-- A call that may apply merges. -/
inductive MergeCall where
  | poll (env : Env) (fuel : ℕ)
  | deliver (env : Env) (eventId : String) (ev : WebhookEvent)

def MergeCall.run (w : World) : MergeCall → World
  | .poll env fuel => w.after (mergerPoll env fuel)
  | .deliver env eventId ev => w.after (processEvent env eventId ev)

/-- A delivery brings a merge with its own id and both people. -/
def MergeCall.Whole : MergeCall → Prop
  | .poll .. => True
  | .deliver _ _ ev => ∃ m, Brings ev m

theorem MergeCall.applied (call : MergeCall) (h : call.Whole) (w : World) :
    ∃ ms, Applied w ms (call.run w) := by
  cases call with
  | poll env fuel => exact keeps_after (applies_mergerPoll env fuel w) ⟨[], .start⟩
  | deliver env eventId ev =>
      obtain ⟨m, hm⟩ := h
      obtain ⟨hdb, hhydration, htombstones⟩ := after_processEvent hm env eventId w
      have htold : ∃ ms, Applied w ms (w.told env m) := by
        rw [World.told]
        split_ifs with hknown
        · exact ⟨[], .start⟩
        · exact ⟨_, Applied.start.merge env m hknown⟩
      obtain ⟨ms, htold⟩ := htold
      exact ⟨ms, htold.aside hdb hhydration htombstones⟩

theorem applied_exec (calls : List MergeCall) (hcalls : ∀ call ∈ calls, call.Whole) (w : World) :
    ∃ ms, Applied w ms (Run.exec MergeCall.run w calls) := by
  induction calls generalizing w with
  | nil => exact ⟨[], .start⟩
  | cons call calls ih =>
      obtain ⟨ms, hms⟩ := call.applied (hcalls call (by simp)) w
      obtain ⟨ms', hms'⟩ := ih (fun call' hcall' => hcalls call' (by simp [hcall'])) (call.run w)
      exact ⟨ms ++ ms', hms.trans hms'⟩

/-- A call tells of a merge: a poll that returns, by a page it was answered. -/
def MergeCall.Tells (w : World) (id : String) : MergeCall → Prop
  | .poll env fuel => ∃ n w' since request resp d, (mergerPoll env fuel).run w = .ok n w' ∧
      w'.exchanges = since ++ w.exchanges ∧ (request, .ok resp) ∈ since ∧ d ∈ resp.mergers ∧
      idOf d = .ok id
  | .deliver _ _ ev => ∃ m, Brings ev m ∧ m.id = id

theorem World.knowsMerge_told (w : World) (env : Env) (m : Merge) :
    (w.told env m).knowsMerge m.id := by
  rw [World.told]
  split_ifs with h
  · exact h
  · have happlied := Applied.start.merge env m h
    exact (happlied.ids.2 _).mpr (.inr (by simp))

theorem MergeCall.knows_of_tells {w : World} {id : String} (call : MergeCall)
    (h : call.Tells w id) : (call.run w).knowsMerge id := by
  cases call with
  | poll env fuel =>
      obtain ⟨n, w', since, request, resp, d, hrun, hsince, hmem, hd, hid⟩ := h
      obtain ⟨since', hsince', hknown⟩ := mergerPoll_records hrun
      obtain rfl : since' = since := List.append_cancel_right (hsince'.symm.trans hsince)
      rw [MergeCall.run, World.after_of_run hrun]
      exact hknown request resp hmem d hd id hid
  | deliver env eventId ev =>
      obtain ⟨m, hm, rfl⟩ := h
      obtain ⟨hdb, -, -⟩ := after_processEvent hm env eventId w
      rw [MergeCall.run, World.knowsMerge, hdb]
      exact w.knowsMerge_told env m

/-- Calls in any order apply every merge they tell of once, and none that was known. -/
theorem applied_once (calls : List MergeCall) (hcalls : ∀ call ∈ calls, call.Whole) (w : World) :
    ∃ ms, Applied w ms (Run.exec MergeCall.run w calls) ∧ (ms.map Merge.id).Nodup ∧
      (∀ id, id ∈ ms.map Merge.id → ¬ w.knowsMerge id) ∧
      ∀ pre call post id, calls = pre ++ call :: post →
        call.Tells (Run.exec MergeCall.run w pre) id → ¬ w.knowsMerge id →
        id ∈ ms.map Merge.id := by
  obtain ⟨ms, hms⟩ := applied_exec calls hcalls w
  refine ⟨ms, hms, hms.ids.1, hms.fresh, ?_⟩
  rintro pre call post id rfl htells hnew
  have hpost : ∀ call' ∈ post, call'.Whole := fun call' hcall' => hcalls call' (by simp [hcall'])
  obtain ⟨ms', hms'⟩ := applied_exec post hpost (call.run (Run.exec MergeCall.run w pre))
  have hknown := hms'.knows (call.knows_of_tells htells)
  rw [← Run.exec_cons, ← Run.exec_append, hms.ids.2] at hknown
  exact hknown.resolve_left hnew

end PcoMirror
