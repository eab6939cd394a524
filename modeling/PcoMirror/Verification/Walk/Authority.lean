import PcoMirror.Lib.Paging
import PcoMirror.Model.Ingest.Walk
import PcoMirror.Verification.Webhooks.Events

/-! A walk against what PCO returned: which rows name the parent afterwards. -/

namespace PcoMirror

open Program

/-! ## The listing -/

/-- A resource PCO serves under one parent, with the column naming the parent. -/
structure Nested (r parent : Res) (fk : String) : Prop where
  method : r.info.method = .nestedWalk
  parent : r.info.parent = some parent
  fk : r.info.parentFk = some fk

/-- A child as PCO returns it. -/
structure IsChild (r : Res) (id : String) (doc : Json) : Prop where
  type_eq : doc.member? "type" = some (.str r.info.type)
  id_eq : doc.member? "id" = some (.str id)
  attributes : ∃ lacks, lacksUpdatedAt doc = .ok lacks

/-- A document whose primary data is a list, with nothing sideloaded. -/
structure IsPage (body : Json) (items : List Json) : Prop where
  data : body.member? "data" = some (.arr items)
  included : pageIncluded body = .ok []

/-- PCO answers every page of a parent's collection with a `2xx` document of it. -/
def ServesNested (env : Env) (parent : Res) (parentId : String) (r : Res) (docs : List Json) :
    Prop :=
  ∀ tick offset, ∃ status body,
    env.respond tick (.nested parent parentId r offset) = .ok ⟨status, .json body⟩ ∧
      200 ≤ status ∧ status < 300 ∧ IsPage body (Paging.page 100 offset docs)

theorem IsPage.document {body : Json} {items : List Json} (h : IsPage body items) (status : ℕ) :
    Response.document ⟨status, .json body⟩ = .ok body := by
  cases body with
  | obj members =>
      cases members with
      | nil => cases h.data
      | cons m ms => rfl
  | _ => cases h.data

theorem IsPage.dataOf {body : Json} {items : List Json} (h : IsPage body items) :
    dataOf body = .ok (.arr items) := by
  unfold PcoMirror.dataOf
  rw [pyGet_of_member? h.data]
  rfl

theorem IsPage.pageData {body : Json} {items : List Json} (h : IsPage body items)
    (htruthy : ∀ item ∈ items, item.truthy = true) : pageData body = .ok items := by
  unfold PcoMirror.pageData
  rw [pyGet_of_member? h.data]
  exact congrArg Except.ok (List.filter_eq_self.mpr htruthy)

theorem IsChild.truthy {r : Res} {id : String} {doc : Json} (h : IsChild r id doc) :
    doc.truthy = true := by
  cases doc with
  | obj members =>
      cases members with
      | nil => cases h.id_eq
      | cons m ms => rfl
  | _ => cases h.id_eq

theorem IsChild.itemId {r : Res} {id : String} {doc : Json} (h : IsChild r id doc) :
    itemId doc = .ok (.str id) := by
  have hid := h.id_eq
  cases doc with
  | obj members =>
      have hlookup : members.lookup "id" = some (.str id) := hid
      simp [PcoMirror.itemId, pyItem, hlookup, bind, Except.bind, pure, Except.pure]
  | _ => cases hid

theorem IsChild.idOf {r : Res} {id : String} {doc : Json} (h : IsChild r id doc) :
    idOf doc = .ok id := by
  simp [PcoMirror.idOf, h.id_eq, Json.text?]

/-! ## One child -/

/-- The row a returned child leaves of a held one. -/
def landed (r : Res) (doc : Json) (stamp : Stamp) (held : Option Row) : Option Row :=
  if r.info.timestamped then
    if lacksUpdatedAt doc = .ok true then held else some (upserted doc stamp held)
  else some (upsertedUntimed doc stamp held)

theorem ownedFk_nested {r parent : Res} {fk : String} (h : Nested r parent fk) (u : Res) :
    ownedFk r u = none := by
  have hleaf : r.info.method = .nestedWalk → ownedChildren r = [] := by cases r <;> decide
  rw [ownedFk, hleaf h.method]
  rfl

theorem settle_nested {r parent : Res} {fk : String} (h : Nested r parent fk) (id now : String)
    (db : Db) : settle r id now db = db := by
  have hleaf : r.info.method = .nestedWalk → ownedChildren r = [] ∧ r ≠ .fieldDatum := by
    cases r <;> decide
  obtain ⟨hnone, hne⟩ := hleaf h.method
  rw [settle, if_neg hne, uncascade, hnone]
  rfl

theorem IsChild.routeTarget {r : Res} {id : String} {doc : Json} (h : IsChild r id doc) :
    routeTarget doc none [] =
      .ok (if r.info.timestamped = true ∧ lacksUpdatedAt doc = .ok true then none
        else some (r, id, doc)) := by
  have hresource : resourceOf doc = .ok (some r) := by
    unfold resourceOf
    rw [pyGet_of_member? h.type_eq]
    exact congrArg Except.ok (byType_type r)
  obtain ⟨lacks, hlacks⟩ := h.attributes
  unfold PcoMirror.routeTarget
  rw [hresource, hlacks]
  cases r.info.ownerRel <;> cases htimed : r.info.timestamped <;> cases lacks <;>
    simp [bind, Except.bind, pure, Except.pure, withoutSynthesized_nil, h.idOf, htimed]

theorem row?_routed_child {r parent : Res} {fk : String} (hr : Nested r parent fk) {id : String}
    {doc : Json} (h : IsChild r id doc) (stamp : Stamp) (db : Db) (u : Res) (k : String) :
    (routed doc stamp none [] db).row? u k =
      if u = r ∧ k = id then landed r doc stamp (db.row? r id) else db.row? u k := by
  unfold routed landed
  rw [h.routeTarget]
  by_cases htimed : r.info.timestamped = true
  · by_cases hlacks : lacksUpdatedAt doc = .ok true
    · simp only [htimed, hlacks, and_self, if_true]
      split_ifs with hself
      · rw [hself.1, hself.2]
      · rfl
    · simp only [htimed, hlacks, and_false, if_false, if_true, write]
      rw [upsert_eq, settle_nested hr, Db.row?_put]
  · simp only [htimed, Bool.false_eq_true, false_and, if_false, write]
    exact row?_upsertUntimed r id doc stamp db u k

/-! ## Listing the collection -/

/-- After some of the listing has been applied: each child of it landed on the row it
found at first, and no other row has changed. -/
structure Listed (r : Res) (w₀ : World) (done : List (String × Json)) (w : World) : Prop where
  others : ∀ u k, (u = r → k ∉ done.map (·.1)) → w.db.row? u k = w₀.db.row? u k
  landed : ∀ e ∈ done, ∃ stamp, w.db.row? r e.1 = landed r e.2 stamp (w₀.db.row? r e.1)

theorem Listed.ofTables (r : Res) (w₀ : World) (done : List (String × Json)) :
    OfTables (Listed r w₀ done) := by
  intro w w' hdb _ h
  exact ⟨hdb ▸ h.others, hdb ▸ h.landed⟩

theorem Listed.start (r : Res) (w₀ : World) : Listed r w₀ [] w₀ :=
  ⟨fun _ _ _ => rfl, nofun⟩

theorem Listed.route {r parent : Res} {fk : String} (hr : Nested r parent fk) {w₀ w : World}
    {done : List (String × Json)} (h : Listed r w₀ done w) {e : String × Json}
    (hchild : IsChild r e.1 e.2) (hnew : e.1 ∉ done.map (·.1)) (env : Env) (source : Source) :
    Listed r w₀ (done ++ [e]) (w.routedOne env source none [] e.2) := by
  have hrow := row?_routed_child hr hchild ⟨source, env.apiVersion, env.now w.tick⟩ w.db
  constructor
  · intro u k hother
    have hne : ¬ (u = r ∧ k = e.1) := by
      rintro ⟨rfl, rfl⟩
      exact hother rfl (by simp)
    rw [World.routedOne, hrow, if_neg hne]
    exact h.others u k fun hu hk => hother hu (by simp_all)
  · intro e' he'
    rcases List.mem_append.mp he' with hdone | hlast
    · have hne : ¬ (r = r ∧ e'.1 = e.1) := by
        rintro ⟨-, heq⟩
        exact hnew (heq ▸ List.mem_map_of_mem hdone)
      obtain ⟨stamp, hstamp⟩ := h.landed e' hdone
      exact ⟨stamp, by rw [World.routedOne, hrow, if_neg hne, hstamp]⟩
    · obtain rfl := List.mem_singleton.mp hlast
      refine ⟨⟨source, env.apiVersion, env.now w.tick⟩, ?_⟩
      rw [World.routedOne, hrow, if_pos ⟨rfl, rfl⟩, h.others r e'.1 fun _ => hnew]

/-- The state of the walk's loop: a prefix of the listing read and applied. -/
def WalkInv (r : Res) (w₀ : World) (docs : List (String × Json)) (p : WalkPass) (w : World) :
    Prop :=
  p.offset ≤ docs.length ∧ p.seen = (docs.take p.offset).map (fun e => .str e.1) ∧
    Listed r w₀ (docs.take p.offset) w

theorem mapM_itemId {r : Res} {page : List (String × Json)}
    (h : ∀ e ∈ page, IsChild r e.1 e.2) :
    (page.map (·.2)).mapM itemId = .ok (page.map fun e => .str e.1) :=
  mapM_map_ok fun e he => (h e he).itemId

/-- Reading a page applies it after what was applied before. -/
theorem spec_routeListed {r parent : Res} {fk : String} (hr : Nested r parent fk) (env : Env)
    {docs : List (String × Json)} (hchildren : ∀ e ∈ docs, IsChild r e.1 e.2)
    (hnodup : (docs.map (·.1)).Nodup) {before page after : List (String × Json)}
    (hsplit : docs = before ++ page ++ after) {body : Json}
    (hpage : IsPage body (page.map (·.2))) (status : ℕ) (source : Source) (w₀ : World) :
    Spec (Listed r w₀ before) (routePage env status body source)
      (fun _ => Listed r w₀ (before ++ page)) fun _ _ => False := by
  have hin : ∀ e ∈ page, IsChild r e.1 e.2 := by
    intro e he
    exact hchildren e (by simp [hsplit, he])
  have htruthy : ∀ item ∈ page.map (·.2), Json.truthy item = true := by
    intro item hitem
    obtain ⟨e, he, rfl⟩ := List.mem_map.mp hitem
    exact (hin e he).truthy
  have hstep : ∀ pre e post, page = pre ++ e :: post →
      Spec (Listed r w₀ (before ++ pre)) (routeOne env source none [] e.2)
        (fun _ => Listed r w₀ (before ++ (pre ++ [e]))) fun _ _ => False := by
    rintro pre e post rfl w hw
    have hchild := hin e (by simp)
    have hnew : e.1 ∉ (before ++ pre).map (·.1) := by
      have hcut : docs = (before ++ pre) ++ e :: (post ++ after) := by simp [hsplit]
      rw [hcut, List.map_append, List.nodup_append] at hnodup
      intro hmem
      exact hnodup.2.2 _ hmem _ (by simp) rfl
    rw [routeOne_run hchild.routeTarget]
    simpa using hw.route hr hchild hnew env source
  have hroute : Spec (Listed r w₀ (before ++ [])) (routePage env status body source)
      (fun _ => Listed r w₀ (before ++ page)) fun _ _ => False :=
    spec_routePage (fun done => Listed r w₀ (before ++ done)) (fun _ => Listed.ofTables r w₀ _)
      (·.2) page (hpage.pageData htruthy) hpage.included hstep
  simpa using hroute

theorem spec_walkPage {r parent : Res} {fk : String} (hr : Nested r parent fk) {env : Env}
    {parentId : String} {docs : List (String × Json)}
    (hchildren : ∀ e ∈ docs, IsChild r e.1 e.2) (hnodup : (docs.map (·.1)).Nodup)
    (hserves : ServesNested env parent parentId r (docs.map (·.2))) (source : Source) (w₀ : World)
    (p : WalkPass) :
    Spec (WalkInv r w₀ docs p) (walkPage env r parent parentId source p)
      (Pass.Holds
        (fun p' w => WalkInv r w₀ docs p' w ∧ docs.length - p'.offset < docs.length - p.offset)
        fun seen w => seen = some (docs.map fun e => .str e.1) ∧ Listed r w₀ docs w)
      (fun _ _ => False) := by
  rintro w ⟨hoffset, hseen, hlisted⟩
  obtain ⟨status, body, hrespond, hlow, hhigh, hpage⟩ := hserves w.tick p.offset
  rw [Paging.page_map] at hpage
  have h404 : status ≠ 404 := by omega
  have hok : Response.ok ⟨status, .json body⟩ = true := by
    simp [Response.ok, hlow, hhigh]
  have hin : ∀ e ∈ Paging.page 100 p.offset docs, IsChild r e.1 e.2 :=
    fun e he => hchildren e (Paging.mem_of_mem_page he)
  unfold walkPage
  rw [clientGet_bind_run hrespond]
  simp only [h404, if_false, hok, Bool.not_true, Bool.false_eq_true, pure_bind, hpage.document,
    hpage.dataOf, ofPy, pyItems, mapM_itemId hin, List.length_map]
  have hroute := spec_routeListed hr env hchildren hnodup
    (Paging.take_append_page_append_drop 100 p.offset docs).symm hpage status source w₀
  rw [Paging.take_append_page] at hroute
  refine Spec.bind hroute (fun _ => Spec.ite (fun hshort => ?_) fun hfull => ?_) _
    (Listed.ofTables r w₀ _ w _ rfl rfl hlisted)
  · refine Spec.pure fun w' hw' => ?_
    rw [hseen, ← List.map_append, Paging.take_append_page]
    rw [Paging.take_of_short hshort] at hw' ⊢
    exact ⟨rfl, hw'⟩
  · refine Spec.pure fun w' hw' => ?_
    have hnext := Paging.le_of_full (by decide) hfull
    refine ⟨⟨hnext, ?_, hw'⟩, ?_⟩
    · rw [hseen, ← List.map_append, Paging.take_append_page]
    · change docs.length - (p.offset + 100) < docs.length - p.offset
      omega

/-! ## Burying the rest -/

/-- After some stale rows have been buried, no other row has changed. -/
structure Swept (r : Res) (w₁ : World) (done : List String) (w : World) : Prop where
  others : ∀ u k, (u = r → k ∉ done) → w.db.row? u k = w₁.db.row? u k
  dead : ∀ k ∈ done, w.db.isLive r k = false

theorem Swept.start (r : Res) (w₁ : World) : Swept r w₁ [] w₁ :=
  ⟨fun _ _ _ => rfl, nofun⟩

theorem Swept.bury {r parent : Res} {fk : String} (hr : Nested r parent fk) {w₁ w : World}
    {done : List String} (h : Swept r w₁ done w) (id now : String) :
    Swept r w₁ (done ++ [id]) (w.bury r id none .destroyed none now) := by
  have hrow : ∀ u k, (w.bury r id none .destroyed none now).db.row? u k =
      if u = r ∧ k = id then
        (w.db.row? u k).map fun row => row.tombstoned none .destroyed none now
      else w.db.row? u k := by
    intro u k
    rw [World.bury, row?_tombstone, ownedFk_nested hr, ite_self]
    rfl
  constructor
  · intro u k hother
    have hne : ¬ (u = r ∧ k = id) := by
      rintro ⟨rfl, rfl⟩
      exact hother rfl (by simp)
    rw [hrow, if_neg hne]
    exact h.others u k fun hu hk => hother hu (by simp [hk])
  · intro k hk
    rw [Db.isLive, hrow]
    by_cases hself : k = id
    · rw [if_pos ⟨rfl, hself⟩]
      cases w.db.row? r k <;>
        simp [Row.tombstoned, Row.tombstoneGuard_none, Row.live, Row.tombstone]
    · rw [if_neg fun hboth => hself hboth.2]
      exact h.dead k (by simpa [hself] using hk)

theorem spec_burying {r parent : Res} {fk : String} (hr : Nested r parent fk) (env : Env)
    (w₁ : World) (ids : List String) :
    Spec (Swept r w₁ []) (forEach (fun id => tombstoneOne env r id none .destroyed) ids)
      (fun _ => Swept r w₁ ids) fun _ _ => False := by
  refine Spec.forEach_prefix (Swept r w₁) ids fun pre id post _ => ?_
  intro w hw
  rw [tombstoneOne_run]
  have htick : Swept r w₁ pre { w with tick := w.tick + 1 } := ⟨hw.others, hw.dead⟩
  exact htick.bury hr id _

/-! ## Who names the parent -/

theorem mem_childrenOf {r parent : Res} {fk : String} (hr : Nested r parent fk) {db : Db}
    {parentId id : String} : id ∈ db.childrenOf r parentId ↔
      ∃ row, db.row? r id = some row ∧ row.deletedAt = none ∧ r.column fk row.raw = some parentId := by
  rw [Db.childrenOf, Db.mem_select, hr.fk]
  simp [Row.live]

/-- A returned child ends live under the parent: a document without its timestamp
changes nothing, so the row must be there already; else the row is absent, live, or
revived by the document, and the document kept names the parent. -/
def Lands (r : Res) (fk parentId : String) (held : Option Row) (doc : Json) : Prop :=
  if r.info.timestamped = true ∧ lacksUpdatedAt doc = .ok true then
    ∃ row, held = some row ∧ row.deletedAt = none ∧ r.column fk row.raw = some parentId
  else
    match held with
    | none => r.column fk doc = some parentId
    | some row =>
      (row.deletedAt = none ∨ r.info.timestamped = true ∧ row.revivedBy doc = true) ∧
        r.column fk (if r.info.timestamped then upsertRaw row.raw doc else doc) = some parentId

theorem landed_iff (r : Res) (fk parentId : String) (stamp : Stamp) (held : Option Row)
    (doc : Json) :
    (∃ row, landed r doc stamp held = some row ∧ row.deletedAt = none ∧
      r.column fk row.raw = some parentId) ↔ Lands r fk parentId held doc := by
  unfold landed Lands
  by_cases htimed : r.info.timestamped = true
  · by_cases hlacks : lacksUpdatedAt doc = .ok true
    · simp [htimed, hlacks]
    · cases held with
      | none => simp [htimed, hlacks, upserted, Row.fresh]
      | some row =>
          by_cases hrevived : row.revivedBy doc = true <;>
            simp [htimed, hlacks, upserted, Row.upsert, hrevived]
  · cases held with
    | none => simp [htimed, upsertedUntimed, Row.fresh]
    | some row =>
        by_cases hlive : row.deletedAt = none <;>
          simp [htimed, upsertedUntimed, Row.upsertUntimed, hlive]

/-- The stale rows: live under the parent and not among the ids returned. -/
def staleRows (db : Db) (r : Res) (parentId : String) (docs : List (String × Json)) :
    List String :=
  (db.childrenOf r parentId).filter fun id => !(docs.map fun e => Json.str e.1).contains (.str id)

theorem mem_staleRows {db : Db} {r : Res} {parentId id : String} {docs : List (String × Json)} :
    id ∈ staleRows db r parentId docs ↔ id ∈ db.childrenOf r parentId ∧ id ∉ docs.map (·.1) := by
  simp [staleRows]

/-- The listing has been applied and then the stale rows buried. -/
def Walked (r : Res) (parentId : String) (w : World) (docs : List (String × Json)) (w' : World) :
    Prop :=
  ∃ w₁, Listed r w docs w₁ ∧ Swept r w₁ (staleRows w₁.db r parentId docs) w'

/-- A walk answered in full applies the listing and then buries the stale rows. -/
theorem spec_walkParent {r parent : Res} {fk : String} (hr : Nested r parent fk) (env : Env)
    (parentId : String) (source : Source) {docs : List (String × Json)}
    (hchildren : ∀ e ∈ docs, IsChild r e.1 e.2) (hnodup : (docs.map (·.1)).Nodup)
    (hserves : ServesNested env parent parentId r (docs.map (·.2))) (w : World) (fuel : ℕ)
    (hfuel : docs.length < fuel) :
    Spec (fun w' => w' = w) (walkParent env r parent parentId source fuel)
      (fun _ => Walked r parentId w docs) (fun _ _ => False) := by
  have hloop : Spec (fun w' => w' = w)
      (whileTrue .stopped (walkPage env r parent parentId source) fuel ⟨0, []⟩)
      (fun seen w₁ => seen = some (docs.map fun e => .str e.1) ∧ Listed r w docs w₁)
      fun _ _ => False := by
    refine Spec.conseq (Spec.whileTrue_of_lt (WalkInv r w docs) (fun p => docs.length - p.offset)
      (fun p => spec_walkPage hr hchildren hnodup hserves source w p) fuel ⟨0, []⟩ hfuel)
      ?_ (fun _ _ h => h) fun _ _ h => h
    rintro w' rfl
    exact ⟨Nat.zero_le _, rfl, Listed.start r w'⟩
  have hone : Spec (fun w' => w' = w) (walkOne env r parent parentId source fuel)
      (fun _ => Walked r parentId w docs) fun _ _ => False := by
    refine Spec.bind hloop fun seen => ?_
    rintro w₁ ⟨rfl, hlisted⟩
    have hbury := spec_burying hr env w₁ (staleRows w₁.db r parentId docs)
    have hrest : Spec (Swept r w₁ [])
        (do
          forEach (fun id => tombstoneOne env r id none .destroyed)
            (staleRows w₁.db r parentId docs)
          return (docs.map fun e => Json.str e.1).dedup.length)
        (fun _ => Walked r parentId w docs) fun _ _ => False :=
      Spec.bind hbury fun _ => Spec.pure fun w' hswept => ⟨w₁, hlisted, hswept⟩
    exact hrest w₁ (Swept.start r w₁)
  have hwalked : OfTables (Walked r parentId w docs) := by
    rintro w' w'' hdb - ⟨w₁, hlisted, hswept⟩
    exact ⟨w₁, hlisted, hdb ▸ hswept.others, hdb ▸ hswept.dead⟩
  refine Spec.bind hone fun n => Spec.bind (spec_nowIso hwalked env) fun now => ?_
  refine Spec.bind (Spec.modify fun w' hw' => ?_) fun _ => Spec.pure fun _ hw' => hw'
  exact hwalked w' _ rfl rfl hw'

/-- A walk answered in full leaves live under the parent exactly the ids PCO returned if
and only if each of them lands there. -/
theorem walkParent_authority_iff (r parent : Res) (fk : String) (hr : Nested r parent fk)
    (env : Env) (parentId : String) (source : Source) (docs : List (String × Json))
    (hchildren : ∀ e ∈ docs, IsChild r e.1 e.2) (hnodup : (docs.map (·.1)).Nodup)
    (hserves : ServesNested env parent parentId r (docs.map (·.2))) (w : World) (fuel : ℕ)
    (hfuel : docs.length < fuel) :
    ∃ n w', (walkParent env r parent parentId source fuel).run w = .ok n w' ∧
      ((∀ id, id ∈ w'.db.childrenOf r parentId ↔ id ∈ docs.map (·.1)) ↔
        ∀ e ∈ docs, Lands r fk parentId (w.db.row? r e.1) e.2) := by
  obtain ⟨n, w', hrun, w₁, hlisted, hswept⟩ :=
    (spec_walkParent hr env parentId source hchildren hnodup hserves w fuel hfuel).returns rfl
  refine ⟨n, w', hrun, ?_⟩
  -- Of the rows that name the parent after the listing, the returned ones are left.
  have hleft : ∀ id, id ∈ w'.db.childrenOf r parentId ↔
      id ∈ w₁.db.childrenOf r parentId ∧ id ∈ docs.map (·.1) := by
    intro id
    by_cases hstale : id ∈ staleRows w₁.db r parentId docs
    · have hnot := (mem_staleRows.mp hstale).2
      refine ⟨fun hid => ?_, fun hboth => absurd hboth.2 hnot⟩
      obtain ⟨row, hrow, hlive, -⟩ := (mem_childrenOf hr).mp hid
      have hdead := hswept.dead id hstale
      rw [Db.isLive_iff.mpr ⟨row, hrow, hlive⟩] at hdead
      cases hdead
    · have hsame := hswept.others r id fun _ => hstale
      rw [mem_childrenOf hr, hsame, ← mem_childrenOf hr]
      refine ⟨fun hid => ⟨hid, ?_⟩, fun hboth => hboth.1⟩
      by_contra hnot
      exact hstale (mem_staleRows.mpr ⟨hid, hnot⟩)
  have hlands : ∀ e ∈ docs, e.1 ∈ w₁.db.childrenOf r parentId ↔
      Lands r fk parentId (w.db.row? r e.1) e.2 := by
    intro e he
    obtain ⟨stamp, hstamp⟩ := hlisted.landed e he
    rw [mem_childrenOf hr, hstamp, landed_iff]
  constructor
  · intro hall e he
    exact (hlands e he).mp ((hleft e.1).mp ((hall e.1).mpr (List.mem_map_of_mem he))).1
  · intro hall id
    rw [hleft]
    refine ⟨fun hboth => hboth.2, fun hid => ⟨?_, hid⟩⟩
    obtain ⟨e, he, rfl⟩ := List.mem_map.mp hid
    exact (hlands e he).mpr (hall e he)

/-- Membership 1 of household 7. -/
def membership : Json :=
  .obj [("type", .str "HouseholdMembership"), ("id", .str "1"),
    ("relationships", .obj [("household", linkage "Household" "7")])]

/-- PCO with that membership as the whole collection of household 7. -/
def membershipEnv : Env :=
  { quietEnv with
    respond := fun _ request => match request with
      | .nested _ _ _ offset =>
        .ok ⟨200, .json (.obj [("data", .arr (Paging.page 100 offset [membership]))])⟩
      | _ => .error .transportError }

theorem membershipEnv_serves :
    ServesNested membershipEnv .household "7" .householdMembership [membership] :=
  fun _ _ => ⟨200, _, rfl, by decide, by decide, rfl, rfl⟩

theorem isChild_membership : IsChild .householdMembership "1" membership where
  type_eq := rfl
  id_eq := rfl
  attributes := ⟨true, rfl⟩

theorem nested_householdMembership :
    Nested .householdMembership .household "household_pco_id" :=
  ⟨rfl, rfl, rfl⟩

theorem walkParent_authority_iff_membership :
    ∃ n w', (walkParent membershipEnv .householdMembership .household "7" .reconcile 2).run {} =
        .ok n w' ∧
      ((∀ id, id ∈ w'.db.childrenOf .householdMembership "7" ↔ id ∈ ["1"]) ↔
        ∀ e ∈ [("1", membership)],
          Lands .householdMembership "household_pco_id" "7" none e.2) :=
  walkParent_authority_iff .householdMembership .household "household_pco_id"
    nested_householdMembership membershipEnv "7" .reconcile [("1", membership)]
    (by simpa using isChild_membership) (by decide) membershipEnv_serves {} 2 (by decide)

/-- Once tombstoned, a membership PCO lists again stays buried. -/
theorem walkParent_not_authoritative :
    ¬ ∀ (r parent : Res) (fk : String), Nested r parent fk →
      ∀ (env : Env) (parentId : String) (source : Source) (docs : List (String × Json)),
      (∀ e ∈ docs, IsChild r e.1 e.2) → (docs.map (·.1)).Nodup →
      ServesNested env parent parentId r (docs.map (·.2)) →
      ∀ (w : World) (fuel : ℕ), docs.length < fuel →
      ∃ n w', (walkParent env r parent parentId source fuel).run w = .ok n w' ∧
        ∀ id, id ∈ w'.db.childrenOf r parentId ↔ id ∈ docs.map (·.1) := by
  intro h
  obtain ⟨n, w', hrun, hset⟩ := h .householdMembership .household "household_pco_id"
    nested_householdMembership membershipEnv "7" .reconcile [("1", membership)]
    (by simpa using isChild_membership) (by decide) membershipEnv_serves
    { db := tombstone .householdMembership "1" none .destroyed none "2024-03-02T00:00:00Z"
        (Db.empty.put .householdMembership "1" (Row.fresh membership
          ⟨.reconcile, "2024-01-31", "2024-03-01T00:00:00Z"⟩)) } 2 (by decide)
  have hlisted := (hset "1").mpr (by decide)
  have hafter := World.after_of_run hrun
  rw [← hafter] at hlisted
  exact absurd hlisted (by decide)

end PcoMirror
