import PcoMirror.Model.Ingest.Hydration
import PcoMirror.Verification.Audit.Rows
import PcoMirror.Verification.Webhooks.Events

/-! What a re-read of a person does: to the person's own row, and to the rows of the children
sideloaded with them or left out. -/

namespace PcoMirror

open Program

variable {env : Env} {id : String} {asked : List String} {resp : Response} {record : Json}
  {included : List Json} {child : Res}

/-! ## Answers -/

/-- A resource of a compound document: its type and its id are text. -/
structure IsResource (d : Json) (type id : String) : Prop where
  type_eq : d.member? "type" = some (.str type)
  id_eq : d.member? "id" = some (.str id)

/-- The linkage a child gets that comes without its owner. -/
def ownerHint (owner : Res) (id : String) : Json :=
  .obj [("type", .str owner.info.type), ("id", .str id)]

/-- The resource is one that a relationship asked for leads to. -/
def LedTo (asked : List String) (type : String) : Prop :=
  ∃ name ∈ asked, ∃ rel, Res.person.info.relationships.lookup name = some rel ∧
    rel.target.info.type = type

/-- A `2xx` answer to the re-read of a person, as a compound document is made: the person's
record, and the resources the request asked for, each once, in a form that can be read. -/
structure IsPersonAnswer (id : String) (asked : List String) (resp : Response) (record : Json)
    (included : List Json) : Prop where
  ok : resp.ok = true
  record_eq : recordOf resp = .ok (some record)
  included_eq : (resp.document >>= pageIncluded) = .ok included
  person : ∃ uat, IsRecord .person id uat record
  relations : Succeeds (relatedIds record)
  resource : ∀ d ∈ included, ∃ type k, IsResource d type k ∧ LedTo asked type
  routable : ∀ d ∈ included, Succeeds (routeTarget d (some (ownerHint .person id)) [])
  nodup : (included.map fun d => (d.member? "type", d.member? "id")).Nodup

/-- The resource is sideloaded. -/
def Sideloads (included : List Json) (child : Res) (k : String) : Prop :=
  ∃ d ∈ included, IsResource d child.info.type k

/-- The record's own relationships name the resource. -/
def Claims (record : Json) (child : Res) (k : String) : Prop :=
  ∃ claimed, relatedIds record = .ok claimed ∧ (some (.str child.info.type), k) ∈ claimed

/-! ## The kinds of children -/

/-- A child of a person is owned by the person alone, and owns nothing. -/
theorem ownedFk_of_ownerRel (hchild : child.info.ownerRel = some "person") (t : Res) :
    ownedFk t child = if t = .person then some "person_pco_id" else none := by
  revert hchild
  cases t <;> cases child <;> decide

theorem ownedFk_child (hchild : child.info.ownerRel = some "person") (u : Res) :
    ownedFk child u = none := by
  have hperson := ownedFk_of_ownerRel hchild .person
  exact ownedFk_of_owned (hperson.trans (if_pos rfl)) u

theorem timestamped_of_ownerRel (hchild : child.info.ownerRel = some "person") :
    child.info.timestamped = true := by
  revert hchild
  cases child <;> decide

theorem ownerRel_of_mem_askedChildren (h : child ∈ askedChildren asked) :
    child.info.ownerRel = some "person" := by
  have hkept := (List.mem_filter.mp h).2
  simp only [Bool.and_eq_true, decide_eq_true_eq] at hkept
  exact hkept.1

/-- No relationship of a person leads to a person. -/
theorem not_ledTo_person : ¬ LedTo asked Res.person.info.type := by
  rintro ⟨name, -, rel, hrel, htype⟩
  have hall : ∀ e ∈ Res.person.info.relationships, e.2.target.info.type ≠ Res.person.info.type := by
    decide
  obtain ⟨before, after, hlist, -⟩ := List.lookup_eq_some_iff.mp hrel
  exact hall (name, rel) (by simp [hlist]) htype

/-! ## Routing -/

theorem resourceOf_of_type {d : Json} {type : String} (h : d.member? "type" = some (.str type)) :
    resourceOf d = .ok (byType type) := by
  unfold resourceOf
  rw [pyGet_of_member? h]
  rfl

/-- A hint leaves the id of a document as it is. -/
theorem idOf_withOwner {ownerRel : String} {hint d stored : Json}
    (h : withOwner ownerRel hint d = .ok stored) : idOf stored = idOf d := by
  have hassign : ∀ members : List (String × Json), ∀ v : Json,
      idOf (.obj (Json.assign "relationships" v members)) = idOf (.obj members) := by
    intro members v
    unfold idOf
    simp only [Json.member?]
    rw [Json.lookup_assign_of_ne (by decide)]
  cases d with
  | obj members =>
      have hheld : ∀ held : Option Json, ∀ rels : List (String × Json),
          (if held.any Json.truthy then Except.ok (.obj members) else
            Except.ok (.obj (Json.assign "relationships"
              (.obj (Json.assign ownerRel (.obj [("data", hint)]) rels)) members)) :
            Except PyError Json) = .ok stored → idOf stored = idOf (.obj members) := by
        intro held rels hstored
        split_ifs at hstored
        · cases hstored
          rfl
        · cases hstored
          exact hassign members _
      simp only [withOwner] at h
      split at h
      · case h_1 rels _ =>
          cases hrel : rels.lookup ownerRel with
          | none =>
              rw [hrel] at h
              exact hheld none rels h
          | some rel =>
              rw [hrel] at h
              obtain ⟨held, -, h⟩ := except_bind_eq_ok.mp h
              exact hheld held rels h
      · cases h
  | _ => cases h

theorem byType_eq_some {type : String} {t : Res} (h : byType type = some t) :
    t.info.type = type := by
  simpa using List.find?_some h

/-- The document with its owner named, where the resource has one and a hint is given. -/
def ownedDocument (r : Res) (owner : Option Json) (d : Json) : Except PyError Json :=
  match r.info.ownerRel, owner with
  | some ownerRel, some hint => withOwner ownerRel hint d
  | _, _ => .ok d

theorem idOf_ownedDocument {r : Res} {owner : Option Json} {d stored : Json}
    (h : ownedDocument r owner d = .ok stored) : idOf stored = idOf d := by
  unfold ownedDocument at h
  split at h
  · exact idOf_withOwner h
  · cases h
    rfl

theorem routeTarget_of_type {d : Json} {r : Res} (owner : Option Json)
    (h : resourceOf d = .ok (some r)) :
    routeTarget d owner [] =
      ((if r.info.timestamped then lacksUpdatedAt d else .ok false) >>= fun thin =>
        if thin then .ok none
        else ownedDocument r owner d >>= fun stored =>
          idOf stored >>= fun id => .ok (some (r, id, stored))) := by
  let rest (thin : Bool) : Except PyError (Option (Res × String × Json)) :=
    if thin then return none else do
      let resource ← match r.info.ownerRel, owner with
        | some ownerRel, some hint => withOwner ownerRel hint d
        | _, _ => pure d
      let stored := withoutSynthesized r [] resource
      return some (r, ← idOf stored, stored)
  have hrest : ∀ thin, rest thin = if thin then .ok none
      else ownedDocument r owner d >>= fun stored =>
        idOf stored >>= fun id => .ok (some (r, id, stored)) := by
    intro thin
    cases thin with
    | true => rfl
    | false =>
        simp only [rest, ownedDocument, withoutSynthesized_nil]
        cases r.info.ownerRel with
        | none => rfl
        | some ownerRel => cases owner <;> rfl
  have hroute : routeTarget d owner [] = if r.info.timestamped = true then
      lacksUpdatedAt d >>= rest else rest false := by
    unfold routeTarget
    rw [h]
    rfl
  rw [hroute]
  cases r.info.timestamped with
  | false => exact hrest false
  | true =>
      cases hread : lacksUpdatedAt d with
      | error e => rfl
      | ok thin => exact hrest thin

/-- What a sideloaded resource is stored as is of its own type and under its own id. -/
theorem IsResource.of_routeTarget {d : Json} {type k k' : String} {owner : Option Json} {t : Res}
    {stored : Json} (h : IsResource d type k)
    (htarget : routeTarget d owner [] = .ok (some (t, k', stored))) :
    t.info.type = type ∧ k' = k := by
  have hresource := resourceOf_of_type h.type_eq
  cases htype : byType type with
  | none =>
      rw [htype] at hresource
      rw [routeTarget, hresource] at htarget
      cases htarget
  | some r =>
      rw [htype] at hresource
      rw [routeTarget_of_type owner hresource] at htarget
      obtain ⟨thin, -, htarget⟩ := except_bind_eq_ok.mp htarget
      split_ifs at htarget
      · cases htarget
      · obtain ⟨resource, hresource, htarget⟩ := except_bind_eq_ok.mp htarget
        obtain ⟨id, hid, htarget⟩ := except_bind_eq_ok.mp htarget
        cases htarget
        rw [idOf_ownedDocument hresource, idOf, h.id_eq] at hid
        cases hid
        exact ⟨byType_eq_some htype, rfl⟩

/-- Nothing the documents are routed as writes the row, or owns it. -/
def Unrouted (owner : Option Json) (ds : List Json) (u : Res) (k : String) : Prop :=
  ∀ d ∈ ds, ∀ t k' stored, routeTarget d owner [] = .ok (some (t, k', stored)) →
    ownedFk t u = none ∧ ¬ (u = t ∧ k = k')

theorem row?_write_apart_row {t u : Res} {k k' : String} (howned : ownedFk t u = none)
    (hother : ¬ (u = t ∧ k = k')) (stored : Json) (w : Stamp) (db : Db) :
    (write t k' stored w db).row? u k = db.row? u k := by
  rw [write]
  split_ifs
  · rw [upsert_eq, row?_settle_apart howned hother, Db.row?_put, if_neg hother]
  · rw [row?_upsertUntimed, if_neg hother]

/-- Documents that can be read are all routed, and leave the other rows alone. -/
theorem run_sideloads (env : Env) (source : Source) {owner : Option Json} {ds : List Json}
    (hroutable : ∀ d ∈ ds, Succeeds (routeTarget d owner [])) (w : World) :
    ∃ w', (forEach (routeOne env source owner []) ds).run w = .ok () w' ∧
      ∀ u k, Unrouted owner ds u k → w'.db.row? u k = w.db.row? u k := by
  induction ds generalizing w with
  | nil => exact ⟨w, rfl, fun _ _ _ => rfl⟩
  | cons d ds ih =>
      obtain ⟨target, htarget⟩ := hroutable d (by simp)
      obtain ⟨w', hrun, hrows⟩ := ih (fun d' hd' => hroutable d' (by simp [hd']))
        (w.routedOne env source owner [] d)
      refine ⟨w', ?_, fun u k hunrouted => ?_⟩
      · rw [forEach, run_bind_of_ok (routeOne_run htarget env source w), hrun]
      · rw [hrows u k fun d' hd' => hunrouted d' (by simp [hd'])]
        simp only [World.routedOne, routed, htarget]
        cases target with
        | none => rfl
        | some target =>
            obtain ⟨t, k', stored⟩ := target
            obtain ⟨howned, hother⟩ := hunrouted d (by simp) t k' stored htarget
            exact row?_write_apart_row howned hother stored _ w.db

/-- A document routed once leaves in its row what an upsert leaves. -/
theorem run_sideloads_row (env : Env) (source : Source)
    (hchild : child.info.ownerRel = some "person") {owner : Option Json} {pre post : List Json} {d stored : Json} {k : String}
    (hroutable : ∀ d' ∈ pre ++ d :: post, Succeeds (routeTarget d' owner []))
    (htarget : routeTarget d owner [] = .ok (some (child, k, stored)))
    (hpre : Unrouted owner pre child k) (hpost : Unrouted owner post child k) (w : World) :
    ∃ w' stamp value, (forEach (routeOne env source owner []) (pre ++ d :: post)).run w = .ok () w' ∧
      w'.db.row? child k =
        some ((upserted stored stamp (w.db.row? child k)).withTyped value) := by
  have hpreRoutable : ∀ d' ∈ pre, Succeeds (routeTarget d' owner []) :=
    fun d' hd' => hroutable d' (by simp [hd'])
  have hpostRoutable : ∀ d' ∈ post, Succeeds (routeTarget d' owner []) :=
    fun d' hd' => hroutable d' (by simp [hd'])
  obtain ⟨w₁, hrun₁, hrows₁⟩ := run_sideloads env source hpreRoutable w
  obtain ⟨w₂, hrun₂, hrows₂⟩ := run_sideloads env source hpostRoutable
    (w₁.routedOne env source owner [] d)
  have hwritten : (w₁.routedOne env source owner [] d).db =
      upsert child k stored ⟨source, env.apiVersion, env.now w₁.tick⟩ w₁.db := by
    simp only [World.routedOne, routed, htarget, write, timestamped_of_ownerRel hchild, if_true]
  obtain ⟨value, hvalue⟩ :=
    row?_upsert_self child k stored ⟨source, env.apiVersion, env.now w₁.tick⟩ w₁.db
  refine ⟨w₂, ⟨source, env.apiVersion, env.now w₁.tick⟩, value, ?_, ?_⟩
  · rw [forEach_append, run_bind_of_ok hrun₁, forEach, run_bind_of_ok (routeOne_run htarget ..),
      hrun₂]
  · rw [hrows₂ child k hpost, hwritten, hvalue, hrows₁ child k hpre]

/-! ## Children left out -/

/-- A live row that names the person. -/
def Db.childOf (db : Db) (child : Res) (id k : String) : Prop :=
  ∃ row, db.row? child k = some row ∧ row.live = true ∧
    child.column "person_pco_id" row.raw = some id

theorem Db.childOf_congr {db db' : Db} {k : String} (h : db'.row? child k = db.row? child k) :
    db'.childOf child id k ↔ db.childOf child id k := by
  rw [Db.childOf, Db.childOf, h]

/-- Children tombstoned one after another are not live, and nothing else changes. -/
theorem run_absent (env : Env) (hchild : child.info.ownerRel = some "person") (ids : List String) (w : World) :
    ∃ w', (forEach (fun k => tombstoneOne env child k none .absent) ids).run w = .ok () w' ∧
      (∀ u k, ¬ (u = child ∧ k ∈ ids) → w'.db.row? u k = w.db.row? u k) ∧
      ∀ k ∈ ids, w'.db.isLive child k = false := by
  induction ids generalizing w with
  | nil => exact ⟨w, rfl, fun _ _ _ => rfl, nofun⟩
  | cons id ids ih =>
      let w₁ := World.bury { w with tick := w.tick + 1 } child id none .absent none (env.now w.tick)
      obtain ⟨w', hrun, hrows, hdead⟩ := ih w₁
      have hothers : ∀ u k, ¬ (u = child ∧ k = id) → w₁.db.row? u k = w.db.row? u k := by
        intro u k hother
        change (tombstone child id none .absent none (env.now w.tick) w.db).row? u k = _
        rw [row?_tombstone, if_neg hother, ownedFk_child hchild, ite_self]
      have hhere : w₁.db.isLive child id = false := not_isLive_tombstone ..
      refine ⟨w', ?_, fun u k hother => ?_, fun k hk => ?_⟩
      · rw [forEach, run_bind_of_ok (tombstoneOne_run ..), hrun]
      · rw [hrows u k fun h => hother ⟨h.1, by simp [h.2]⟩,
          hothers u k fun h => hother ⟨h.1, by simp [h.2]⟩]
      · by_cases hlater : k ∈ ids
        · exact hdead k hlater
        · obtain rfl : k = id := (List.mem_cons.mp hk).resolve_right hlater
          rw [Db.isLive, hrows child k fun h => hlater h.2]
          exact hhere

/-- What a diff does about one kind of child. -/
def diffChild (env : Env) (id : String) (kept : String → Bool) (child : Res) : Proc Unit := do
  let held := (← get).db.select child fun _ row =>
    row.live && child.column "person_pco_id" row.raw == some id
  forEach (fun k => tombstoneOne env child k none .absent) (held.filter (!kept ·))

/-- The children of a kind that are kept are those the test keeps. -/
theorem run_diffChild (env : Env) (id : String) (hchild : child.info.ownerRel = some "person") (kept : String → Bool)
    (w : World) : ∃ w', (diffChild env id kept child).run w = .ok () w' ∧
      (∀ u k, u ≠ child → w'.db.row? u k = w.db.row? u k) ∧
      ∀ k, w'.db.childOf child id k ↔ w.db.childOf child id k ∧ kept k = true := by
  obtain ⟨w', hrun, hrows, hdead⟩ := run_absent env hchild
    ((w.db.select child fun _ row =>
      row.live && child.column "person_pco_id" row.raw == some id).filter (!kept ·)) w
  have hmem : ∀ k, (k ∈ (w.db.select child fun _ row =>
      row.live && child.column "person_pco_id" row.raw == some id).filter (!kept ·)) ↔
      w.db.childOf child id k ∧ kept k = false := by
    intro k
    rw [List.mem_filter, Db.mem_select, Db.childOf]
    simp
  refine ⟨w', hrun, fun u k hne => hrows u k fun h => hne h.1, fun k => ?_⟩
  by_cases hleft : w.db.childOf child id k ∧ kept k = false
  · have hnot := hdead k ((hmem k).mpr hleft)
    refine iff_of_false (fun ⟨row, hrow, hlive, _⟩ => ?_) fun h => ?_
    · rw [Db.isLive, hrow, Option.any_some, hlive] at hnot
      cases hnot
    · rw [hleft.2] at h
      cases h.2
  · rw [Db.childOf_congr (hrows child k fun h => hleft ((hmem k).mp h.2))]
    refine ⟨fun h => ⟨h, ?_⟩, fun h => h.1⟩
    cases hkept : kept k with
    | true => rfl
    | false => exact absurd ⟨h, hkept⟩ hleft

theorem run_diffChildren (env : Env) (id : String) (kept : Res → String → Bool) (children : List Res)
    (hchildren : ∀ child ∈ children, child.info.ownerRel = some "person") (w : World) :
    ∃ w', (forEach (fun child => diffChild env id (kept child) child) children).run w =
        .ok () w' ∧
      (∀ u k, u ∉ children → w'.db.row? u k = w.db.row? u k) ∧
      ∀ child ∈ children, ∀ k,
        w'.db.childOf child id k ↔ w.db.childOf child id k ∧ kept child k = true := by
  induction children generalizing w with
  | nil => exact ⟨w, rfl, fun _ _ _ => rfl, nofun⟩
  | cons child children ih =>
      obtain ⟨w₁, hrun₁, hrows₁, hkept₁⟩ :=
        run_diffChild env id (hchildren child (by simp)) (kept child) w
      obtain ⟨w', hrun, hrows, hkept⟩ := ih (fun c hc => hchildren c (by simp [hc])) w₁
      refine ⟨w', ?_, fun u k hu => ?_, fun c hc k => ?_⟩
      · rw [forEach, run_bind_of_ok hrun₁, hrun]
      · rw [hrows u k fun h => hu (by simp [h]), hrows₁ u k fun h => hu (by simp [h])]
      · by_cases hlater : c ∈ children
        · rw [hkept c hlater k]
          by_cases hc : c = child
          · subst hc
            rw [hkept₁ k]
            tauto
          · rw [Db.childOf_congr (hrows₁ c k hc)]
        · obtain rfl : c = child := (List.mem_cons.mp hc).resolve_right hlater
          rw [Db.childOf_congr (hrows c k hlater), hkept₁ k]

/-- What an entry of a sideload comes to: the child it is, where it is one of a person's. -/
def presentChild (inc : Json) : Except PyError (Option (Res × Json)) := do
  match ← resourceOf inc with
  | some child =>
    if child.info.ownerRel = some "person" then return some (child, ← itemId inc) else return none
  | none => return none

/-- The sideloaded children are those of the document, each under its type and id. -/
theorem presentChildren_of_resource (hresource : ∀ d ∈ included, ∃ type k, IsResource d type k) :
    ∃ present, presentChildren included = .ok present ∧
      ∀ child : Res, child.info.ownerRel = some "person" → ∀ k,
        (child, Json.str k) ∈ present ↔ Sideloads included child k := by
  have hread : ∀ d type k, IsResource d type k → presentChild d = .ok ((byType type).bind fun child =>
      if child.info.ownerRel = some "person" then some (child, .str k) else none) := by
    intro d type k hd
    have hitem : itemId d = .ok (.str k) := by
      have hid := hd.id_eq
      cases d with
      | obj members =>
          have hlookup : members.lookup "id" = some (.str k) := hid
          simp [itemId, pyItem, hlookup, bind, Except.bind, pure, Except.pure]
      | _ => cases hid
    simp only [presentChild, resourceOf_of_type hd.type_eq]
    cases byType type with
    | none => rfl
    | some child =>
        simp only [hitem]
        by_cases howner : child.info.ownerRel = some "person"
        · simp [howner, bind, Except.bind, pure, Except.pure]
        · simp [howner, bind, Except.bind, pure, Except.pure]
  obtain ⟨found, hfound⟩ : Succeeds (included.mapM presentChild) := by
    refine succeeds_mapM.mpr fun d hd => ?_
    obtain ⟨type, k, hdoc⟩ := hresource d hd
    exact ⟨_, hread d type k hdoc⟩
  refine ⟨found.filterMap id, ?_, fun child hchild k => ?_⟩
  · change (included.mapM presentChild >>= fun found => pure (found.filterMap id)) = _
    rw [hfound]
    rfl
  · rw [List.mem_filterMap]
    simp only [id_eq, exists_eq_right, mem_mapM_iff hfound]
    constructor
    · rintro ⟨d, hd, heq⟩
      obtain ⟨type, k', hdoc⟩ := hresource d hd
      rw [hread d type k' hdoc] at heq
      obtain ⟨found, htype, hkept⟩ := Option.bind_eq_some_iff.mp (Except.ok.inj heq)
      split_ifs at hkept
      cases hkept
      exact ⟨d, hd, byType_eq_some htype ▸ hdoc⟩
    · rintro ⟨d, hd, hdoc⟩
      refine ⟨d, hd, ?_⟩
      rw [hread d _ k hdoc, byType_type]
      simp [hchild]

/-- A diff asks of each kind of child which are kept. -/
theorem includeDiff_eq {claimed : List (Option Json × String)} {present : List (Res × Json)}
    (hid : idOf record = .ok id) (hclaimed : relatedIds record = .ok claimed)
    (hpresent : presentChildren included = .ok present) (env : Env) (asked : List String) :
    includeDiff env included asked record = forEach (fun child => diffChild env id (fun k =>
      present.contains (child, .str k) || claimed.contains (some (.str child.info.type), k)) child)
      (askedChildren asked) := by
  rw [includeDiff, hid, hclaimed, hpresent]
  simp only [ofPy, pure_bind, diffChild, Bool.not_or]

/-- What a diff keeps: the sideloaded children, and those the person's relationships name. -/
theorem run_includeDiff (env : Env) (asked : List String) {claimed : List (Option Json × String)}
    (hid : idOf record = .ok id) (hclaimed : relatedIds record = .ok claimed)
    (hresource : ∀ d ∈ included, ∃ type k, IsResource d type k) (w : World) :
    ∃ w', (includeDiff env included asked record).run w = .ok () w' ∧
      (∀ u k, u ∉ askedChildren asked → w'.db.row? u k = w.db.row? u k) ∧
      ∀ child ∈ askedChildren asked, ∀ k, w'.db.childOf child id k ↔
        w.db.childOf child id k ∧ (Sideloads included child k ∨ Claims record child k) := by
  obtain ⟨present, hpresent, hmem⟩ := presentChildren_of_resource hresource
  obtain ⟨w', hrun, hrows, hkept⟩ := run_diffChildren env id
    (fun child k => present.contains (child, .str k) ||
      claimed.contains (some (.str child.info.type), k))
    (askedChildren asked) (fun child => ownerRel_of_mem_askedChildren) w
  refine ⟨w', ?_, hrows, fun child hchild k => ?_⟩
  · rw [includeDiff_eq hid hclaimed hpresent, hrun]
  · rw [hkept child hchild k]
    simp [hmem child (ownerRel_of_mem_askedChildren hchild) k, Claims, hclaimed]

/-! ## The person's own row -/

/-- The person is live once their record has been routed. -/
def Db.comesOut (db : Db) (id : String) (record : Json) : Bool :=
  (db.row? .person id).all fun row => row.live || row.revivedBy record

theorem live_upserted (record : Json) (w : Stamp) (held : Option Row) :
    (upserted record w held).live = held.all fun row => row.live || row.revivedBy record := by
  cases held with
  | none => rfl
  | some row =>
      simp only [upserted_some, Row.live, Row.upsert, Option.all_some]
      cases row.revivedBy record <;> simp

/-- A child of the person after the person's record has been routed. -/
theorem row?_upsert_person (hchild : child.info.ownerRel = some "person") (w : Stamp) (db : Db)
    (k : String) : (upsert .person id record w db).row? child k =
      (db.row? child k).map fun row =>
        if db.comesOut id record then row.uncascade child id w.now "person_pco_id" else row := by
  have hne : child ≠ .person := by
    rintro rfl
    cases hchild
  have hsettle : ∀ db' : Db, settle .person id w.now db' = uncascade .person id w.now db' :=
    fun _ => rfl
  have hput : (db.put .person id (upserted record w (db.row? .person id))).row? child k =
      db.row? child k := by
    rw [Db.row?_put, if_neg fun h => hne h.1]
  have hlive : (db.put .person id (upserted record w (db.row? .person id))).isLive .person id =
      db.comesOut id record := by
    rw [Db.isLive, Db.row?_put_self, Option.any_some, live_upserted]
    rfl
  rw [upsert_eq, hsettle, row?_uncascade, hlive, ownedFk_of_ownerRel hchild, if_pos rfl, hput]
  cases db.comesOut id record with
  | true => simp
  | false => simp

/-- The state after the person's own record has been routed. -/
def World.personStored (w : World) (env : Env) (id : String) (asked : List String)
    (resp : Response) (record : Json) : World :=
  let handed : World := { w.asked env (.record .person id asked) with
    log := .handed resp.status record :: (w.asked env (.record .person id asked)).log }
  handed.routedOne env .reconcile none [] record

theorem personStored_db (h : IsPersonAnswer id asked resp record included) (w : World) :
    (w.personStored env id asked resp record).db =
      upsert .person id record ⟨.reconcile, env.apiVersion, env.now (w.tick + 1)⟩ w.db := by
  obtain ⟨uat, hrecord⟩ := h.person
  exact routed_record hrecord rfl _ w.db

/-- A re-read routes the record, then the sideloaded resources, then takes the difference. -/
theorem run_hydrate_person (h : IsPersonAnswer id asked resp record included) {w w' : World}
    (hresp : env.respond w.tick (.record .person id asked) = .ok resp)
    (hrun : (do
        forEach (routeOne env .reconcile (some (ownerHint .person id)) []) included
        includeDiff env included asked record : Proc Unit).run
      (w.personStored env id asked resp record) = .ok () w') :
    (hydrate env .person id asked).run w = .ok () w' := by
  obtain ⟨uat, hrecord⟩ := h.person
  have hstatus : resp.status ≠ 404 := by
    intro heq
    have hok := h.ok
    simp [Response.ok, heq] at hok
  have hstored : (storeHydrated env .person id resp.status record).run
      (w.asked env (.record .person id asked)) =
      .ok () (w.personStored env id asked resp record) :=
    routeOne_run hrecord.routeTarget env .reconcile _
  rw [hydrate, clientGet_bind_run hresp, hydrateAnswer, if_neg hstatus, if_pos h.ok, h.record_eq]
  simp only [ofPy, pure_bind, whenSome]
  rw [run_bind_of_ok hstored, h.included_eq]
  exact hrun

end PcoMirror
