import PcoMirror.Verification.Serving.Addresses
import PcoMirror.Verification.Serving.Following

/-! Whether the links of a served record lead back to the mirror. -/

namespace PcoMirror

open Program

variable {env : Env} {transport : Transport} {site : Site} {u : Unicode} {fuel : ℕ}
  {scopes : List String} {w : World} {x : Reading} {r parent : Res} {held : Held} {rel : Rel}
  {path name : String}

/-! ## Reads without a query -/

/-- The first page of a collection, in the order of its ids. -/
def firstPage (u : Unicode) (db : Db) (t : Res) (keeps : Held → Bool) : List Held :=
  (sortRows u t [] ((db.liveRows t).filter keeps)).take 25

/-- The page as `_list` has it where nothing is asked of it. -/
def plainPage (u : Unicode) (db : Db) (t : Res) (keeps : Held → Bool) : Page :=
  ⟨25, 0, ((db.liveRows t).filter keeps).length, firstPage u db t keeps⟩

theorem run_listPage_nil (t : Res) (keeps : Held → Bool) :
    (listPage site u t [] keeps).run x = .ok (plainPage u x.world.db t keeps) x := by
  have hmatching : (((x.world.db.liveRows t).filter keeps).filterM fun held =>
      allHold site u x.world.db t held []) = .ok ((x.world.db.liveRows t).filter keeps) := by
    have hkept : (((x.world.db.liveRows t).filter keeps).filterM fun held =>
        allHold site u x.world.db t held []) =
          .ok (((x.world.db.liveRows t).filter keeps).filter fun _ => true) :=
      filterM_ok fun _ _ => rfl
    simpa using hkept
  have hwhere : buildWhere u t [] = .ok [] := rfl
  have horder : buildOrder t [] = .ok [] := rfl
  have hperPage : intParam u [] "per_page" 25 = .ok 25 := rfl
  have hoffset : intParam u [] "offset" 0 = .ok 0 := rfl
  unfold listPage
  rw [hwhere, horder, hperPage, hoffset]
  change (readSql _ >>= _ : Read Page).run x = _
  rw [hmatching]
  rfl

theorem run_list_nil (t : Res) (keeps : Held → Bool) (about : Option Json) :
    (list env site u fuel t path [] keeps about).run x =
      match (firstPage u x.world.db t keeps).mapM fun one => site.serialize t one [] [] with
      | .ok data => .ok ⟨200, mirrored, .document (.obj ([("data", .arr data),
          ("meta", .obj (pageMeta t (plainPage u x.world.db t keeps)
            (about.getD x.world.orgParent))),
          ("links", .obj (pageLinks path [] (plainPage u x.world.db t keeps)))]))⟩ x
      | .error e => .error (.raised e) x := by
  have hincludes : buildIncludes env site u fuel t (plainPage u x.world.db t keeps).rows [] =
      pure {} := rfl
  unfold list
  rw [run_bind_of_ok (run_listPage_nil t keeps), hincludes, pure_bind]
  change (readPy ((firstPage u x.world.db t keeps).mapM fun one => site.serialize t one [] []) >>=
    _ : Read Reply).run x = _
  cases (firstPage u x.world.db t keeps).mapM fun one => site.serialize t one [] [] with
  | ok data => rfl
  | error e => rfl

theorem run_database : (database : Read Db).run x = .ok x.world.db x :=
  rfl

theorem run_single_nil (hlive : held ∈ x.world.db.liveRows r) :
    (single env transport site u fuel scopes r held.1 path []).run x =
      match site.serialize r held [] [] with
      | .ok data => .ok ⟨200, mirrored, .document (.obj ([("data", data),
          ("meta", .obj [("can_include", names (r.info.relationships.map (·.1))),
            ("parent", x.world.orgParent)])]))⟩ x
      | .error e => .error (.raised e) x := by
  obtain ⟨hrow, hrowLive⟩ := Db.mem_liveRows.mp hlive
  unfold single
  rw [run_bind_of_ok run_database, hrow]
  simp only [hrowLive]
  change (readPy (site.serialize r held [] []) >>= _ : Read Reply).run x = _
  cases site.serialize r held [] [] with
  | ok data => rfl
  | error e => rfl

/-! ## Walked collections -/

/-- Every live parent whose collection a relationship of the row is read from has been walked. -/
def World.Knows (w : World) (r : Res) (rel : Rel) (held : Held) : Prop :=
  ∀ parent, rel.walkedUnder = some parent → ∃ ids, w.db.parentIds r parent held = .ok ids ∧
    ∀ id ∈ ids, w.db.isLive parent id = true → w.parentWalked rel.target id = true

/-- The read stands over this mirror. -/
def Reading.Over (w : World) (x : Reading) : Prop :=
  x.world = w

theorem spec_noteEnsured (c : Res) (id : String) {E : Fault → Reading → Prop} :
    Spec (Reading.Over w) (noteEnsured c id) (fun _ => Reading.Over w) E :=
  Spec.modify fun _ h => h

theorem over_fillParent (c parent : Res) (budget : ℕ) (id : String)
    (h : w.db.isLive parent id = true → w.parentWalked c id = true) :
    Spec (Reading.Over w) (fillParent env fuel c parent budget id) (fun _ => Reading.Over w)
      fun _ _ => False := by
  refine Spec.bind (R := fun x₀ x => x₀ = x ∧ x.Over w) (fun x hx => ⟨rfl, hx⟩) fun x₀ => ?_
  refine Spec.ite (fun _ => ?_) fun hunknown => Spec.ite (fun _ => ?_) fun hlive => ?_
  · exact Spec.bind ((spec_noteEnsured c id).conseq (fun _ h => h.2) (fun _ _ h => h)
      fun _ _ h => h) fun _ => Spec.pure fun _ h => h
  · exact Spec.pure fun _ h => h.2
  · rintro x ⟨rfl, rfl⟩
    simp only [Bool.not_eq_true', Bool.not_eq_false] at hlive
    exact absurd (h hlive) hunknown

/-- What is known is read without a word to PCO. -/
theorem over_ensureWalked (env : Env) (fuel : ℕ) (h : w.Knows r rel held) :
    Spec (Reading.Over w) (ensureWalked env fuel r rel [held]) (fun _ => Reading.Over w)
      fun _ _ => False := by
  unfold ensureWalked
  cases hunder : rel.walkedUnder with
  | none => exact Spec.pure fun _ h => h
  | some parent =>
      obtain ⟨ids, hids, hknown⟩ := h parent hunder
      refine Spec.bind (Spec.foldlM (I := fun _ => Reading.Over w) [held]
        (fun budget one hone => ?_) 25) fun _ => Spec.pure fun _ h => h
      rw [List.mem_singleton.mp hone]
      refine Spec.bind (R := fun db x => db = w.db ∧ x.Over w)
        (fun x hx => ⟨congrArg World.db hx, hx⟩) fun db => ?_
      rintro x ⟨rfl, hx⟩
      rw [hids]
      exact Spec.foldlM (I := fun _ => Reading.Over w) ids (fun budget id hid =>
        over_fillParent rel.target parent budget id (hknown id hid)) budget x hx

/-! ## With PCO out of reach -/

/-- A fault that becomes no answer of success. -/
def Fault.Refuses : Fault → Prop
  | .http status _ _ => status ≠ 200
  | _ => True

theorem refuses_readPy {α : Type} {P : Reading → Prop} (e : Except PyError α) :
    Spec P (readPy e) (fun a x => e = .ok a ∧ P x) fun fault _ => fault.Refuses := by
  cases e with
  | ok a => exact Spec.pure fun _ h => ⟨rfl, h⟩
  | error e => exact Spec.throw fun _ _ => trivial

/-- A collection that was never walked is not walked while PCO answers nothing. -/
theorem not_walked (c parent : Res) (id : String) :
    Spec (fun w => w.parentWalked c id = false) (ensureParentWalked quietEnv c parent id fuel)
      (fun _ _ => False) fun _ _ => True := by
  have hget (request : Request) : Spec (fun _ => True) (clientGet quietEnv request)
      (fun _ _ => False) fun _ _ => True := fun _ _ => trivial
  refine Spec.bind (R := fun w₀ w => w₀ = w ∧ w.parentWalked c id = false)
    (fun w hw => ⟨rfl, hw⟩) fun w₀ => Spec.ite (fun hwalked => ?_) fun _ => ?_
  · rintro w ⟨rfl, hnot⟩
    rw [hnot] at hwalked
    cases hwalked
  · refine Spec.bind (R := fun _ _ => False) ?_ fun _ => nofun
    refine Spec.bind (R := fun _ _ => False) ?_ fun _ => nofun
    refine Spec.bind (R := fun _ _ => False) ?_ fun _ => nofun
    refine (Spec.whileTrue (fun _ _ => True) (fun p => ?_) (fun _ _ _ => trivial) fuel _).conseq
      (fun _ _ => trivial) (fun _ _ h => h) fun _ _ h => h
    exact Spec.bind (hget _) fun _ => nofun

theorem refuses_fillParent (c parent : Res) (budget : ℕ) (id : String) :
    Spec (Reading.Over w) (fillParent quietEnv fuel c parent budget id)
      (fun _ x => x.Over w ∧ (w.db.isLive parent id = true → w.parentWalked c id = true))
      fun fault _ => fault.Refuses := by
  refine Spec.bind (R := fun x₀ x => x₀ = x ∧ x.Over w) (fun x hx => ⟨rfl, hx⟩) fun x₀ => ?_
  refine Spec.ite (fun hknown => ?_) fun hunknown => Spec.ite (fun hdead => ?_) fun _ =>
    Spec.ite (fun _ => Spec.throw fun _ _ => (by decide : (503 : ℕ) ≠ 200)) fun _ => ?_
  · refine Spec.bind (R := fun _ x => x.Over w ∧ x₀.world = w) ?_ fun _ => Spec.pure ?_
    · exact Spec.modify fun x h => ⟨h.2, h.1 ▸ h.2⟩
    · rintro x ⟨hx, rfl⟩
      exact ⟨hx, fun _ => hknown⟩
  · refine Spec.pure ?_
    rintro x ⟨rfl, rfl⟩
    refine ⟨rfl, fun hlive => ?_⟩
    rw [hlive] at hdead
    cases hdead
  · by_cases hnot : w.parentWalked c id = false
    · refine Spec.bind (R := fun tried _ => ∀ a, tried ≠ .ok a) ?_ fun tried => ?_
      · refine (spec_onMirror_faults (spec_tried (not_walked c parent id))).conseq ?_ ?_ ?_
        · rintro x ⟨-, rfl⟩
          exact hnot
        · exact fun tried x h a ha => h a ha
        · intro fault x h
          cases fault with
          | http status detail info => exact absurd rfl (h status detail info)
          | _ => trivial
      · cases tried with
        | ok a => exact fun x hx => absurd rfl (hx a)
        | error e => exact Spec.throw fun _ _ => (by decide : (503 : ℕ) ≠ 200)
    · rintro x ⟨rfl, rfl⟩
      exact absurd (by simpa using hnot) hunknown

theorem refuses_fillAll (c parent : Res) (ids : List String) (budget : ℕ) :
    Spec (Reading.Over w) (ids.foldlM (fillParent quietEnv fuel c parent) budget)
      (fun _ x => x.Over w ∧
        ∀ id ∈ ids, w.db.isLive parent id = true → w.parentWalked c id = true)
      fun fault _ => fault.Refuses := by
  induction ids generalizing budget with
  | nil => exact Spec.pure fun x hx => ⟨hx, nofun⟩
  | cons id ids ih =>
      rw [List.foldlM_cons]
      refine Spec.bind (refuses_fillParent c parent budget id) fun budget' => ?_
      refine (Spec.aside fun _ => ih budget').conseq (fun _ h => h) ?_ fun _ _ h => h
      rintro _ x ⟨⟨hx, hids⟩, hid⟩
      exact ⟨hx, List.forall_mem_cons.mpr ⟨hid, hids⟩⟩

theorem refuses_ensureWalked :
    Spec (Reading.Over w) (ensureWalked quietEnv fuel r rel [held])
      (fun _ x => x.Over w ∧ w.Knows r rel held) fun fault _ => fault.Refuses := by
  unfold ensureWalked World.Knows
  cases rel.walkedUnder with
  | none => exact Spec.pure fun x hx => ⟨hx, nofun⟩
  | some parent =>
      simp only [List.foldlM_cons, List.foldlM_nil, bind_pure]
      refine Spec.bind ?_ fun _ => Spec.pure fun _ h => h
      refine Spec.bind (R := fun db x => db = w.db ∧ x.Over w)
        (fun x hx => ⟨congrArg World.db hx, hx⟩) fun db => ?_
      refine Spec.bind (refuses_readPy _) fun ids => ?_
      rintro x ⟨hids, rfl, hx⟩
      refine ((refuses_fillAll rel.target parent ids 25).conseq (fun _ h => h) ?_
        fun _ _ h => h) x hx
      rintro _ y ⟨hy, hknown⟩
      refine ⟨hy, ?_⟩
      rintro _ ⟨⟩
      exact ⟨ids, hids, hknown⟩

/-! ## One relationship of a record -/

/-- What a relationship of the row leads to can be served: a record that is held, or the first page
of a collection that is known. -/
def World.Serves (site : Site) (u : Unicode) (w : World) (r : Res) (rel : Rel) (held : Held) : Prop :=
  match rel.kind with
  | .one => ∀ id, rel.localId r held = some id → ∃ target doc,
      w.db.live? rel.target id = some target ∧ site.serialize rel.target target [] [] = .ok doc
  | _ => w.Knows r rel held ∧ ∃ keeps docs, rel.restriction r held = .ok keeps ∧
      (firstPage u w.db rel.target keeps).mapM (fun one => site.serialize rel.target one [] []) =
        .ok docs

/-- The answer is about what the relationship of the row leads to: the record, or the first page of
the collection under the row. -/
def ShowsRelated (site : Site) (u : Unicode) (w : World) (r : Res) (rel : Rel) (held : Held)
    (reply : Reply) : Prop :=
  match rel.kind with
  | .one => ∃ id target doc, rel.localId r held = some id ∧ w.db.live? rel.target id = some target ∧
      site.serialize rel.target target [] [] = .ok doc ∧ reply.member? "data" = some doc
  | _ => ∃ keeps docs, rel.restriction r held = .ok keeps ∧
      (firstPage u w.db rel.target keeps).mapM (fun one => site.serialize rel.target one [] []) =
        .ok docs ∧ reply.member? "data" = some (.arr docs) ∧
      (reply.member? "meta").bind (·.member? "parent") =
        some (.obj [("type", .str r.info.type), ("id", .str held.1)])

/-- The answer to a link of a relationship. -/
def AnswersRelated (site : Site) (u : Unicode) (w : World) (r : Res) (rel : Rel) (held : Held)
    (reply : Reply) : Prop :=
  reply.status = 200 ∧ reply.headers = mirrored ∧ ShowsRelated site u w r rel held reply

/-- A known collection under a row, read without a query. -/
def collection (env : Env) (site : Site) (u : Unicode) (fuel : ℕ) (r : Res) (rel : Rel)
    (held : Held) (path : String) : Read Reply := do
  ensureWalked env fuel r rel [held]
  present fun db => db.presents r rel [held]
  let keeps ← readPy (rel.restriction r held)
  list env site u fuel rel.target path [] keeps
    (some (.obj [("type", .str r.info.type), ("id", .str held.1)]))

theorem collection_serves (env : Env) (fuel : ℕ) (path : String) {keeps : Held → Bool}
    {docs : List Json} (hknows : x.world.Knows r rel held)
    (hkeeps : rel.restriction r held = .ok keeps)
    (hdocs : (firstPage u x.world.db rel.target keeps).mapM
      (fun one => site.serialize rel.target one [] []) = .ok docs) :
    ∃ reply x', (collection env site u fuel r rel held path).run x = .ok reply x' ∧
      reply.status = 200 ∧ reply.headers = mirrored ∧ reply.member? "data" = some (.arr docs) ∧
      (reply.member? "meta").bind (·.member? "parent") =
        some (.obj [("type", .str r.info.type), ("id", .str held.1)]) := by
  obtain ⟨_, x₁, hwalked, hworld⟩ := (over_ensureWalked env fuel hknows).returns
    (s := x) rfl
  have hpresent : (present fun db => db.presents r rel [held]).run x₁ =
      .ok ⟨⟩ (x₁.present (x₁.world.db.presents r rel [held])) := rfl
  have hsame : (x₁.present (x₁.world.db.presents r rel [held])).world = x.world := hworld
  unfold collection
  rw [run_bind_of_ok hwalked, run_bind_of_ok hpresent, hkeeps, readPy, pure_bind, run_list_nil,
    hsame, hdocs]
  exact ⟨_, _, rfl, rfl, rfl, rfl, rfl⟩

theorem nested_serves (env : Env) (transport : Transport) (fuel : ℕ) (scopes : List String)
    (path : String) (hlive : held ∈ x.world.db.liveRows r)
    (hrel : r.info.relationships.lookup name = some rel)
    (hserves : x.world.Serves site u r rel held) :
    (∃ reply x', (nested env transport site u fuel scopes r held.1 name path []).run x =
        .ok reply x' ∧ AnswersRelated site u x.world r rel held reply) ∨
      rel.kind = .one ∧ rel.localId r held = none ∧
        (nested env transport site u fuel scopes r held.1 name path []).run x =
          .error notFound x := by
  have hheld : x.world.db.live? r held.1 = some held := Db.live?_eq_some.mpr ⟨rfl, hlive⟩
  unfold nested
  simp only [hrel]
  rw [run_bind_of_ok run_database]
  simp only [hheld]
  unfold World.Serves at hserves
  unfold AnswersRelated ShowsRelated
  cases hkind : rel.kind with
  | one =>
      rw [hkind] at hserves
      simp only [if_true]
      rw [run_bind_of_ok run_database]
      cases hid : rel.localId r held with
      | none => exact .inr ⟨trivial, rfl, rfl⟩
      | some id =>
          obtain ⟨target, doc, htarget, hdoc⟩ := hserves id hid
          obtain ⟨rfl, htargetLive⟩ := Db.live?_eq_some.mp htarget
          left
          simp only [Option.bind_some, htarget]
          rw [run_single_nil htargetLive, hdoc]
          exact ⟨_, _, rfl, rfl, rfl, target.1, target, doc, rfl, htarget, hdoc, rfl⟩
  | many =>
      rw [hkind] at hserves
      obtain ⟨hknows, keeps, docs, hkeeps, hdocs⟩ := hserves
      obtain ⟨reply, x', hrun, hstatus, hheaders, hdata, hparent⟩ :=
        collection_serves env fuel path hknows hkeeps hdocs
      exact .inl ⟨reply, x', hrun, hstatus, hheaders, keeps, docs, hkeeps, hdocs, hdata, hparent⟩
  | json =>
      rw [hkind] at hserves
      obtain ⟨hknows, keeps, docs, hkeeps, hdocs⟩ := hserves
      obtain ⟨reply, x', hrun, hstatus, hheaders, hdata, hparent⟩ :=
        collection_serves env fuel path hknows hkeeps hdocs
      exact .inl ⟨reply, x', hrun, hstatus, hheaders, keeps, docs, hkeeps, hdocs, hdata, hparent⟩

theorem collection_refuses (path : String) :
    Spec (Reading.Over w) (collection quietEnv site u fuel r rel held path)
      (fun _ _ => w.Knows r rel held ∧ ∃ keeps docs, rel.restriction r held = .ok keeps ∧
        (firstPage u w.db rel.target keeps).mapM (fun one => site.serialize rel.target one [] []) =
          .ok docs) fun fault _ => fault.Refuses := by
  refine Spec.bind refuses_ensureWalked fun _ => Spec.bind
    (R := fun _ x => x.Over w ∧ w.Knows r rel held) (Spec.modify fun _ h => h) fun _ =>
    Spec.bind (refuses_readPy _) fun keeps => ?_
  rintro x ⟨hkeeps, rfl, hknows⟩
  rw [run_list_nil]
  cases hdocs : (firstPage u x.world.db rel.target keeps).mapM
      (fun one => site.serialize rel.target one [] []) with
  | ok docs => exact ⟨hknows, keeps, docs, hkeeps, hdocs⟩
  | error e => trivial

theorem nested_refuses (hlive : held ∈ w.db.liveRows r)
    (hrel : r.info.relationships.lookup name = some rel) :
    Spec (Reading.Over w) (nested quietEnv transport site u fuel scopes r held.1 name path [])
      (fun _ _ => w.Serves site u r rel held) fun fault _ => fault.Refuses := by
  rintro x rfl
  have hheld : x.world.db.live? r held.1 = some held := Db.live?_eq_some.mpr ⟨rfl, hlive⟩
  have h404 : notFound.Refuses := (by decide : (404 : ℕ) ≠ 200)
  unfold nested
  simp only [hrel]
  rw [run_bind_of_ok run_database]
  simp only [hheld]
  unfold World.Serves
  cases hkind : rel.kind with
  | one =>
      simp only [if_true]
      rw [run_bind_of_ok run_database]
      cases hid : rel.localId r held with
      | none => exact h404
      | some id =>
          simp only [Option.bind_some]
          cases htarget : x.world.db.live? rel.target id with
          | none => exact h404
          | some target =>
              obtain ⟨rfl, htargetLive⟩ := Db.live?_eq_some.mp htarget
              simp only
              rw [run_single_nil htargetLive]
              cases hdoc : site.serialize rel.target target [] [] with
              | ok doc =>
                  rintro _ ⟨⟩
                  exact ⟨target, doc, htarget, hdoc⟩
              | error e => trivial
  | many => exact collection_refuses path x rfl
  | json => exact collection_refuses path x rfl

/-! ## Under a parent -/

/-- A record of a type that is only served under a parent names one that is live, and whose
collection has been walked. -/
def World.Addressed (w : World) (r : Res) (held : Held) : Prop :=
  ∀ parent, r.info.parent = some parent → ∃ parentId, r.parentId held = some parentId ∧
    parentId ≠ "" ∧ w.db.isLive parent parentId = true ∧ w.parentWalked r parentId = true

theorem live?_of_isLive {db : Db} {t : Res} {id : String} (h : db.isLive t id = true) :
    ∃ row, db.live? t id = some (id, row) := by
  obtain ⟨row, hrow, hlive⟩ := Db.isLive_iff.mp h
  exact ⟨row, Db.live?_eq_some.mpr ⟨rfl, Db.mem_liveRows.mpr ⟨hrow, by simp [Row.live, hlive]⟩⟩⟩

theorem ChildEdge.knows_iff (hedge : ChildEdge parent r rel) (id : String) (row : Row) :
    w.Knows parent rel (id, row) ↔
      (w.db.isLive parent id = true → w.parentWalked r id = true) := by
  have hids : w.db.parentIds parent parent (id, row) = .ok [id] := if_pos rfl
  constructor
  · intro h
    obtain ⟨ids, hids', hknown⟩ := h parent hedge.walked
    rw [hids] at hids'
    cases hids'
    rw [hedge.target] at hknown
    exact hknown id List.mem_cons_self
  · intro h parent' hparent
    rw [hedge.walked] at hparent
    cases hparent
    refine ⟨[id], hids, fun id' hid' => ?_⟩
    rw [List.mem_singleton.mp hid', hedge.target]
    exact h

theorem ChildEdge.restriction_eq (hedge : ChildEdge parent r rel) (id : String) (row : Row) :
    rel.restriction parent (id, row) = .ok fun x => r.parentId x == some id := by
  unfold Rel.restriction
  rw [hedge.kind, hedge.childFk, hedge.target]
  rfl

/-- What `_nested_single` goes on to, once the record is found under its parent. -/
def underParent (env : Env) (transport : Transport) (site : Site) (u : Unicode) (fuel : ℕ)
    (scopes : List String) (r : Res) (id : String) (tail : Option String) (path : String) :
    Read Reply :=
  match tail with
  | some tail => nested env transport site u fuel scopes r id tail path []
  | none => single env transport site u fuel scopes r id path []

theorem nestedSingle_eq (env : Env) (transport : Transport) (site : Site) (u : Unicode) (fuel : ℕ)
    (scopes : List String) (path : String) (hedge : ChildEdge parent r rel) (hlive : held ∈ x.world.db.liveRows r)
    {parentId : String} (hparent : r.parentId held = some parentId)
    (hparentLive : x.world.db.isLive parent parentId = true)
    (hwalked : x.world.parentWalked r parentId = true) (tail : Option String) :
    ∃ x', x'.world = x.world ∧
      (nestedSingle env transport site u fuel scopes parent parentId r.info.segment held.1 tail path
        []).run x = (underParent env transport site u fuel scopes r held.1 tail path).run x' := by
  obtain ⟨row, hrow⟩ := live?_of_isLive hparentLive
  have hknows : x.world.Knows parent rel (parentId, row) :=
    (hedge.knows_iff parentId row).mpr fun _ => hwalked
  obtain ⟨_, x₁, hensured, hworld⟩ := (over_ensureWalked env fuel hknows).returns (s := x) rfl
  have hpresent : (present fun db => db.presents parent rel [(parentId, row)]).run x₁ =
      .ok ⟨⟩ (x₁.present (x₁.world.db.presents parent rel [(parentId, row)])) := rfl
  refine ⟨x₁.present (x₁.world.db.presents parent rel [(parentId, row)]), hworld, ?_⟩
  have hfound : ((x₁.present (x₁.world.db.presents parent rel [(parentId, row)])).world.db.row?
      rel.target held.1).filter (fun row => r.parentId (held.1, row) == some parentId) =
        some held.2 := by
    change ((x₁.world.db.row? rel.target held.1).filter _) = _
    have hsame : x₁.world.db = x.world.db := congrArg World.db hworld
    rw [hsame, hedge.target, (Db.mem_liveRows.mp hlive).1]
    simp [hparent]
  unfold nestedSingle
  simp only [hedge.name]
  rw [if_neg (by simp [hedge.kind]), run_bind_of_ok run_database]
  simp only [hrow]
  rw [run_bind_of_ok hensured, run_bind_of_ok hpresent, hedge.restriction_eq, readPy, pure_bind,
    run_bind_of_ok run_database]
  rw [hedge.target] at hfound
  simp only [hedge.target, hfound]
  rfl

theorem nestedSingle_refuses (hedge : ChildEdge parent r rel) (hlive : held ∈ w.db.liveRows r)
    (parentId : String) :
    Spec (Reading.Over w)
      (nestedSingle quietEnv transport site u fuel scopes parent parentId r.info.segment held.1 none
        path [])
      (fun _ _ => (r.parentId held = some parentId ∧ w.db.isLive parent parentId = true ∧
          w.parentWalked r parentId = true) ∧
        ∃ doc, site.serialize r held [] [] = .ok doc) fun fault _ => fault.Refuses := by
  have h404 : notFound.Refuses := (by decide : (404 : ℕ) ≠ 200)
  have hrow : w.db.row? r held.1 = some held.2 := (Db.mem_liveRows.mp hlive).1
  unfold nestedSingle
  simp only [hedge.name]
  rw [if_neg (by simp [hedge.kind])]
  refine Spec.bind (R := fun db x => x.Over w ∧ db = w.db)
    (fun x hx => ⟨hx, congrArg World.db hx⟩) fun db => ?_
  cases hparent : db.live? parent parentId with
  | none => exact Spec.throw fun _ _ => h404
  | some row =>
      obtain ⟨rfl, hparentLive⟩ := Db.live?_eq_some.mp hparent
      refine Spec.bind (Spec.aside fun _ => refuses_ensureWalked) fun _ =>
        Spec.bind (R := fun _ x => (x.Over w ∧ w.Knows parent rel row) ∧ db = w.db)
          (Spec.modify fun _ h => h) fun _ => ?_
      rw [hedge.restriction_eq row.1 row.2, readPy, pure_bind]
      rintro x ⟨⟨rfl, hknows⟩, rfl⟩
      rw [run_bind_of_ok run_database, hedge.target, hrow]
      by_cases hchild : r.parentId held = some row.1
      · have hisLive : x.world.db.isLive parent row.1 = true := by
          obtain ⟨hheld, hnot⟩ := Db.mem_liveRows.mp hparentLive
          exact Db.isLive_iff.mpr ⟨row.2, hheld, by simpa [Row.live] using hnot⟩
        have hwalked := (hedge.knows_iff row.1 row.2).mp hknows hisLive
        simp only [Option.filter, hchild, beq_self_eq_true, if_true]
        rw [run_single_nil hlive]
        cases hdoc : site.serialize r held [] [] with
        | ok doc => exact ⟨⟨trivial, hisLive, hwalked⟩, doc, rfl⟩
        | error e => trivial
      · simp only [Option.filter, beq_iff_eq, hchild, if_false]
        exact h404

end PcoMirror
