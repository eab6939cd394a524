import PcoMirror.Verification.Serving.Living
import PcoMirror.Verification.Serving.Published

/-! The links that are served with a record, followed. -/

namespace PcoMirror

open Program

variable {env : Env} {transport : Transport} {site : Site} {u : Unicode} {fuel : ℕ}
  {scopes : List String} {w : World} {x : Reading} {r : Res} {held : Held} {rel : Rel}
  {body : Body} {name : String} {members members' : List (String × Json)} {doc : Json}

/-! ## The links of a document -/

theorem lookup_withEcho {key : String} (hkey : key ≠ "relationships")
    {echo : List (String × Json)} (h : withEcho echo members = .ok members') :
    members'.lookup key = members.lookup key := by
  have hdefault : ∀ members : List (String × Json),
      (setDefault "relationships" (.obj []) members).lookup key = members.lookup key := by
    intro members
    unfold setDefault
    split
    · rfl
    · simp [List.lookup_append, List.lookup_cons, beq_false_of_ne hkey]
  induction echo generalizing members with
  | nil =>
      cases h
      rfl
  | cons e echo ih =>
      obtain ⟨next, hnext, hrest⟩ := except_bind_eq_ok.mp h
      rw [ih hrest, ← hdefault members]
      simp only at hnext
      split at hnext
      · cases hnext
        exact Json.lookup_assign_of_ne hkey _ _
      · cases hnext

theorem lookup_rewriteRelationships {key : String} (hkey : key ≠ "relationships")
    (h : site.rewriteRelationships members = .ok members') :
    members'.lookup key = members.lookup key := by
  unfold Site.rewriteRelationships at h
  split at h
  · obtain ⟨rels, -, h⟩ := except_bind_eq_ok.mp h
    cases h
    exact Json.lookup_assign_of_ne hkey _ _
  · cases h
    rfl

theorem lookup_sparse {key : String} (hattributes : key ≠ "attributes")
    (hrelationships : key ≠ "relationships") {keep : List String}
    (h : sparse keep members = .ok members') : members'.lookup key = members.lookup key := by
  obtain ⟨attributes, -, h⟩ := except_bind_eq_ok.mp h
  obtain ⟨rels, -, h⟩ := except_bind_eq_ok.mp h
  split_ifs at h
  · cases h
    exact Json.lookup_assign_of_ne hattributes _ _
  · cases h
    rw [Json.lookup_assign_of_ne hrelationships, Json.lookup_assign_of_ne hattributes]

/-- Every document is served with the link map of its row. -/
theorem serialize_links {echo : List (String × Json)} {fields : List (String × List String)}
    (h : site.serialize r held echo fields = .ok doc) :
    ∃ html, doc.member? "links" = some (.obj (linkMap r held.1 html (r.parentId held))) := by
  unfold Site.serialize at h
  split at h
  · obtain ⟨html, -, h⟩ := except_bind_eq_ok.mp h
    obtain ⟨echoed, hecho, h⟩ := except_bind_eq_ok.mp h
    obtain ⟨rewritten, hrewritten, h⟩ := except_bind_eq_ok.mp h
    have hrewrittenLinks : rewritten.lookup "links" =
        some (.obj (linkMap r held.1 html (r.parentId held))) := by
      rw [lookup_rewriteRelationships (by decide) hrewritten, lookup_withEcho (by decide) hecho,
        Json.lookup_assign]
      rfl
    refine ⟨html, ?_⟩
    cases hkeep : fields.lookup r.info.type with
    | none =>
        rw [hkeep] at h
        cases h
        rw [Json.member?, Json.lookup_assign_of_ne (by decide), hrewrittenLinks]
    | some keep =>
        rw [hkeep] at h
        obtain ⟨kept, hkept, h⟩ := except_bind_eq_ok.mp h
        cases h
        rw [Json.member?, Json.lookup_assign_of_ne (by decide),
          lookup_sparse (by decide) (by decide) hkept, hrewrittenLinks]
  · cases h

/-! ## The router -/

/-- The ids in the address of a record are segments of a path. -/
structure SegmentIds (r : Res) (held : Held) : Prop where
  id : IsSegment held.1
  parentId : ∀ parentId, r.parentId held = some parentId → parentId ≠ "" → IsSegment parentId

/-- The address of a record, and what follows it, is routed to that record. -/
theorem run_routeRead_location (env : Env) (transport : Transport) (site : Site) (u : Unicode)
    (fuel : ℕ) (body : Body) (hscopes : ReadsAll scopes) (hids : SegmentIds r held)
    (hlive : held ∈ x.world.db.liveRows r) (haddressed : x.world.Addressed r held)
    (tail : Option String) (htail : ∀ name ∈ tail, IsSegment name) :
    ∃ x', x'.world = x.world ∧
      (routeRead env transport site u fuel (.ok scopes)
          (pathOf (r.location held ++ tail.toList)) [] body).run x =
        (underParent env transport site u fuel scopes r held.1 tail
          (pathOf (r.location held ++ tail.toList))).run x' := by
  cases hparent : r.info.parent with
  | none =>
      refine ⟨x, rfl, ?_⟩
      rw [location_top hparent]
      cases tail with
      | none =>
          change (routeRead env transport site u fuel (.ok scopes)
            (pathOf (r.info.segment :: [held.1])) [] body).run x = _
          rw [routeRead_pathOf env transport site u fuel body hscopes [held.1]
            (by simpa using hids.id), hparent]
          rfl
      | some name =>
          change (routeRead env transport site u fuel (.ok scopes)
            (pathOf (r.info.segment :: [held.1, name])) [] body).run x = _
          rw [routeRead_pathOf env transport site u fuel body hscopes [held.1, name]
            (by simpa using ⟨hids.id, htail name rfl⟩)]
          rfl
  | some parent =>
      obtain ⟨parentId, hparentId, hne, hparentLive, hwalked⟩ := haddressed parent hparent
      obtain ⟨rel, hedge⟩ := childEdge hparent
      have hsegment : IsSegment parentId := hids.parentId parentId hparentId hne
      obtain ⟨x', hworld, hrun⟩ := nestedSingle_eq env transport site u fuel scopes
        (pathOf (r.location held ++ tail.toList)) hedge hlive hparentId hparentLive hwalked tail
      refine ⟨x', hworld, ?_⟩
      rw [← hrun, location_under hparent hparentId hne]
      cases tail with
      | none =>
          change (routeRead env transport site u fuel (.ok scopes)
            (pathOf (parent.info.segment :: [parentId, r.info.segment, held.1])) [] body).run x = _
          rw [routeRead_pathOf env transport site u fuel body hscopes _
            (by simpa using ⟨hsegment, isSegment_segment r, hids.id⟩)]
          rfl
      | some name =>
          change (routeRead env transport site u fuel (.ok scopes)
            (pathOf (parent.info.segment :: [parentId, r.info.segment, held.1, name])) [] body).run
              x = _
          rw [routeRead_pathOf env transport site u fuel body hscopes _
            (by simpa using ⟨hsegment, isSegment_segment r, hids.id, htail name rfl⟩)]
          rfl

/-- With PCO out of reach, an answer to the address of a record is from the mirror. -/
theorem routeRead_location_refuses (hscopes : ReadsAll scopes) (hids : SegmentIds r held)
    (hlive : held ∈ w.db.liveRows r) :
    Spec (Reading.Over w)
      (routeRead quietEnv transport site u fuel (.ok scopes) (pathOf (r.location held)) [] body)
      (fun _ _ => w.Addressed r held ∧ ∃ doc, site.serialize r held [] [] = .ok doc)
      fun fault _ => fault.Refuses := by
  cases hparent : r.info.parent with
  | none =>
      rw [location_top hparent, routeRead_pathOf quietEnv transport site u fuel body hscopes [held.1]
        (by simpa using hids.id), hparent]
      rintro x rfl
      rw [run_single_nil hlive]
      cases hdoc : site.serialize r held [] [] with
      | ok doc => exact ⟨fun parent h => absurd (hparent.symm.trans h) nofun, doc, rfl⟩
      | error e => trivial
  | some parent =>
      cases hparentId : (r.parentId held).filter (· ≠ "") with
      | none =>
          rw [location_bare hparentId, routeRead_pathOf quietEnv transport site u fuel body hscopes [held.1]
            (by simpa using hids.id), hparent]
          exact Spec.throw fun _ _ => (by decide : (404 : ℕ) ≠ 200)
      | some parentId =>
          obtain ⟨hparentId', hne⟩ := Option.filter_eq_some_iff.mp hparentId
          have hne : parentId ≠ "" := by simpa using hne
          obtain ⟨rel, hedge⟩ := childEdge hparent
          rw [location_under hparent hparentId' hne, routeRead_pathOf quietEnv transport site u fuel body hscopes _
            (by simpa using ⟨hids.parentId parentId hparentId' hne, isSegment_segment r, hids.id⟩)]
          refine (nestedSingle_refuses hedge hlive parentId).conseq (fun _ h => h) ?_
            fun _ _ h => h
          rintro _ _ ⟨⟨hparentId', hparentLive, hwalked⟩, hdoc⟩
          refine ⟨fun parent' hparent' => ?_, hdoc⟩
          cases hparent.symm.trans hparent'
          exact ⟨parentId, hparentId', hne, hparentLive, hwalked⟩

/-! ## The service -/

/-- The answer that nothing is found. -/
def unfound : Reply :=
  ⟨404, [], .document (errorDocument 404 "not found" none)⟩

theorem run_serveRead_of_ok {path : String} {x' : Reading} {reply : Reply}
    {granted : Except String (List String)}
    (h : (routeRead env transport site u fuel granted path [] body).run x = .ok reply x') :
    (serveRead env transport site u fuel granted path [] body).run x = .ok reply x' :=
  run_tryCatch_of_ok h _

theorem run_serveRead_of_notFound {path : String} {x' : Reading}
    {granted : Except String (List String)}
    (h : (routeRead env transport site u fuel granted path [] body).run x = .error notFound x') :
    (serveRead env transport site u fuel granted path [] body).run x = .ok unfound x' := by
  unfold serveRead
  rw [run_tryCatch_of_error h]
  rfl

/-- What every successful run of a route shows, every successful answer shows. -/
theorem spec_serveRead_refuses {P : Reading → Prop} {C : Prop} {path : String}
    {granted : Except String (List String)}
    (h : Spec P (routeRead env transport site u fuel granted path [] body) (fun _ _ => C)
      fun fault _ => fault.Refuses) :
    Spec P (serveRead env transport site u fuel granted path [] body)
      (fun reply _ => reply.status = 200 → C) fun _ _ => True := by
  refine Spec.tryCatch (h.conseq (fun _ h => h) (fun _ _ hC _ => hC) fun _ _ h => h) fun fault => ?_
  cases fault with
  | http status detail info =>
      exact Spec.pure fun _ hrefuses hstatus => absurd hstatus hrefuses
  | raised e => exact Spec.pure fun _ _ hstatus => absurd hstatus (by decide : (500 : ℕ) ≠ 200)
  | sqlite e =>
      cases e
      exact Spec.pure fun _ _ hstatus => absurd hstatus (by decide : (500 : ℕ) ≠ 200)
  | stopped => exact Spec.throw fun _ _ => trivial

/-! ## Links that resolve -/

/-- The answer is the record. -/
def AnswersRecord (site : Site) (r : Res) (held : Held) (reply : Reply) : Prop :=
  reply.status = 200 ∧ reply.headers = mirrored ∧
    ∃ doc, site.serialize r held [] [] = .ok doc ∧ reply.member? "data" = some doc

/-- What a link of the record is to be answered with. -/
def AnswersLink (site : Site) (u : Unicode) (w : World) (r : Res) (held : Held) (name : String)
    (reply : Reply) : Prop :=
  if name = "self" then AnswersRecord site r held reply
  else ∃ rel, r.info.relationships.lookup name = some rel ∧
    (AnswersRelated site u w r rel held reply ∨
      reply = unfound ∧ rel.kind = .one ∧ rel.localId r held = none)

/-- Whatever PCO does meanwhile, a caller who follows the links of the served document is answered
from the mirror. -/
def LinksResolve (site : Site) (u : Unicode) (scopes : List String) (x : Reading) (r : Res)
    (held : Held) (doc : Json) : Prop :=
  ∃ links, doc.member? "links" = some (.obj links) ∧ ∀ name url, (name, url) ∈ links →
    name ≠ "html" → ∃ path, url = .str path ∧ ∀ env transport fuel, ∃ reply x',
      (serveRead env transport site u fuel (.ok scopes) path [] .empty).run x = .ok reply x' ∧
        AnswersLink site u x.world r held name reply

/-- The mirror has what the links of the record lead to. -/
structure World.Publishes (site : Site) (u : Unicode) (w : World) (r : Res) (held : Held) :
    Prop where
  addressed : w.Addressed r held
  serializes : ∃ doc, site.serialize r held [] [] = .ok doc
  serves : ∀ name rel, r.info.relationships.lookup name = some rel → w.Serves site u r rel held

theorem relationship_name (h : (name, rel) ∈ r.info.relationships) :
    name ≠ "self" ∧ name ≠ "html" := by
  have hall : ∀ e ∈ r.info.relationships, e.1 ≠ "self" ∧ e.1 ≠ "html" := by
    cases r <;> decide +kernel
  exact hall (name, rel) h

theorem mem_linkMap_iff {html : Option Json} {url : Json} (hname : name ≠ "html") :
    (name, url) ∈ linkMap r held.1 html (r.parentId held) ↔
      name = "self" ∧ url = .str (pathOf (r.location held)) ∨
        (∃ rel, (name, rel) ∈ r.info.relationships) ∧
          url = .str (pathOf (r.location held ++ [name])) := by
  rw [linkMap_eq]
  simp only [List.cons_append, List.mem_cons, List.mem_append, List.mem_map, Prod.mk.injEq,
    Option.mem_toList, Option.map_eq_some_iff]
  constructor
  · rintro (⟨rfl, rfl⟩ | ⟨⟨name', rel⟩, hmem, rfl, rfl⟩ | ⟨_, -, rfl, -⟩)
    · exact .inl ⟨rfl, rfl⟩
    · exact .inr ⟨⟨rel, hmem⟩, rfl⟩
    · exact absurd rfl hname
  · rintro (⟨rfl, rfl⟩ | ⟨⟨rel, hmem⟩, rfl⟩)
    · exact .inl ⟨rfl, rfl⟩
    · exact .inr (.inl ⟨(name, rel), hmem, rfl, rfl⟩)

theorem self_resolves (hscopes : ReadsAll scopes) (hids : SegmentIds r held)
    (hlive : held ∈ x.world.db.liveRows r) (haddressed : x.world.Addressed r held)
    (hdoc : site.serialize r held [] [] = .ok doc) : ∃ reply x',
      (serveRead env transport site u fuel (.ok scopes) (pathOf (r.location held)) [] body).run x =
        .ok reply x' ∧ AnswersRecord site r held reply := by
  obtain ⟨x₁, hworld, hrun⟩ := run_routeRead_location env transport site u fuel body hscopes hids
    hlive haddressed none nofun
  rw [Option.toList_none, List.append_nil] at hrun
  have hlive₁ : held ∈ x₁.world.db.liveRows r := by
    rw [hworld]
    exact hlive
  rw [underParent, run_single_nil hlive₁, hdoc] at hrun
  exact ⟨_, _, run_serveRead_of_ok hrun, rfl, rfl, doc, hdoc, rfl⟩

theorem relationship_resolves (env : Env) (transport : Transport) (fuel : ℕ) (body : Body)
    (hscopes : ReadsAll scopes) (hids : SegmentIds r held)
    (hlive : held ∈ x.world.db.liveRows r) (haddressed : x.world.Addressed r held)
    (hrel : r.info.relationships.lookup name = some rel)
    (hserves : x.world.Serves site u r rel held) : ∃ reply x',
      (serveRead env transport site u fuel (.ok scopes) (pathOf (r.location held ++ [name])) []
        body).run x = .ok reply x' ∧
      (AnswersRelated site u x.world r rel held reply ∨
        reply = unfound ∧ rel.kind = .one ∧ rel.localId r held = none) := by
  obtain ⟨x₁, hworld, hrun⟩ := run_routeRead_location env transport site u fuel body hscopes hids
    hlive haddressed (some name) (by simpa using isSegment_relationship (mem_of_lookup hrel))
  rw [← hworld] at hlive hserves
  rcases nested_serves env transport fuel scopes (pathOf (r.location held ++ [name])) hlive hrel
      hserves with
    ⟨reply, x', hnested, hanswers⟩ | ⟨hkind, hid, hnested⟩
  · rw [hworld] at hanswers
    exact ⟨reply, x', run_serveRead_of_ok (hrun.trans hnested), .inl hanswers⟩
  · exact ⟨_, _, run_serveRead_of_notFound (hrun.trans hnested), .inr ⟨rfl, hkind, hid⟩⟩

theorem addressed_of_answersRecord (hscopes : ReadsAll scopes) (hids : SegmentIds r held)
    (hlive : held ∈ x.world.db.liveRows r) {x' : Reading} {reply : Reply}
    (hrun : (serveRead quietEnv transport site u fuel (.ok scopes) (pathOf (r.location held)) []
      body).run x = .ok reply x') (hanswers : AnswersRecord site r held reply) :
    x.world.Addressed r held ∧ ∃ doc, site.serialize r held [] [] = .ok doc :=
  (spec_serveRead_refuses (routeRead_location_refuses hscopes hids hlive)).ok rfl hrun hanswers.1

theorem serves_of_answersRelated (hscopes : ReadsAll scopes) (hids : SegmentIds r held)
    (hlive : held ∈ x.world.db.liveRows r) (haddressed : x.world.Addressed r held)
    (hrel : r.info.relationships.lookup name = some rel) {x' : Reading} {reply : Reply}
    (hrun : (serveRead quietEnv transport site u fuel (.ok scopes)
      (pathOf (r.location held ++ [name])) [] body).run x = .ok reply x')
    (hstatus : reply.status = 200) : x.world.Serves site u r rel held := by
  obtain ⟨x₁, hworld, hroute⟩ := run_routeRead_location quietEnv transport site u fuel body
    hscopes hids hlive haddressed (some name) (by simpa using isSegment_relationship (mem_of_lookup hrel))
  have hnested : Spec (fun y => y = x) (routeRead quietEnv transport site u fuel (.ok scopes)
      (pathOf (r.location held ++ [name])) [] body) (fun _ _ => x.world.Serves site u r rel held)
      fun fault _ => fault.Refuses := by
    rintro _ rfl
    rw [Option.toList_some] at hroute
    rw [hroute]
    exact nested_refuses hlive hrel x₁ hworld
  exact (spec_serveRead_refuses hnested).ok rfl hrun hstatus

theorem linksResolve_iff (hscopes : ReadsAll scopes) (hids : SegmentIds r held)
    (hlive : held ∈ x.world.db.liveRows r) {echo : List (String × Json)}
    {fields : List (String × List String)} (hdoc : site.serialize r held echo fields = .ok doc) :
    LinksResolve site u scopes x r held doc ↔ x.world.Publishes site u r held := by
  obtain ⟨html, hlinks⟩ := serialize_links hdoc
  constructor
  · rintro ⟨links, hlinks', hresolve⟩
    cases hlinks.symm.trans hlinks'
    obtain ⟨_, ⟨⟩, hself⟩ := hresolve "self" _
      ((mem_linkMap_iff (by decide)).mpr (.inl ⟨rfl, rfl⟩)) (by decide)
    obtain ⟨reply, x', hrun, hanswers⟩ := hself quietEnv (fun _ => .error .transportError) 0
    obtain ⟨haddressed, hserializes⟩ := addressed_of_answersRecord hscopes hids hlive hrun hanswers
    refine ⟨haddressed, hserializes, fun name rel hrel => ?_⟩
    have hmem := mem_of_lookup hrel
    have hname := relationship_name hmem
    obtain ⟨_, ⟨⟩, hrelated⟩ := hresolve name _
      ((mem_linkMap_iff hname.2).mpr (.inr ⟨⟨rel, hmem⟩, rfl⟩)) hname.2
    obtain ⟨reply, x', hrun, hanswers⟩ := hrelated quietEnv (fun _ => .error .transportError) 0
    rw [AnswersLink, if_neg hname.1] at hanswers
    obtain ⟨rel', hrel', hanswers⟩ := hanswers
    cases hrel.symm.trans hrel'
    rcases hanswers with ⟨hstatus, -⟩ | ⟨-, hkind, hid⟩
    · exact serves_of_answersRelated hscopes hids hlive haddressed hrel hrun hstatus
    · unfold World.Serves
      rw [hkind, hid]
      exact nofun
  · rintro ⟨haddressed, ⟨own, hown⟩, hserves⟩
    refine ⟨_, hlinks, fun name url hmem hhtml => ?_⟩
    rcases (mem_linkMap_iff hhtml).mp hmem with ⟨rfl, rfl⟩ | ⟨⟨rel₀, hrel₀⟩, rfl⟩
    · refine ⟨_, rfl, fun env transport fuel => ?_⟩
      exact self_resolves hscopes hids hlive haddressed hown
    · refine ⟨_, rfl, fun env transport fuel => ?_⟩
      obtain ⟨rel, hrel⟩ := Option.isSome_iff_exists.mp 
        (List.lookup_isSome_iff.mpr ⟨(name, rel₀), hrel₀, beq_self_eq_true name⟩)
      obtain ⟨reply, x', hrun, hanswers⟩ := relationship_resolves env transport fuel .empty hscopes hids
        hlive haddressed hrel (hserves name rel hrel)
      refine ⟨reply, x', hrun, ?_⟩
      rw [AnswersLink, if_neg (relationship_name hrel₀).1]
      exact ⟨rel, hrel, hanswers⟩

/-- In every answer from the mirror, the links of a record resolve if and only if the mirror has what
they lead to. -/
theorem links_resolve_iff (env : Env) (transport : Transport) (site : Site) (u : Unicode)
    (fuel : ℕ) (granted : Except String (List String)) (path : String) (qs : Qs) (body : Body)
    (x x' : Reading) (reply : Reply)
    (hserved : (serveRead env transport site u fuel granted path qs body).run x = .ok reply x')
    (hmirrored : reply.headers = mirrored) (doc : Json) (hdoc : doc ∈ reply.resources)
    (scopes : List String) (hscopes : ReadsAll scopes) :
    ∃ w' r held echo, Filled env fuel x.world w' ∧ held ∈ w'.db.liveRows r ∧
      site.serialize r held echo (sparseFields qs) = .ok doc ∧
      (SegmentIds r held → ∀ y : Reading, held ∈ y.world.db.liveRows r →
        (LinksResolve site u scopes y r held doc ↔ y.world.Publishes site u r held)) := by
  obtain ⟨r, held, echo, ⟨w', hw, hheld⟩, hserialized⟩ :=
    (spec_serveRead (w := x.world) granted path qs body).ok Filled.start hserved hmirrored doc hdoc
  exact ⟨w', r, held, echo, hw, hheld, hserialized, fun hids y hlive =>
    linksResolve_iff hscopes hids hlive hserialized⟩

/-- A person's membership whose own link does not say which household it is in. -/
def strayMembership : Held :=
  ("9", .fresh (.obj [("type", .str "HouseholdMembership"), ("id", .str "9"),
      ("relationships", .obj [("person", .obj [("data", .obj [("type", .str "Person"),
        ("id", .str "1")])])])])
    ⟨.backfill, "2024-01-31", "2024-03-02T00:00:00Z"⟩)

/-- A mirror that holds a person with such a membership. -/
def strayReading : Reading :=
  { world := { db := (familyOf "1").put .householdMembership "9" strayMembership.2 } }

theorem readsAll_star : ReadsAll ["read:*"] :=
  fun _ => rfl

theorem links_resolve_iff_family :
    ∃ reply x' doc, (serveRead quietEnv (fun _ => .error .transportError) plainSite plainUnicode 1
        (.ok ["read:*"]) "/people/v2/people/1" [] .empty).run familyReading = .ok reply x' ∧
      doc ∈ reply.resources ∧ ∃ w' r held echo, Filled quietEnv 1 familyReading.world w' ∧
        held ∈ w'.db.liveRows r ∧ plainSite.serialize r held echo (sparseFields []) = .ok doc ∧
        (SegmentIds r held → ∀ y : Reading, held ∈ y.world.db.liveRows r →
          (LinksResolve plainSite plainUnicode ["read:*"] y r held doc ↔
            y.world.Publishes plainSite plainUnicode r held)) :=
  ⟨_, _, _, rfl, .head _, links_resolve_iff quietEnv (fun _ => .error .transportError) plainSite
    plainUnicode 1 (.ok ["read:*"]) "/people/v2/people/1" [] .empty familyReading _ _ rfl rfl _
    (.head _) ["read:*"] readsAll_star⟩

/-- The membership is served with its person, and the link it is served with is refused for as long
as the mirror holds it so. -/
theorem links_not_resolve :
    (∃ reply x' doc, (serveRead quietEnv (fun _ => .error .transportError) plainSite plainUnicode 1
        (.ok ["read:*"]) "/people/v2/people/1" [("include", ["household_memberships"])] .empty).run
          strayReading = .ok reply x' ∧ reply.status = 200 ∧ doc ∈ reply.resources ∧
      plainSite.serialize .householdMembership strayMembership [] [] = .ok doc ∧
      ∀ y : Reading, strayMembership ∈ y.world.db.liveRows .householdMembership →
        ¬ LinksResolve plainSite plainUnicode ["read:*"] y .householdMembership strayMembership
          doc) ∧
    strayMembership ∈ strayReading.world.db.liveRows .householdMembership ∧
    SegmentIds .householdMembership strayMembership := by
  have hparentId : Res.parentId .householdMembership strayMembership = none := by
    decide +kernel
  have hids : SegmentIds .householdMembership strayMembership := by
    refine ⟨by decide +kernel, ?_⟩
    rw [hparentId]
    exact nofun
  have hserved : endsWith (serveRead quietEnv (fun _ => .error .transportError) plainSite
      plainUnicode 1 (.ok ["read:*"]) "/people/v2/people/1" [("include", ["household_memberships"])]
      .empty) strayReading (fun reply => reply.status = 200 &&
        reply.resources.any fun doc =>
          plainSite.serialize .householdMembership strayMembership [] [] = .ok doc) = true := by
    decide +kernel
  obtain ⟨reply, x', hrun, hanswer⟩ := exists_of_endsWith hserved
  obtain ⟨hstatus, hincluded⟩ := Bool.and_eq_true_iff.mp hanswer
  obtain ⟨doc, hdoc, hserialized⟩ := List.any_eq_true.mp hincluded
  have hserialized := of_decide_eq_true hserialized
  refine ⟨⟨reply, x', doc, hrun, of_decide_eq_true hstatus, hdoc, hserialized, ?_⟩, ?_, hids⟩
  · intro y hlive hresolve
    obtain ⟨parentId, hsome, -⟩ :=
      ((linksResolve_iff readsAll_star hids hlive hserialized).mp hresolve).addressed .household rfl
    cases hparentId.symm.trans hsome
  · exact Db.mem_liveRows.mpr ⟨by decide +kernel, by decide +kernel⟩

end PcoMirror
