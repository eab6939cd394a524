import PcoMirror.Model.Ingest.Sweep
import PcoMirror.Verification.Walk.Authority

/-! What PCO lists of a resource, and its honest answers to a listing's requests. -/

namespace PcoMirror

open Program

/-! ## Records -/

/-- A time among a document's attributes, as a listing orders by it. -/
def stampOf (field : String) (doc : Json) : String :=
  (doc.textAt ["attributes", field]).getD ""

/-- A document states a whole second in an attribute. -/
def HasTime (field : String) (doc : Json) : Prop :=
  ∃ s, doc.at? ["attributes", field] = some (.str s) ∧ Iso8601.WholeSecond s

/-- A record of a resource's own list. -/
structure IsListed (r : Res) (id : String) (doc : Json) : Prop extends IsChild r id doc where
  updated : HasTime "updated_at" doc

theorem HasTime.wholeSecond {field : String} {doc : Json} (h : HasTime field doc) :
    Iso8601.WholeSecond (stampOf field doc) := by
  obtain ⟨s, hs, hwhole⟩ := h
  simpa [stampOf, Json.textAt, hs, Json.text?] using hwhole

theorem pyItem_of_member? {doc v : Json} {key : String} (h : doc.member? key = some v) :
    pyItem doc key = .ok v := by
  cases doc with
  | obj members =>
      have hlookup : members.lookup key = some v := h
      simp [pyItem, hlookup]
  | _ => cases h

theorem HasTime.items {field : String} {doc : Json} (h : HasTime field doc) :
    ∃ attributes, pyItem doc "attributes" = .ok attributes ∧
      pyItem attributes field = .ok (.str (stampOf field doc)) := by
  obtain ⟨s, hs, -⟩ := h
  have hstamp : stampOf field doc = s := by simp [stampOf, Json.textAt, hs, Json.text?]
  obtain ⟨attributes, hattributes, hrest⟩ := Option.bind_eq_some_iff.mp hs
  obtain ⟨v, hv, hvalue⟩ := Option.bind_eq_some_iff.mp hrest
  obtain rfl : v = .str s := Option.some.inj hvalue
  rw [hstamp]
  exact ⟨attributes, pyItem_of_member? hattributes, pyItem_of_member? hv⟩

theorem HasTime.itemTime {field : String} {doc : Json} (h : HasTime field doc) :
    itemTime field doc = .ok (stampOf field doc) := by
  obtain ⟨attributes, hattributes, htime⟩ := h.items
  simp [PcoMirror.itemTime, hattributes, htime, bind, Except.bind, pure, Except.pure]

/-! ## Listings -/

/-- The records PCO holds of a resource, in the order each listing gives them, and
the `where` fields the endpoint honours. -/
structure Collection (r : Res) where
  listing : Option String → List (String × Json)
  honours : String → Bool
  perm : ∀ order order', (listing order).Perm (listing order')
  records : ∀ e ∈ listing none, IsListed r e.1 e.2
  nodup : ((listing none).map (·.1)).Nodup
  ascending : (listing (some "updated_at")).Pairwise fun a b =>
    stampOf "updated_at" a.2 ≤ stampOf "updated_at" b.2
  descending : (listing (some "-updated_at")).Pairwise fun a b =>
    stampOf "updated_at" b.2 ≤ stampOf "updated_at" a.2
  filtered : r.info.supportsUatFilter = true → honours "updated_at" = true

/-- Whether a record meets a query's filters, of those the endpoint honours. -/
def Query.keeps (q : Query) (honours : String → Bool) (doc : Json) : Bool :=
  (q.gte.all fun f => !honours f.1 || f.2 ≤ stampOf f.1 doc) &&
    q.lt.all fun f => !honours f.1 || stampOf f.1 doc < f.2

namespace Collection

variable {r : Res} (c : Collection r)

/-- The record is on PCO's list. -/
def Has (e : String × Json) : Prop :=
  e ∈ c.listing none

/-- What a query selects, in its order. -/
def selected (q : Query) : List (String × Json) :=
  (c.listing q.order).filter fun e => q.keeps c.honours e.2

/-- The page of records that answers a query. -/
def page (q : Query) : List (String × Json) :=
  Paging.page 100 (q.offset.getD 0) (c.selected q)

variable {c}

theorem mem_listing {order : Option String} {e : String × Json} : e ∈ c.listing order ↔ c.Has e :=
  (c.perm order none).mem_iff

theorem has_of_mem_page {q : Query} {e : String × Json} (h : e ∈ c.page q) : c.Has e :=
  mem_listing.mp (List.mem_of_mem_filter (Paging.mem_of_mem_page h))

theorem Has.isListed {e : String × Json} (h : c.Has e) : IsListed r e.1 e.2 :=
  c.records e h

end Collection

/-! ## Answers -/

/-- A document that lists some records and can be read throughout. -/
structure IsListing (body : Json) (items : List Json) : Prop where
  data : body.member? "data" = some (.arr items)
  included : ∃ included, pageIncluded body = .ok included ∧
    ∀ doc ∈ included, ∃ target, routeTarget doc none [] = .ok target
  organization : ∃ id, organizationOf body = .ok id

/-- PCO answers every request for a page of the collection with a `2xx` document of it. -/
def Serves (env : Env) {r : Res} (c : Collection r) : Prop :=
  ∀ tick q, ∃ status body, env.respond tick (.collection r q) = .ok ⟨status, .json body⟩ ∧
    200 ≤ status ∧ status < 300 ∧ IsListing body ((c.page q).map (·.2))

/-- Whatever PCO answers, a `2xx` answer lists the page asked for. -/
def Answers (env : Env) {r : Res} (c : Collection r) : Prop :=
  ∀ tick q resp, env.respond tick (.collection r q) = .ok resp → resp.ok = true →
    ∃ body, resp.document = .ok body ∧ body.member? "data" = some (.arr ((c.page q).map (·.2)))

theorem document_of_member? {body v : Json} {key : String} (h : body.member? key = some v)
    (status : ℕ) : Response.document ⟨status, .json body⟩ = .ok body := by
  cases body with
  | obj members =>
      cases members with
      | nil => cases h
      | cons m ms => rfl
  | _ => cases h

theorem Serves.answers {env : Env} {r : Res} {c : Collection r} (h : Serves env c) :
    Answers env c := by
  intro tick q resp hresp _
  obtain ⟨status, body, hanswer, -, -, hlisting⟩ := h tick q
  obtain rfl := Except.ok.inj (hresp.symm.trans hanswer)
  exact ⟨body, document_of_member? hlisting.data status, hlisting.data⟩

theorem dataOf_of_member? {body v : Json} (h : body.member? "data" = some v) :
    dataOf body = .ok v := by
  unfold dataOf
  rw [pyGet_of_member? h]
  rfl

theorem pageData_of_member? {body : Json} {items : List Json}
    (h : body.member? "data" = some (.arr items)) (htruthy : ∀ item ∈ items, item.truthy = true) :
    pageData body = .ok items := by
  unfold pageData
  rw [pyGet_of_member? h]
  exact congrArg Except.ok (List.filter_eq_self.mpr htruthy)

namespace Collection

variable {r : Res} {c : Collection r} {q : Query}

theorem truthy_page : ∀ item ∈ (c.page q).map (·.2), item.truthy = true := by
  intro item hitem
  obtain ⟨e, he, rfl⟩ := List.mem_map.mp hitem
  exact (has_of_mem_page he).isListed.truthy

theorem mapM_itemId_page :
    ((c.page q).map (·.2)).mapM itemId = .ok ((c.page q).map fun e => .str e.1) :=
  mapM_itemId fun _ he => (has_of_mem_page he).isListed.toIsChild

theorem mapM_itemTime_page : ((c.page q).map (·.2)).mapM (itemTime "updated_at") =
    .ok ((c.page q).map fun e => stampOf "updated_at" e.2) :=
  mapM_map_ok fun _ he => (has_of_mem_page he).isListed.updated.itemTime

end Collection

/-- A PCO that serves the collection and nothing else. -/
def Collection.serve {r : Res} (c : Collection r) : Env where
  respond := fun _ request => match request with
    | .collection u q =>
      if u = r then .ok ⟨200, .json (.obj [("data", .arr ((c.page q).map (·.2)))])⟩
      else .error .transportError
    | _ => .error .transportError
  now := fun _ => "2024-03-02T00:00:00Z"
  apiVersion := "2024-01-31"

theorem Collection.serve_serves {r : Res} (c : Collection r) : Serves c.serve c :=
  fun _ _ => ⟨200, _, if_pos rfl, by decide, by decide, rfl, ⟨[], rfl, nofun⟩, none, rfl⟩

/-- A query whose failure moves no cursor: a page of the keyset, and the first page of
a listing newest first. -/
def Query.forgiving (q : Query) : Bool :=
  q.offset = none || (q.order = some "-updated_at" && q.offset = some 0)

section

variable {r : Res} {c : Collection r}

/-- The answer is a document with a status other than `2xx`. -/
def Misreports (answer : Except PyError Response) (body : Json) : Prop :=
  ∃ resp, answer = .ok resp ∧ resp.ok = false ∧ resp.document = .ok body

/-- A document lists the page of a query under a `2xx` status. -/
structure Lists (c : Collection r) (q : Query) (status : ℕ) (body : Json) : Prop where
  low : 200 ≤ status
  high : status < 300
  data : body.member? "data" = some (.arr ((c.page q).map (·.2)))

theorem Answers.lists {env : Env} (h : Answers env c) {tick : ℕ} {q : Query} {resp : Response}
    {body : Json} (hresp : env.respond tick (.collection r q) = .ok resp) (hok : resp.ok = true)
    (hbody : resp.document = .ok body) : Lists c q resp.status body := by
  obtain ⟨body', hbody', hdata⟩ := h tick q resp hresp hok
  obtain rfl := Except.ok.inj (hbody.symm.trans hbody')
  simp only [Response.ok, Bool.and_eq_true, decide_eq_true_eq] at hok
  exact ⟨hok.1, hok.2, hdata⟩

theorem Answers.lists_of_clean {env : Env} (h : Answers env c) {tick : ℕ} {q : Query}
    {resp : Response} {body : Json} (hresp : env.respond tick (.collection r q) = .ok resp)
    (hclean : ∀ body, ¬ Misreports (env.respond tick (.collection r q)) body)
    (hbody : resp.document = .ok body) : Lists c q resp.status body := by
  refine h.lists hresp ?_ hbody
  by_contra hok
  exact hclean body ⟨resp, hresp, by simpa using hok, hbody⟩

/-! ## The queries of the ingest -/

/-- The plain listing of the offset paging. -/
def plainQuery (r : Res) : Query :=
  { includes := r.info.includes }

theorem mem_selected_plain {e : String × Json} :
    e ∈ c.selected (plainQuery r) ↔ c.Has e := by
  simp [Collection.selected, Query.keeps, plainQuery, Collection.Has]

/-- The records of one second, as the drain asks for them. -/
def secondQuery (r : Res) (second next : String) : Query where
  order := some "updated_at"
  includes := r.info.includes
  gte := some ("updated_at", second)
  lt := some ("updated_at", next)

theorem mem_selected_second (hfilter : c.honours "updated_at" = true) {second next : String}
    {e : String × Json} : e ∈ c.selected (secondQuery r second next) ↔
      c.Has e ∧ second ≤ stampOf "updated_at" e.2 ∧ stampOf "updated_at" e.2 < next := by
  simp [Collection.selected, Query.keeps, secondQuery, Collection.mem_listing, hfilter]

/-- The records from a second on, as the keyset asks for them. -/
def keysetQuery (r : Res) (ts : String) : Query where
  order := some "updated_at"
  includes := r.info.includes
  gte := if ts = "" then none else some ("updated_at", ts)

theorem empty_le (s : String) : "" ≤ s :=
  not_lt.mp fun h => by
    rw [String.lt_iff] at h
    simp at h

theorem mem_selected_keyset (hfilter : c.honours "updated_at" = true) {ts : String}
    {e : String × Json} : e ∈ c.selected (keysetQuery r ts) ↔
      c.Has e ∧ ts ≤ stampOf "updated_at" e.2 := by
  by_cases hts : ts = ""
  · simp [Collection.selected, Query.keeps, keysetQuery, Collection.mem_listing, hts, empty_le]
  · simp [Collection.selected, Query.keeps, keysetQuery, Collection.mem_listing, hfilter, hts]

theorem pairwise_selected_keyset (ts : String) :
    (c.selected (keysetQuery r ts)).Pairwise fun a b =>
      stampOf "updated_at" a.2 ≤ stampOf "updated_at" b.2 :=
  c.ascending.filter _

end

/-! ## The newest time -/

theorem maxText_eq_none {xs : List String} : maxText xs = none ↔ xs = [] := by
  cases xs <;> simp [maxText]

/-- `max` is a member no other member exceeds. -/
theorem maxText_eq_some {xs : List String} {m : String} (h : maxText xs = some m) :
    m ∈ xs ∧ ∀ x ∈ xs, x ≤ m := by
  have hfold : ∀ (xs : List String) (x : String),
      xs.foldl (fun m y => if m < y then y else m) x ∈ x :: xs ∧
        ∀ y ∈ x :: xs, y ≤ xs.foldl (fun m y => if m < y then y else m) x := by
    intro xs
    induction xs with
    | nil => intro x; simp
    | cons y xs ih =>
        intro x
        simp only [List.foldl_cons]
        by_cases hxy : x < y
        · obtain ⟨hmem, hmax⟩ := ih y
          simp only [hxy, if_true]
          refine ⟨List.mem_cons_of_mem _ hmem, fun z hz => ?_⟩
          rcases List.mem_cons.mp hz with rfl | hz
          · exact hxy.le.trans (hmax y (by simp))
          · exact hmax z hz
        · obtain ⟨hmem, hmax⟩ := ih x
          simp only [hxy, if_false]
          refine ⟨?_, fun z hz => ?_⟩
          · rcases List.mem_cons.mp hmem with h | h
            · rw [h]
              simp
            · exact List.mem_cons_of_mem _ (List.mem_cons_of_mem _ h)
          · rcases List.mem_cons.mp hz with rfl | hz
            · exact hmax z (by simp)
            · rcases List.mem_cons.mp hz with rfl | hz
              · exact (not_lt.mp hxy).trans (hmax x (by simp))
              · exact hmax z (List.mem_cons_of_mem _ hz)
  cases xs with
  | nil => cases h
  | cons x xs =>
      obtain rfl := Option.some.inj h
      exact hfold xs x

/-- The newest time on a page. -/
def newest (page : List (String × Json)) : String :=
  (maxText (page.map fun e => stampOf "updated_at" e.2)).getD ""

theorem exists_newest {page : List (String × Json)} (h : page ≠ []) :
    ∃ e ∈ page, stampOf "updated_at" e.2 = newest page := by
  cases hmax : maxText (page.map fun e => stampOf "updated_at" e.2) with
  | none => exact absurd (List.map_eq_nil_iff.mp (maxText_eq_none.mp hmax)) h
  | some m =>
      obtain ⟨e, he, hm⟩ := List.mem_map.mp (maxText_eq_some hmax).1
      exact ⟨e, he, by rw [newest, hmax, hm]; rfl⟩

theorem le_newest {page : List (String × Json)} {e : String × Json} (he : e ∈ page) :
    stampOf "updated_at" e.2 ≤ newest page := by
  cases hmax : maxText (page.map fun e => stampOf "updated_at" e.2) with
  | none =>
      have hnil := List.map_eq_nil_iff.mp (maxText_eq_none.mp hmax)
      rw [hnil] at he
      cases he
  | some m =>
      rw [newest, hmax]
      exact (maxText_eq_some hmax).2 _ (List.mem_map_of_mem he)

end PcoMirror
