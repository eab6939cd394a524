import PcoMirror.Verification.Serving.Pages

/-! Following `links.next`: the pages of a collection, one after the other, until no link leads on. -/

namespace PcoMirror

open Program

/-! ## Requests and links -/

/-- A request, as the server reads it. -/
structure Inquiry where
  path : String
  query : List Char
  deriving DecidableEq

def Inquiry.qs (asked : Inquiry) : Qs :=
  Text.parseQs asked.query

/-- What a client asks for when it follows a link. -/
def follow (url : String) : Inquiry :=
  let read := Url.environ (Url.sent url.toList)
  ⟨String.ofList read.1, read.2⟩

/-- `links.next` of an answer, followed. -/
def Reply.next (reply : Reply) : Option Inquiry :=
  match (reply.member? "links").bind (·.member? "next") with
  | some (.str url) => some (follow url)
  | _ => none

/-- The mirror answers a request; it holds these tables and this record of walks, and learns nothing
by it. -/
def Responds (env : Env) (transport : Transport) (site : Site) (u : Unicode) (fuel : ℕ)
    (scopes : Except String (List String)) (db : Db) (known : Res → String → Bool) (asked : Inquiry)
    (reply : Reply) : Prop :=
  ∃ body x x', x.world.db = db ∧ x.world.parentWalked = known ∧
    (serveRead env transport site u fuel scopes asked.path asked.qs body).run x = .ok reply x' ∧
    reply.headers = mirrored ∧ x'.world.parentWalked = known

/-- A query but for its paging. -/
def Qs.rest (qs : Qs) : Qs :=
  qs.filter fun e => e.1 ≠ "offset" ∧ e.1 ≠ "per_page"

/-- `per_page`, held to what a page may show. -/
def perPage (u : Unicode) (qs : Qs) : Option ℕ :=
  (intParam u qs "per_page" 25).toOption.map fun n => (max 0 (min 100 n)).toNat

def startsAt (u : Unicode) (qs : Qs) : Option ℕ :=
  (intParam u qs "offset" 0).toOption.map fun n => (max 0 n).toNat

/-- An answer shows these rows. -/
def Shows (site : Site) (r : Res) (qs : Qs) (reply : Reply) (rows : List Held) : Prop :=
  ∃ (echo : String → List (String × Json)) (data : List Json),
    rows.mapM (fun held => site.serialize r held (echo held.1) (sparseFields qs)) = .ok data ∧
    reply.member? "data" = some (.arr data)

variable {site : Site} {u : Unicode} {db : Db} {r : Res} {qs qs' : Qs} {keeps : Held → Bool}

/-! ## The same query, further along -/

theorem lookup_filter {β : Type} {p : String × β → Bool} {key : String}
    (hkey : ∀ v, p (key, v) = true) (fields : List (String × β)) :
    (fields.filter p).lookup key = fields.lookup key := by
  induction fields with
  | nil => rfl
  | cons e fields ih =>
      obtain ⟨name, v⟩ := e
      by_cases hname : key = name
      · subst hname
        rw [List.filter_cons_of_pos (hkey v), List.lookup_cons_self, List.lookup_cons_self]
      · have hne : (key == name) = false := beq_eq_false_iff_ne.mpr hname
        rw [List.filter_cons, List.lookup_cons, hne]
        split_ifs
        · rw [List.lookup_cons, hne]
          exact ih
        · exact ih

theorem first?_rest {key : String} (hoffset : key ≠ "offset") (hperPage : key ≠ "per_page")
    (qs : Qs) : qs.rest.first? key = qs.first? key := by
  rw [Qs.first?, Qs.first?, Qs.rest, lookup_filter fun _ => by simp [hoffset, hperPage]]

/-- What picks no paging key picks the same of the rest of a query. -/
theorem filter_rest {p : String × List String → Bool} (hoffset : ∀ v, p ("offset", v) = false)
    (hperPage : ∀ v, p ("per_page", v) = false) (qs : Qs) : qs.rest.filter p = qs.filter p := by
  rw [Qs.rest, List.filter_filter]
  refine List.filter_congr fun e _ => ?_
  obtain ⟨name, v⟩ := e
  by_cases hname : name = "offset"
  · subst hname
    rw [hoffset v, Bool.false_and]
  · by_cases hname' : name = "per_page"
    · subst hname'
      rw [hperPage v, Bool.false_and]
    · simp [hname, hname']

theorem buildWhere_rest (u : Unicode) (r : Res) (qs : Qs) :
    buildWhere u r qs.rest = buildWhere u r qs := by
  rw [buildWhere, filter_rest ?_ ?_, buildWhere]
  all_goals
    intro _
    dsimp only
    decide

theorem buildOrder_rest (r : Res) (qs : Qs) : buildOrder r qs.rest = buildOrder r qs := by
  rw [buildOrder, first?_rest (by decide) (by decide), buildOrder]

theorem sparseFields_rest (qs : Qs) : sparseFields qs.rest = sparseFields qs := by
  rw [sparseFields, filter_rest ?_ ?_, sparseFields]
  all_goals
    intro _
    dsimp only
    decide

/-- The query of a page link. -/
def Qs.paged (qs : Qs) (off size : ℕ) : Qs :=
  qs.rest ++ [("offset", [toString off]), ("per_page", [toString size])]

theorem grouped_paged (hqs : Text.Grouped qs) (off size : ℕ) : Text.Grouped (qs.paged off size) := by
  have hnames : ∀ e ∈ qs.rest, e.1 ≠ "offset" ∧ e.1 ≠ "per_page" := by
    intro e he
    simpa using (List.mem_filter.mp he).2
  constructor
  · rw [Qs.paged, List.map_append]
    refine List.nodup_append.mpr ⟨hqs.1.sublist (List.filter_sublist.map _), by simp, ?_⟩
    intro a ha b hb hab
    obtain ⟨e, he, rfl⟩ := List.mem_map.mp ha
    subst hab
    simp only [List.map_cons, List.map_nil, List.mem_cons, List.not_mem_nil, or_false] at hb
    exact hb.elim (hnames e he).1 (hnames e he).2
  · intro e he
    rcases List.mem_append.mp he with he | he
    · exact hqs.2 e (List.mem_of_mem_filter he)
    · simp only [List.mem_cons, List.not_mem_nil, or_false] at he
      rcases he with rfl | rfl <;> simp

theorem rest_paged (qs : Qs) (off size : ℕ) : (qs.paged off size).rest = qs.rest := by
  rw [Qs.paged, Qs.rest, List.filter_append, List.filter_eq_self.mpr]
  · simp
  · intro e he
    exact (List.mem_filter.mp he).2

theorem first?_paged (qs : Qs) (off size : ℕ) :
    (qs.paged off size).first? "offset" = some (toString off) ∧
      (qs.paged off size).first? "per_page" = some (toString size) := by
  have hnone {key : String} (hkey : key = "offset" ∨ key = "per_page") :
      qs.rest.lookup key = none := by
    rw [List.lookup_eq_none_iff]
    intro e he
    have hnames := (List.mem_filter.mp he).2
    rw [bne_iff_ne]
    rintro rfl
    rcases hkey with h | h <;> simp [h] at hnames
  constructor
  · rw [Qs.first?, Qs.paged, List.lookup_append, hnone (.inl rfl)]
    rfl
  · rw [Qs.first?, Qs.paged, List.lookup_append, hnone (.inr rfl)]
    rfl

theorem intParam_toString {key : String} {n : ℕ} {default : ℤ} (h : n < 10 ^ 20)
    (hkey : qs.first? key = some (toString n)) : intParam u qs key default = .ok n := by
  have hne : toString n ≠ "" := by
    simp
  rw [intParam, hkey]
  split
  · rename_i heq
    cases heq
  · rename_i heq
    exact absurd (Option.some.inj heq) hne
  · rename_i heq
    rw [← Option.some.inj heq, Text.int?_toString
      (h.trans (Nat.pow_lt_pow_right (by decide) (by decide)))]

/-! ## Page links -/

/-- The brackets of a key stay as they are. -/
def keptBrackets (c : Char) : Bool :=
  c = '[' || c = ']'

theorem querySafe_keptBrackets : Text.QuerySafe keptBrackets := by
  intro c hc
  rcases Bool.or_eq_true_iff.mp hc with h | h <;> rw [decide_eq_true_eq] at h <;> subst h <;> decide

/-- The link to the page at an offset. -/
def pageUrl (path : String) (qs : Qs) (off size : ℕ) : String :=
  path ++ "?" ++ Text.urlencode keptBrackets (Text.spread (qs.paged off size))

theorem next_of_links {reply : Reply} {path : String} {page : Page}
    (hlinks : reply.member? "links" = some (.obj (pageLinks path qs page))) :
    reply.next = if page.offset + page.perPage < page.total then
      some (follow (pageUrl path qs (page.offset + page.perPage) page.perPage)) else none := by
  have hspread (off : ℕ) : Text.spread (qs.paged off page.perPage) =
      (qs.rest.flatMap fun e => e.2.map fun v => (e.1, v)) ++
        [("offset", toString off), ("per_page", toString page.perPage)] := by
    rw [Text.spread, Qs.paged, List.flatMap_append]
    rfl
  rw [Reply.next, hlinks, Option.bind_some, Json.member?, pageLinks]
  split_ifs with hnext hprev hprev
  · simp only [pageUrl, hspread]
    rfl
  · simp only [pageUrl, hspread]
    rfl
  · rfl
  · rfl

theorem toList_pageUrl (path : String) (qs : Qs) (off size : ℕ) :
    (pageUrl path qs off size).toList = path.toList ++
      '?' :: (Text.urlencode keptBrackets (Text.spread (qs.paged off size))).toList := by
  simp [pageUrl]

theorem follow_path {path : String} (off size : ℕ) :
    (follow (pageUrl path qs off size)).path = path ↔ Url.plainPath path.toList = true := by
  rw [← Url.environ_path path.toList (Text.urlencode keptBrackets
    (Text.spread (qs.paged off size))).toList, follow, toList_pageUrl]
  constructor
  · intro h
    exact String.toList_ofList.symm.trans (congrArg String.toList h)
  · intro h
    rw [h, String.ofList_toList]

theorem follow_qs {path : String} (hqs : Text.Grouped qs) (hplain : Url.plainPath path.toList = true)
    (off size : ℕ) : (follow (pageUrl path qs off size)).qs = qs.paged off size := by
  rw [Inquiry.qs, follow, toList_pageUrl]
  simp only
  rw [Url.environ_link hplain (Text.urlencode_plain querySafe_keptBrackets _)]
  exact Text.parseQs_urlencode querySafe_keptBrackets (grouped_paged hqs off size)

/-! ## One answer -/

variable {env : Env} {transport : Transport} {fuel : ℕ} {scopes : Except String (List String)}
  {known : Res → String → Bool} {clauses : List Clause} {keys : List OrderKey}
  {matching : List Held} {size off : ℕ} {start asked : Inquiry} {reply : Reply}

theorem page_of_answers (hat : db.collectionAt asked.path = some (r, keeps))
    (hwhere : buildWhere u r asked.qs = .ok clauses) (horder : buildOrder r asked.qs = .ok keys)
    (hmatching : ((db.liveRows r).filter keeps).filterM
      (fun held => allHold site u db r held clauses) = .ok matching)
    (hsize : perPage u asked.qs = some size) (hoff : startsAt u asked.qs = some off)
    (h : Responds env transport site u fuel scopes db known asked reply) :
    Shows site r asked.qs reply (Paging.page size off (sortRows u r keys matching)) ∧
      off < 2 ^ 63 ∧ reply.next = if off + size < matching.length then
        some (follow (pageUrl asked.path asked.qs (off + size) size)) else none := by
  obtain ⟨body, x, x', hdb, hknown, hserved, hmirrored, hstill⟩ := h
  obtain ⟨keys', matching', page, echo, data, hpage, hdata, hshown, hlinks⟩ :=
    lists_of_served hat hdb hknown hserved hmirrored hstill
  obtain ⟨⟨clauses', hwhere', hmatching'⟩, horder', ⟨n, hn, hperPage⟩, ⟨o, ho, hoffset⟩, hfits,
    htotal, hrows⟩ := hpage
  rw [hwhere] at hwhere'
  cases hwhere'
  rw [hmatching] at hmatching'
  cases hmatching'
  rw [horder] at horder'
  cases horder'
  obtain rfl : page.perPage = size := by
    rw [perPage, hn] at hsize
    exact hperPage.trans (Option.some.inj hsize)
  obtain rfl : page.offset = off := by
    rw [startsAt, ho] at hoff
    exact hoffset.trans (Option.some.inj hoff)
  refine ⟨⟨echo, data, hrows ▸ hdata, hshown⟩, ?_, ?_⟩
  · have hlt := (Bool.and_eq_true_iff.mp hfits).2
    rw [decide_eq_true_eq] at hlt
    exact_mod_cast hlt
  · rw [next_of_links hlinks, htotal]

/-- A link that leads on leads to the same query. -/
theorem further {path : String} (hqs : Text.Grouped qs)
    (hplain : Url.plainPath path.toList = true) (hsize : size ≤ 100) (hoff : off < 10 ^ 20) :
    (follow (pageUrl path qs off size)).path = path ∧
      (follow (pageUrl path qs off size)).qs.rest = qs.rest ∧
      perPage u (follow (pageUrl path qs off size)).qs = some size ∧
      startsAt u (follow (pageUrl path qs off size)).qs = some off := by
  have hlt : size < 10 ^ 20 := by omega
  rw [follow_qs hqs hplain, rest_paged, perPage, startsAt,
    intParam_toString hlt (first?_paged qs off size).2,
    intParam_toString hoff (first?_paged qs off size).1]
  refine ⟨(follow_path off size).mpr hplain, rfl, congrArg some ?_, congrArg some ?_⟩
  · change (max 0 (min 100 (size : ℤ))).toNat = size
    omega
  · exact Int.toNat_natCast off

/-! ## One answer after the other -/

/-- The part of a query that its pages share is read alike. -/
theorem reads_alike (h : asked.qs.rest = start.qs.rest) :
    buildWhere u r asked.qs = buildWhere u r start.qs ∧
      buildOrder r asked.qs = buildOrder r start.qs ∧
      sparseFields asked.qs = sparseFields start.qs := by
  refine ⟨?_, ?_, ?_⟩
  · rw [← buildWhere_rest, h, buildWhere_rest]
  · rw [← buildOrder_rest, h, buildOrder_rest]
  · rw [← sparseFields_rest, h, sparseFields_rest]

/-- Where a client stands on its way. -/
structure OnTheWay (u : Unicode) (start : Inquiry) (size done : ℕ) (asked : Inquiry) : Prop where
  samePath : asked.path = start.path
  sameRest : asked.qs.rest = start.qs.rest
  sized : perPage u asked.qs = some size
  placed : startsAt u asked.qs = some (size * done)

/-- One page, and the way on from it. -/
theorem OnTheWay.answered {done : ℕ} (hon : OnTheWay u start size done asked)
    (hat : db.collectionAt start.path = some (r, keeps))
    (hwhere : buildWhere u r start.qs = .ok clauses) (horder : buildOrder r start.qs = .ok keys)
    (hmatching : ((db.liveRows r).filter keeps).filterM
      (fun held => allHold site u db r held clauses) = .ok matching)
    (honward : Url.plainPath start.path.toList = true ∨ matching.length ≤ size)
    (h : Responds env transport site u fuel scopes db known asked reply) :
    Shows site r start.qs reply (Paging.page size (size * done) (sortRows u r keys matching)) ∧
      (reply.next = none ↔ matching.length ≤ size * (done + 1)) ∧
      ∀ next, reply.next = some next → size * (done + 1) ≤ matching.length ∧
        OnTheWay u start size (done + 1) next := by
  obtain ⟨hsameWhere, hsameOrder, hsameFields⟩ := reads_alike (u := u) (r := r) hon.sameRest
  obtain ⟨⟨echo, data, hdata, hshown⟩, hlt, hnext⟩ := page_of_answers (hon.samePath ▸ hat)
    (hsameWhere.trans hwhere) (hsameOrder.trans horder) hmatching hon.sized hon.placed h
  have hnextOff : size * done + size = size * (done + 1) := (Nat.mul_succ size done).symm
  have hsize : size ≤ 100 := by
    have hperPage := hon.sized
    rw [perPage, Option.map_eq_some_iff] at hperPage
    obtain ⟨n, -, hn⟩ := hperPage
    omega
  rw [hnextOff] at hnext
  refine ⟨⟨echo, data, hsameFields ▸ hdata, hshown⟩, ?_, ?_⟩
  · rw [hnext]
    split_ifs with hmore
    · exact ⟨nofun, fun hle => absurd hmore (Nat.not_lt.mpr hle)⟩
    · exact ⟨fun _ => Nat.le_of_not_lt hmore, fun _ => rfl⟩
  · intro next hsome
    rw [hnext] at hsome
    split_ifs at hsome with hmore
    cases hsome
    have hplain : Url.plainPath asked.path.toList = true := by
      rw [hon.samePath]
      refine honward.resolve_right fun hle => ?_
      have : size * 1 ≤ size * (done + 1) := Nat.mul_le_mul_left size (by omega)
      omega
    have hplaced : size * (done + 1) < 10 ^ 20 := by
      rw [← hnextOff]
      omega
    obtain ⟨hpath, hrest, hper, hoff⟩ := further (u := u) (Text.grouped_parseQs asked.query) hplain
      hsize hplaced
    exact ⟨Nat.le_of_lt hmore, hpath.trans hon.samePath, hrest.trans hon.sameRest, hper, hoff⟩

end PcoMirror
