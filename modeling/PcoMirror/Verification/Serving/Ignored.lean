import PcoMirror.Lib.QueryString
import PcoMirror.Verification.Serving.Edges
import PcoMirror.Verification.Serving.Plan

/-! Whether every part of a query has its effect on the answer: a part that is read past is one
the caller cannot tell from a part that was applied. -/

namespace PcoMirror

open Program

variable {env : Env} {transport : Transport} {site : Site} {u : Unicode} {fuel : ℕ} {r : Res}
  {qs : Qs} {path : String} {x' : Reading} {reply : Reply} {plan : Plan} {target : Target}

/-! ## What a query says -/

/-- The `where[…]` keys of a query, with their values. -/
def Qs.wheres (qs : Qs) : Qs :=
  qs.filter fun e => "where[".toList.isPrefixOf e.1.toList

/-- The tokens of every value of a key. -/
def Qs.tokensOf (qs : Qs) (key : String) : List String :=
  (qs.filter (·.1 = key)).flatMap fun e => e.2.flatMap fun value => tokens (some value)

/-- The segments of a token of `include`. -/
def dotted (token : String) : List String :=
  (token.toList.splitOn '.').map String.ofList

/-- The segments of a key after its relationships: an attribute, and what is asked of it. -/
def Res.ending (r : Res) (key : String) : List String :=
  (relChain r (whereParts key)).2.2

/-- The condition a key sets with a value, where each of its segments counts: there is none in an
attribute, an operator and something more. -/
def statedWhere (u : Unicode) (r : Res) (key value : String) : Except Fault (Option Clause) :=
  if 2 < (r.ending key).length then .error (badRequest ("unsupported filter: " ++ key))
  else whereKey u r key value

/-- The path every segment of which is a relationship of where the ones before it lead. -/
def namedHops (r : Res) : List String → Option Hops
  | [] => some []
  | name :: rest => do
    let rel ← r.info.relationships.lookup name
    let hops ← namedHops rel.target rest
    return (name, rel) :: hops

/-- Every condition, order token and path of the query is in the plan. -/
structure Plan.Heeds (plan : Plan) (u : Unicode) (r : Res) (qs : Qs) : Prop where
  filtered : ∀ e ∈ qs.wheres, ∀ value ∈ e.2, ∃ clause,
    statedWhere u r e.1 value = .ok clause ∧ ∀ c ∈ clause, c ∈ plan.clauses
  sorted : ∀ token ∈ qs.tokensOf "order", ∃ key, orderKey r token = .ok key ∧ key ∈ plan.keys
  resolved : ∀ token ∈ qs.tokensOf "include", ∃ hops,
    namedHops r (dotted token) = some hops ∧ hops ∈ plan.hops

/-- The answer is carried out from a plan that leaves nothing of the query out. -/
def Target.TakesEffect (env : Env) (site : Site) (u : Unicode) (fuel : ℕ) (target : Target)
    (path : String) (qs : Qs) (reply : Reply) (x' : Reading) : Prop :=
  ∃ plan, target.readPlan u qs = .ok plan ∧
    target.CarriesOut env site u fuel path qs plan reply x' ∧ plan.Heeds u target.res qs

/-! ## What is read of it -/

/-- A token is one relationship, or one and one more. -/
def Res.Resolves (r : Res) (token : String) : Prop :=
  '.' ∉ token.toList ∨ ∃ rel rel2,
    r.info.relationships.lookup (Text.partition '.' token).1 = some rel ∧
      rel.target.info.relationships.lookup (Text.partition '.' token).2 = some rel2

/-- No segment, no further value and no token is read past: a further value repeats what a first
one says, and a record is asked for with no conditions and no order. -/
structure Target.Reads (u : Unicode) (target : Target) (qs : Qs) : Prop where
  filters : ∀ e ∈ qs.wheres, ∀ value ∈ e.2, (target.res.ending e.1).length ≤ 2 ∧
    (whereKey u target.res e.1 value = .ok none ∨ target.record = false ∧ ∃ e' ∈ qs.wheres,
      whereKey u target.res e.1 value = whereKey u target.res e'.1 (e'.2.headD ""))
  orders : ∀ token ∈ qs.tokensOf "order", target.record = false ∧
    ∃ first ∈ tokens (qs.first? "order"), orderKey target.res token = orderKey target.res first
  includes : ∀ token ∈ qs.tokensOf "include", target.res.Resolves token ∧
    ∃ first ∈ tokens (qs.first? "include"),
      includeHops u target.res token = includeHops u target.res first

/-! ## Paths -/

theorem name_of_relationship {name : String} {rel : Rel}
    (h : r.info.relationships.lookup name = some rel) : '.' ∉ name.toList := by
  have hall : ∀ e ∈ r.info.relationships, '.' ∉ e.1.toList := by cases r <;> decide
  exact hall (name, rel) (mem_of_lookup h)

theorem dotted_of_notMem {token : String} (h : '.' ∉ token.toList) : dotted token = [token] := by
  rw [dotted, List.splitOn_eq_singleton h, List.map_singleton, String.ofList_toList]

theorem dotted_of_mem {token : String} (h : '.' ∈ token.toList) :
    dotted token = (Text.partition '.' token).1 :: dotted (Text.partition '.' token).2 :=
  Text.splitOn_partition h

theorem length_namedHops {names : List String} {hops : Hops} (h : namedHops r names = some hops) :
    hops.length = names.length := by
  induction names generalizing r hops with
  | nil =>
      cases h
      rfl
  | cons name rest ih =>
      obtain ⟨rel, -, h⟩ := Option.bind_eq_some_iff.mp h
      obtain ⟨more, hmore, h⟩ := Option.bind_eq_some_iff.mp h
      cases h
      rw [List.length_cons, List.length_cons, ih hmore]

theorem namedHops_one {name : String} :
    namedHops r [name] = (r.info.relationships.lookup name).map fun rel => [(name, rel)] := by
  cases h : r.info.relationships.lookup name <;> simp [namedHops, h]

theorem two_le_length_dotted {token : String} (h : '.' ∈ token.toList) :
    2 ≤ (dotted token).length := by
  rw [dotted_of_mem h, List.length_cons, dotted, List.length_map]
  have := List.length_pos_of_ne_nil
    (List.splitOn_ne_nil '.' (Text.partition '.' token).2.toList)
  omega

/-- A path without a dot is one relationship. -/
theorem namedHops_of_notMem {token : String} (hdot : '.' ∉ token.toList) (hops : Hops) :
    namedHops r (dotted token) = some hops ↔ includeHops u r token = .ok hops := by
  rw [dotted_of_notMem hdot, namedHops_one, includeHops, Text.partition_of_notMem hdot]
  cases hrel : r.info.relationships.lookup token with
  | none => simp only [hrel, Option.map_none, reduceCtorEq]
  | some rel => simp only [hrel, no_empty_relationship, Option.map_some, Option.some.injEq,
      Except.ok.injEq]

/-- A path of at most two relationships is named in full just where it is found in full. -/
theorem namedHops_iff {token : String} {hops : Hops} (hshort : hops.length ≤ 2) :
    namedHops r (dotted token) = some hops ↔
      r.Resolves token ∧ includeHops u r token = .ok hops := by
  by_cases hdot : '.' ∈ token.toList
  · rw [dotted_of_mem hdot]
    have hfound : ∀ rel rel2, r.info.relationships.lookup (Text.partition '.' token).1 = some rel →
        rel.target.info.relationships.lookup (Text.partition '.' token).2 = some rel2 →
        namedHops r ((Text.partition '.' token).1 :: dotted (Text.partition '.' token).2) =
            some [((Text.partition '.' token).1, rel), ((Text.partition '.' token).2, rel2)] ∧
          includeHops u r token =
            .ok [((Text.partition '.' token).1, rel), ((Text.partition '.' token).2, rel2)] := by
      intro rel rel2 hrel hrel2
      have hsecond : (Text.partition '.' token).2 ≠ "" := by
        intro heq
        rw [heq, no_empty_relationship] at hrel2
        cases hrel2
      constructor
      · rw [dotted_of_notMem (name_of_relationship hrel2), namedHops, hrel, Option.bind_eq_bind,
          Option.bind_some, namedHops_one, hrel2]
        rfl
      · simp [includeHops, hrel, hrel2, hsecond]
    constructor
    · intro h
      have hlength := length_namedHops h
      obtain ⟨rel, hrel, hmore⟩ := Option.bind_eq_some_iff.mp h
      have hplain : '.' ∉ (Text.partition '.' token).2.toList := by
        intro hmem
        have := two_le_length_dotted hmem
        rw [List.length_cons] at hlength
        omega
      obtain ⟨more, hsecond, -⟩ := Option.bind_eq_some_iff.mp hmore
      rw [dotted_of_notMem hplain, namedHops_one] at hsecond
      obtain ⟨rel2, hrel2, -⟩ := Option.map_eq_some_iff.mp hsecond
      obtain ⟨hnamed, hincluded⟩ := hfound rel rel2 hrel hrel2
      cases hnamed.symm.trans h
      exact ⟨.inr ⟨rel, rel2, hrel, hrel2⟩, hincluded⟩
    · rintro ⟨hplain | ⟨rel, rel2, hrel, hrel2⟩, hincluded⟩
      · exact absurd hdot hplain
      · obtain ⟨hnamed, hread⟩ := hfound rel rel2 hrel hrel2
        cases hread.symm.trans hincluded
        exact hnamed
  · rw [namedHops_of_notMem hdot]
    exact ⟨fun h => ⟨.inl hdot, h⟩, fun h => h.2⟩

theorem length_of_includeHops {token : String} {hops : Hops}
    (h : includeHops u r token = .ok hops) : hops.length ≤ 2 := by
  rw [includeHops] at h
  dsimp only at h
  split at h
  · cases h
  · split at h
    · split_ifs at h <;> cases h <;> simp
    · cases h
      simp

/-! ## What a plan holds -/

/-- The conditions of a plan are those of the first values. -/
theorem mem_clauses_iff {clauses : List Clause} (h : buildWhere u r qs = .ok clauses) (c : Clause) :
    c ∈ clauses ↔ ∃ e ∈ qs.wheres, whereKey u r e.1 (e.2.headD "") = .ok (some c) := by
  obtain ⟨read, hread, h⟩ := except_bind_eq_ok.mp h
  cases h
  rw [List.mem_filterMap]
  constructor
  · rintro ⟨clause, hclause, rfl⟩
    exact (mem_mapM_iff hread).mp hclause
  · rintro ⟨e, he, hkey⟩
    exact ⟨some c, (mem_mapM_iff hread).mpr ⟨e, he, hkey⟩, rfl⟩

theorem whereKey_ok {clauses : List Clause} (h : buildWhere u r qs = .ok clauses)
    {e : String × List String} (he : e ∈ qs.wheres) :
    ∃ clause, whereKey u r e.1 (e.2.headD "") = .ok clause := by
  obtain ⟨read, hread, -⟩ := except_bind_eq_ok.mp h
  obtain ⟨clause, -, hclause⟩ := mem_of_mapM hread he
  exact ⟨clause, hclause⟩

theorem buildOrder_eq (r : Res) (qs : Qs) :
    buildOrder r qs = (tokens (qs.first? "order")).mapM (orderKey r) := by
  unfold buildOrder tokens
  cases qs.first? "order" with
  | none => rfl
  | some value =>
      by_cases hempty : value = ""
      · subst hempty
        rfl
      · simp only

theorem readPlan_parts (h : readPlan u r qs = .ok plan) :
    buildWhere u r qs = .ok plan.clauses ∧ buildOrder r qs = .ok plan.keys ∧
      (tokens (qs.first? "include")).mapM (includeHops u r) = .ok plan.hops := by
  obtain ⟨clauses, hclauses, h⟩ := except_bind_eq_ok.mp h
  obtain ⟨keys, hkeys, h⟩ := except_bind_eq_ok.mp h
  obtain ⟨hops, hhops, h⟩ := except_bind_eq_ok.mp h
  cases h
  exact ⟨hclauses, hkeys, hhops⟩

theorem readRecordPlan_parts (h : readRecordPlan u r qs = .ok plan) :
    plan.clauses = [] ∧ plan.keys = [] ∧
      (tokens (qs.first? "include")).mapM (includeHops u r) = .ok plan.hops := by
  obtain ⟨hops, hhops, h⟩ := except_bind_eq_ok.mp h
  cases h
  exact ⟨rfl, rfl, hhops⟩

/-! ## What takes effect -/

theorem statedWhere_eq_ok {key value : String} {clause : Option Clause} :
    statedWhere u r key value = .ok clause ↔
      (r.ending key).length ≤ 2 ∧ whereKey u r key value = .ok clause := by
  unfold statedWhere
  split_ifs with hlong
  · exact ⟨nofun, fun h => absurd hlong (Nat.not_lt.mpr h.1)⟩
  · exact ⟨fun h => ⟨Nat.not_lt.mp hlong, h⟩, fun h => h.2⟩

/-- The paths of `include` that are in the plan. -/
theorem resolved_iff {hops : List Hops}
    (h : (tokens (qs.first? "include")).mapM (includeHops u r) = .ok hops) (token : String) :
    (∃ path, namedHops r (dotted token) = some path ∧ path ∈ hops) ↔ r.Resolves token ∧
      ∃ first ∈ tokens (qs.first? "include"),
        includeHops u r token = includeHops u r first := by
  constructor
  · rintro ⟨path, hnamed, hmem⟩
    obtain ⟨first, hfirst, hread⟩ := (mem_mapM_iff h).mp hmem
    obtain ⟨hresolves, hincluded⟩ :=
      (namedHops_iff (length_of_includeHops hread)).mp hnamed
    exact ⟨hresolves, first, hfirst, hincluded.trans hread.symm⟩
  · rintro ⟨hresolves, first, hfirst, hsame⟩
    obtain ⟨path, hpath, hread⟩ := mem_of_mapM h hfirst
    exact ⟨path, (namedHops_iff (length_of_includeHops hread)).mpr
      ⟨hresolves, hsame.trans hread⟩, hpath⟩

/-- The tokens of `order` that are in the plan of a collection. -/
theorem sorted_iff {keys : List OrderKey} (h : buildOrder r qs = .ok keys) (token : String) :
    (∃ key, orderKey r token = .ok key ∧ key ∈ keys) ↔
      ∃ first ∈ tokens (qs.first? "order"), orderKey r token = orderKey r first := by
  rw [buildOrder_eq] at h
  constructor
  · rintro ⟨key, hkey, hmem⟩
    obtain ⟨first, hfirst, hread⟩ := (mem_mapM_iff h).mp hmem
    exact ⟨first, hfirst, hkey.trans hread.symm⟩
  · rintro ⟨first, hfirst, hsame⟩
    obtain ⟨key, hkey, hread⟩ := mem_of_mapM h hfirst
    exact ⟨key, hsame.trans hread, hkey⟩

/-- The conditions that are in the plan of a collection. -/
theorem filtered_iff {clauses : List Clause} (h : buildWhere u r qs = .ok clauses)
    (key value : String) :
    (∃ clause, whereKey u r key value = .ok clause ∧ ∀ c ∈ clause, c ∈ clauses) ↔
      whereKey u r key value = .ok none ∨ ∃ e ∈ qs.wheres,
        whereKey u r key value = whereKey u r e.1 (e.2.headD "") := by
  constructor
  · rintro ⟨clause, hclause, hmem⟩
    cases clause with
    | none => exact .inl hclause
    | some c =>
        obtain ⟨e, he, hread⟩ := (mem_clauses_iff h c).mp (hmem c rfl)
        exact .inr ⟨e, he, hclause.trans hread.symm⟩
  · rintro (hnone | ⟨e, he, hsame⟩)
    · exact ⟨none, hnone, nofun⟩
    · obtain ⟨clause, hread⟩ := whereKey_ok h he
      refine ⟨clause, hsame.trans hread, fun c hc => (mem_clauses_iff h c).mpr ⟨e, he, ?_⟩⟩
      rw [hread, Option.mem_def.mp hc]

/-- A condition of a key is in the plan where the key is read whole and its condition is. -/
theorem stated_iff {key value : String} {clauses : List Clause} :
    (∃ clause, statedWhere u r key value = .ok clause ∧ ∀ c ∈ clause, c ∈ clauses) ↔
      (r.ending key).length ≤ 2 ∧
        ∃ clause, whereKey u r key value = .ok clause ∧ ∀ c ∈ clause, c ∈ clauses := by
  simp only [statedWhere_eq_ok, and_assoc, exists_and_left]

theorem heeds_iff_of_collection (hrecord : target.record = false)
    (h : readPlan u target.res qs = .ok plan) :
    plan.Heeds u target.res qs ↔ target.Reads u qs := by
  obtain ⟨hwhere, horder, hinclude⟩ := readPlan_parts h
  constructor
  · rintro ⟨hfiltered, hsorted, hresolved⟩
    refine ⟨fun e he value hvalue => ?_, fun token htoken => ?_, fun token htoken => ?_⟩
    · obtain ⟨hshort, hread⟩ := stated_iff.mp (hfiltered e he value hvalue)
      exact ⟨hshort, ((filtered_iff hwhere _ _).mp hread).imp_right fun hsame => ⟨hrecord, hsame⟩⟩
    · exact ⟨hrecord, (sorted_iff horder token).mp (hsorted token htoken)⟩
    · exact (resolved_iff hinclude token).mp (hresolved token htoken)
  · rintro ⟨hfilters, horders, hincludes⟩
    refine ⟨fun e he value hvalue => ?_, fun token htoken => ?_, fun token htoken => ?_⟩
    · obtain ⟨hshort, hread⟩ := hfilters e he value hvalue
      exact stated_iff.mpr ⟨hshort, (filtered_iff hwhere _ _).mpr (hread.imp_right And.right)⟩
    · exact (sorted_iff horder token).mpr (horders token htoken).2
    · exact (resolved_iff hinclude token).mpr (hincludes token htoken)

theorem heeds_iff_of_record (hrecord : target.record = true)
    (h : readRecordPlan u target.res qs = .ok plan) :
    plan.Heeds u target.res qs ↔ target.Reads u qs := by
  obtain ⟨hclauses, hkeys, hinclude⟩ := readRecordPlan_parts h
  have hcollection : target.record ≠ false := by simp [hrecord]
  constructor
  · rintro ⟨hfiltered, hsorted, hresolved⟩
    refine ⟨fun e he value hvalue => ?_, fun token htoken => ?_, fun token htoken => ?_⟩
    · obtain ⟨hshort, clause, hread, hmem⟩ := stated_iff.mp (hfiltered e he value hvalue)
      cases clause with
      | none => exact ⟨hshort, .inl hread⟩
      | some c =>
          have := hmem c rfl
          rw [hclauses] at this
          cases this
    · obtain ⟨key, -, hmem⟩ := hsorted token htoken
      rw [hkeys] at hmem
      cases hmem
    · exact (resolved_iff hinclude token).mp (hresolved token htoken)
  · rintro ⟨hfilters, horders, hincludes⟩
    refine ⟨fun e he value hvalue => ?_, fun token htoken => ?_, fun token htoken => ?_⟩
    · obtain ⟨hshort, hread | ⟨hfalse, -⟩⟩ := hfilters e he value hvalue
      · exact stated_iff.mpr ⟨hshort, none, hread, nofun⟩
      · exact absurd hfalse hcollection
    · exact absurd (horders token htoken).1 hcollection
    · exact (resolved_iff hinclude token).mpr (hincludes token htoken)

/-- Everything takes effect just where nothing is read past. -/
theorem heeds_iff (h : target.readPlan u qs = .ok plan) :
    plan.Heeds u target.res qs ↔ target.Reads u qs := by
  unfold Target.readPlan at h
  cases hrecord : target.record with
  | false => exact heeds_iff_of_collection hrecord (by simpa [hrecord] using h)
  | true => exact heeds_iff_of_record hrecord (by simpa [hrecord] using h)

/-- In an answer from the mirror, every condition, every order token and every path of the query
has its effect just where no segment, no further value and no token of it is read past. -/
theorem nothing_ignored_iff (env : Env) (transport : Transport) (site : Site) (u : Unicode)
    (fuel : ℕ) (granted : Except String (List String)) (path : String) (qs : Qs) (body : Body)
    (x x' : Reading) (reply : Reply)
    (hserved : (serveRead env transport site u fuel granted path qs body).run x = .ok reply x')
    (hmirrored : reply.headers = mirrored) : ∃ target, targetOf path = some target ∧
      (target.TakesEffect env site u fuel path qs reply x' ↔ target.Reads u qs) := by
  obtain ⟨target, htarget, plan, hplan, hcarries⟩ := answers_of_serveRead hserved hmirrored
  refine ⟨target, htarget, ?_, fun hreads => ⟨plan, hplan, hcarries, (heeds_iff hplan).mpr hreads⟩⟩
  rintro ⟨plan', hplan', -, hheeds⟩
  exact (heeds_iff hplan').mp hheeds

/-- The mirror serves a person with an include, PCO out of reach. -/
theorem family_served (token : String) (h : endsWith (serveRead quietEnv
      (fun _ => .error .transportError) plainSite plainUnicode 1 (.ok ["read:*"])
      "/people/v2/people/1" [("include", [token])] .empty) familyReading
    (fun reply => reply.status = 200 && reply.headers = mirrored) = true) : ∃ reply x',
    (serveRead quietEnv (fun _ => .error .transportError) plainSite plainUnicode 1 (.ok ["read:*"])
        "/people/v2/people/1" [("include", [token])] .empty).run familyReading = .ok reply x' ∧
      reply.status = 200 ∧ reply.headers = mirrored := by
  obtain ⟨reply, x', hrun, hanswer⟩ := exists_of_endsWith h
  obtain ⟨hstatus, hheaders⟩ := Bool.and_eq_true_iff.mp hanswer
  exact ⟨reply, x', hrun, of_decide_eq_true hstatus, of_decide_eq_true hheaders⟩

theorem nothing_ignored_iff_emails : ∃ reply x', ∃ target,
    targetOf "/people/v2/people/1" = some target ∧
      (target.TakesEffect quietEnv plainSite plainUnicode 1 "/people/v2/people/1"
          [("include", ["emails"])] reply x' ↔
        target.Reads plainUnicode [("include", ["emails"])]) := by
  obtain ⟨reply, x', hrun, -, hheaders⟩ := family_served "emails" (by decide +kernel)
  exact ⟨reply, x', nothing_ignored_iff quietEnv (fun _ => .error .transportError) plainSite
    plainUnicode 1 (.ok ["read:*"]) "/people/v2/people/1" [("include", ["emails"])] .empty
    familyReading x' reply hrun hheaders⟩

/-- A second relationship that there is none of is read past. -/
theorem segment_ignored : ∃ reply x',
    (serveRead quietEnv (fun _ => .error .transportError) plainSite plainUnicode 1 (.ok ["read:*"])
        "/people/v2/people/1" (Text.parseQs "include=emails.banana".toList) .empty).run
        familyReading = .ok reply x' ∧
      reply.status = 200 ∧ reply.headers = mirrored ∧
      targetOf "/people/v2/people/1" = some ⟨.person, true⟩ ∧
      ¬ Target.TakesEffect quietEnv plainSite plainUnicode 1 ⟨.person, true⟩ "/people/v2/people/1"
        (Text.parseQs "include=emails.banana".toList) reply x' := by
  have hquery : Text.parseQs "include=emails.banana".toList =
      [("include", ["emails.banana"])] := by
    decide +kernel
  rw [hquery]
  obtain ⟨reply, x', hrun, hstatus, hheaders⟩ := family_served "emails.banana" (by decide +kernel)
  refine ⟨reply, x', hrun, hstatus, hheaders, rfl, ?_⟩
  rintro ⟨plan, -, -, -, -, hresolved⟩
  obtain ⟨hops, hnamed, -⟩ := hresolved "emails.banana" (by decide +kernel)
  have hnone : (namedHops .person (dotted "emails.banana")).isSome = false := by decide +kernel
  rw [hnamed] at hnone
  cases hnone

end PcoMirror
