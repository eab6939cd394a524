import PcoMirror.Verification.Serving.Living
import PcoMirror.Verification.Serving.Order

/-! What the service makes of a query before it looks at a row, and the answer that is carried out
from it and from nothing else of the query but the page and the fields asked for. -/

namespace PcoMirror

open Program

/-- A relationship with its name, and further ones from where it leads. -/
abbrev Hops := List (String × Rel)

/-- Conditions, an order and the relationships to include. -/
structure Plan where
  clauses : List Clause
  keys : List OrderKey
  hops : List Hops

variable (env : Env) (transport : Transport) (site : Site) (u : Unicode) (fuel : ℕ)

/-- What is made of one token of `include`. -/
def includeHops (r : Res) (token : String) : Except Fault Hops :=
  let (first, second) := Text.partition '.' token
  match r.info.relationships.lookup first with
  | none => .error (badRequest ("cannot include " ++ u.repr first ++ ": not mirrored"))
  | some rel => match rel.target.info.relationships.lookup second with
    | some rel2 => if second = "" then .ok [(first, rel)] else .ok [(first, rel), (second, rel2)]
    | none => .ok [(first, rel)]

/-- The tokens of an `include` or an `order`. -/
def tokens (value : Option String) : List String :=
  match value with
  | none | some "" => []
  | some value => Text.commas value

/-- What is made of the query of a collection. -/
def readPlan (r : Res) (qs : Qs) : Except Fault Plan := do
  let clauses ← buildWhere u r qs
  let keys ← buildOrder r qs
  let hops ← (tokens (qs.first? "include")).mapM (includeHops u r)
  return ⟨clauses, keys, hops⟩

/-- What is made of the query of one record. -/
def readRecordPlan (r : Res) (qs : Qs) : Except Fault Plan := do
  let hops ← (tokens (qs.first? "include")).mapM (includeHops u r)
  return ⟨[], [], hops⟩

/-! ## Carrying out a plan -/

/-- Gathers what one path of relationships leads to. -/
def gatherHops (fields : List (String × List String)) (r : Res) (rows : List Held) (g : Gathered)
    (hops : Hops) : Read Gathered := do
  match hops with
  | [] => return g
  | (_, rel) :: rest =>
    ensureWalked env fuel r rel rows
    let level1 ← readRelated r rel rows
    let g ← readPy (gather site fields rel.target g level1)
    match rest with
    | [] => return g
    | (second, rel2) :: _ =>
      ensureWalked env fuel rel.target rel2 level1
      let level2 ← readRelated rel.target rel2 level1
      let g ← readPy (gather site fields rel2.target g level2)
      rows.foldlM (echoRow r rel rel2 second) g

/-- The page of a collection: the rows that meet every condition, in order. -/
def planPage (r : Res) (qs : Qs) (keeps : Held → Bool) (plan : Plan) : Read Page := do
  let perPage := (max 0 (min 100 (← ofFault (intParam u qs "per_page" 25)))).toNat
  let offset := (max 0 (← ofFault (intParam u qs "offset" 0))).toNat
  let db ← database
  let candidates := (db.liveRows r).filter keeps
  present fun db => plan.clauses.flatMap fun clause => clause.presents site db r candidates
  if (plan.clauses.flatMap Clause.integers).any (!fitsInt64 ·) then throw overflow
  let matching ← readSql (candidates.filterM fun held => allHold site u db r held plan.clauses)
  if !fitsInt64 offset then throw overflow
  return ⟨perPage, offset, matching.length,
    ((sortRows u r plan.keys matching).drop offset).take perPage⟩

/-- The answer of a collection. -/
def planList (r : Res) (path : String) (qs : Qs) (keeps : Held → Bool) (parent : Option Json)
    (plan : Plan) : Read Reply := do
  let page ← planPage site u r qs keeps plan
  let g ← plan.hops.foldlM (gatherHops env site fuel (sparseFields qs) r page.rows) {}
  let data ← readPy (page.rows.mapM fun held =>
    site.serialize r held (g.echo held.1) (sparseFields qs))
  let parent := parent.getD (← get).world.orgParent
  return ⟨200, mirrored, .document (.obj ([("data", .arr data),
    ("meta", .obj (pageMeta r page parent)), ("links", .obj (pageLinks path qs page))] ++
    withIncluded g))⟩

/-- The answer of one record. -/
def planRecord (r : Res) (qs : Qs) (held : Held) (plan : Plan) : Read Reply := do
  let g ← plan.hops.foldlM (gatherHops env site fuel (sparseFields qs) r [held]) {}
  let data ← readPy (site.serialize r held (g.echo held.1) (sparseFields qs))
  let parent := (← get).world.orgParent
  return ⟨200, mirrored, .document (.obj ([("data", data),
    ("meta", .obj [("can_include", names (r.info.relationships.map (·.1))), ("parent", parent)])] ++
    withIncluded g))⟩

variable {env transport site u fuel} {r : Res} {qs : Qs} {path : String} {keeps : Held → Bool}
  {parent : Option Json} {x x' : Reading} {reply : Reply} {scopes : List String}

theorem no_empty_relationship (r : Res) : r.info.relationships.lookup "" = none := by
  cases r <;> rfl

theorem run_includeToken {fields : List (String × List String)} {rows : List Held} {g g' : Gathered}
    {token : String}
    (h : (includeToken env site u fuel fields r rows g token).run x = .ok g' x') :
    ∃ hops, includeHops u r token = .ok hops ∧
      (gatherHops env site fuel fields r rows g hops).run x = .ok g' x' := by
  unfold includeToken at h
  unfold includeHops
  generalize Text.partition '.' token = parts at h ⊢
  obtain ⟨first, second⟩ := parts
  cases hrel : r.info.relationships.lookup first with
  | none =>
      simp only [hrel] at h
      cases h
  | some rel =>
      simp only [hrel] at h ⊢
      by_cases hsecond : second = ""
      · subst hsecond
        exact ⟨[(first, rel)], by rw [no_empty_relationship], h⟩
      · simp only [hsecond, if_false] at h ⊢
        cases hrel2 : rel.target.info.relationships.lookup second with
        | none =>
            simp only [hrel2] at h
            exact ⟨[(first, rel)], rfl, h⟩
        | some rel2 =>
            simp only [hrel2] at h
            exact ⟨[(first, rel), (second, rel2)], rfl, h⟩

theorem run_foldlM_includeToken {fields : List (String × List String)} {rows : List Held}
    {items : List String} {g g' : Gathered}
    (h : (items.foldlM (includeToken env site u fuel fields r rows) g).run x = .ok g' x') :
    ∃ hops, items.mapM (includeHops u r) = .ok hops ∧
      (hops.foldlM (gatherHops env site fuel fields r rows) g).run x = .ok g' x' := by
  induction items generalizing g x with
  | nil => exact ⟨[], rfl, h⟩
  | cons token items ih =>
      rw [List.foldlM_cons] at h
      obtain ⟨g₁, x₁, hfirst, hrest⟩ := run_bind_eq_ok.mp h
      obtain ⟨hops, hhops, hgather⟩ := run_includeToken hfirst
      obtain ⟨more, hmore, hgathers⟩ := ih hrest
      refine ⟨hops :: more, ?_, ?_⟩
      · rw [List.mapM_cons, hhops, hmore]
        rfl
      · rw [List.foldlM_cons]
        exact run_bind_eq_ok.mpr ⟨g₁, x₁, hgather, hgathers⟩

theorem run_buildIncludes {rows : List Held} {g : Gathered}
    (h : (buildIncludes env site u fuel r rows qs).run x = .ok g x') :
    ∃ hops, (tokens (qs.first? "include")).mapM (includeHops u r) = .ok hops ∧
      (hops.foldlM (gatherHops env site fuel (sparseFields qs) r rows) {}).run x = .ok g x' := by
  unfold buildIncludes at h
  cases hvalue : qs.first? "include" with
  | none =>
      rw [hvalue] at h
      exact ⟨[], rfl, h⟩
  | some value =>
      rw [hvalue] at h
      split at h
      · rename_i hnone
        cases hnone
      · rename_i hempty
        cases hempty
        exact ⟨[], rfl, h⟩
      · rename_i included hne hsome
        obtain rfl := Option.some.inj hsome
        have htokens : tokens (some value) = Text.commas value := by
          unfold tokens
          split
          · contradiction
          · rename_i hempty
            exact absurd (Option.some.inj hempty) hne
          · rename_i hsome
            rw [Option.some.inj hsome]
        rw [htokens]
        exact run_foldlM_includeToken h

theorem run_ofFault_bind {α β : Type} {e : Except Fault α} {f : α → Read β} {b : β}
    (h : (ofFault e >>= f).run x = .ok b x') : ∃ a, e = .ok a ∧ (f a).run x = .ok b x' := by
  cases e with
  | ok a => exact ⟨a, rfl, h⟩
  | error e => cases h

theorem run_listPage {page : Page} (h : (listPage site u r qs keeps).run x = .ok page x') :
    ∃ clauses keys, buildWhere u r qs = .ok clauses ∧ buildOrder r qs = .ok keys ∧
      ∀ hops, (planPage site u r qs keeps ⟨clauses, keys, hops⟩).run x = .ok page x' := by
  obtain ⟨clauses, hclauses, h⟩ := run_ofFault_bind h
  obtain ⟨keys, hkeys, h⟩ := run_ofFault_bind h
  exact ⟨clauses, keys, hclauses, hkeys, fun _ => h⟩

/-- The answer of a collection is the one its plan leads to. -/
theorem run_list (h : (list env site u fuel r path qs keeps parent).run x = .ok reply x') :
    ∃ plan, readPlan u r qs = .ok plan ∧
      (planList env site u fuel r path qs keeps parent plan).run x = .ok reply x' := by
  obtain ⟨page, x₁, hpage, h⟩ := run_bind_eq_ok.mp h
  obtain ⟨g, x₂, hincludes, h⟩ := run_bind_eq_ok.mp h
  obtain ⟨clauses, keys, hclauses, hkeys, hplanned⟩ := run_listPage hpage
  obtain ⟨hops, hhops, hgathers⟩ := run_buildIncludes hincludes
  refine ⟨⟨clauses, keys, hops⟩, ?_, run_bind_eq_ok.mpr ⟨page, x₁, hplanned hops,
    run_bind_eq_ok.mpr ⟨g, x₂, hgathers, h⟩⟩⟩
  rw [readPlan, hclauses, hkeys, hhops]
  rfl

theorem holds_of_allHold {db : Db} {held : Held} {clauses : List Clause}
    (h : allHold site u db r held clauses = .ok true) :
    ∀ clause ∈ clauses, clause.holds site u db r held = .ok true := by
  induction clauses with
  | nil => exact nofun
  | cons first rest ih =>
      rw [allHold] at h
      obtain ⟨b, hfirst, h⟩ := except_bind_eq_ok.mp h
      cases b with
      | false => cases h
      | true => exact List.forall_mem_cons.mpr ⟨hfirst, ih h⟩

/-- Every row of the page meets every condition of the plan. -/
theorem meets_of_planPage {plan : Plan} {page : Page}
    (h : (planPage site u r qs keeps plan).run x = .ok page x') : ∃ db : Db,
    ∀ held ∈ page.rows, held ∈ db.liveRows r ∧ keeps held = true ∧
      ∀ clause ∈ plan.clauses, clause.holds site u db r held = .ok true := by
  obtain ⟨perPage, -, h⟩ := run_ofFault_bind h
  obtain ⟨offset, -, h⟩ := run_ofFault_bind h
  obtain ⟨db, x₁, -, h⟩ := run_bind_eq_ok.mp h
  obtain ⟨-, x₂, -, h⟩ := run_bind_eq_ok.mp h
  have hthrows : ∀ {y : Reading} (f : PUnit → Read Page),
      (throw overflow >>= f).run y ≠ .ok page x' := fun _ => nofun
  dsimp only at h
  split_ifs at h
  · exact absurd h (hthrows _)
  · exact absurd h (hthrows _)
  · obtain ⟨matching, x₃, -, h⟩ := run_bind_eq_ok.mp h
    exact absurd h (hthrows _)
  obtain ⟨matching, x₃, hread, h⟩ := run_bind_eq_ok.mp h
  cases h
  refine ⟨db, fun held hheld => ?_⟩
  have hmatching : held ∈ matching := (sortRows_perm plan.keys matching).mem_iff.mp
    (List.mem_of_mem_drop (List.mem_of_mem_take hheld))
  cases hkept : ((db.liveRows r).filter keeps).filterM
      (fun held => allHold site u db r held plan.clauses) with
  | error e =>
      rw [hkept] at hread
      cases hread
  | ok kept =>
      rw [hkept] at hread
      cases hread
      rw [eq_filter_of_filterM hkept, List.mem_filter, List.mem_filter, holds_eq_true] at hmatching
      obtain ⟨⟨hlive, hkeeps⟩, hholds⟩ := hmatching
      exact ⟨hlive, hkeeps, holds_of_allHold hholds⟩

/-! ## What a path names -/

/-- The resource a read answers with, and whether it answers with one record of it. -/
structure Target where
  res : Res
  record : Bool

def nestedTarget (r : Res) (name : String) : Option Target :=
  (r.info.relationships.lookup name).map fun rel => ⟨rel.target, rel.kind = .one⟩

def targetUnder (r : Res) (rest : List String) : Option Target :=
  match rest with
  | [] => some ⟨r, false⟩
  | [_] => some ⟨r, true⟩
  | [_, name] => nestedTarget r name
  | [_, name, _] => (nestedTarget r name).map fun target => ⟨target.res, true⟩
  | [_, name, _, tail] => (nestedTarget r name).bind fun target => nestedTarget target.res tail
  | _ => none

def targetOf (path : String) : Option Target := do
  let segs ← segments path
  let r ← bySegment (segs.headD "")
  targetUnder r segs.tail

/-- What is made of a query there. -/
def Target.readPlan (u : Unicode) (target : Target) (qs : Qs) : Except Fault Plan :=
  if target.record then readRecordPlan u target.res qs else PcoMirror.readPlan u target.res qs

/-- The answer is carried out from a plan. -/
def Target.CarriesOut (env : Env) (site : Site) (u : Unicode) (fuel : ℕ) (target : Target)
    (path : String) (qs : Qs) (plan : Plan) (reply : Reply) (x' : Reading) : Prop :=
  if target.record then
    ∃ x held, (planRecord env site fuel target.res qs held plan).run x = .ok reply x'
  else ∃ x keeps parent,
    (planList env site u fuel target.res path qs keeps parent plan).run x = .ok reply x'

/-- A plan is read, and the answer carried out from it. -/
def Target.Answers (env : Env) (site : Site) (u : Unicode) (fuel : ℕ) (target : Target)
    (path : String) (qs : Qs) (reply : Reply) (x' : Reading) : Prop :=
  ∃ plan, target.readPlan u qs = .ok plan ∧
    target.CarriesOut env site u fuel path qs plan reply x'

theorem answers_of_list (h : (list env site u fuel r path qs keeps parent).run x = .ok reply x') :
    Target.Answers env site u fuel ⟨r, false⟩ path qs reply x' := by
  obtain ⟨plan, hplan, hrun⟩ := run_list h
  exact ⟨plan, hplan, x, keeps, parent, hrun⟩

theorem not_mirrored_of_passthrough {body : Body}
    (h : (passthrough env transport site scopes path qs body).run x = .ok reply x') :
    reply.headers ≠ mirrored :=
  (spec_passthrough scopes path qs body).ok trivial h

theorem answers_of_single {id : String}
    (h : (single env transport site u fuel scopes r id path qs).run x = .ok reply x')
    (hmirrored : reply.headers = mirrored) :
    Target.Answers env site u fuel ⟨r, true⟩ path qs reply x' := by
  obtain ⟨db, x₁, -, h⟩ := run_bind_eq_ok.mp h
  cases hrow : db.row? r id with
  | none =>
      simp only [hrow] at h
      split_ifs at h
      · exact absurd hmirrored (not_mirrored_of_passthrough h)
      · cases h
  | some row =>
      simp only [hrow] at h
      split_ifs at h
      · cases h
        exact absurd hmirrored (gone_headers r row)
      · obtain ⟨g, x₂, hincludes, h⟩ := run_bind_eq_ok.mp h
        obtain ⟨hops, hhops, hgathers⟩ := run_buildIncludes hincludes
        refine ⟨⟨[], [], hops⟩, ?_, x₁, (id, row), run_bind_eq_ok.mpr ⟨g, x₂, hgathers, h⟩⟩
        change readRecordPlan u r qs = _
        rw [readRecordPlan, hhops]
        rfl

theorem answers_of_nested {id name : String}
    (h : (nested env transport site u fuel scopes r id name path qs).run x = .ok reply x')
    (hmirrored : reply.headers = mirrored) : ∃ target, nestedTarget r name = some target ∧
      target.Answers env site u fuel path qs reply x' := by
  unfold nested at h
  cases hrel : r.info.relationships.lookup name with
  | none =>
      simp only [hrel] at h
      exact absurd hmirrored (not_mirrored_of_passthrough h)
  | some rel =>
      simp only [hrel] at h
      refine ⟨_, by rw [nestedTarget, hrel, Option.map_some], ?_⟩
      obtain ⟨db, x₁, -, h⟩ := run_bind_eq_ok.mp h
      cases hlive : db.live? r id with
      | none =>
          simp only [hlive] at h
          cases h
      | some held =>
          simp only [hlive] at h
          by_cases hkind : rel.kind = .one
          · rw [if_pos hkind] at h
            obtain ⟨db', x₂, -, h⟩ := run_bind_eq_ok.mp h
            cases hone : (rel.localId r held).bind (db'.live? rel.target) with
            | none =>
                simp only [hone] at h
                cases h
            | some target =>
                simp only [hone] at h
                rw [decide_eq_true hkind]
                exact answers_of_single h hmirrored
          · rw [if_neg hkind] at h
            obtain ⟨-, x₂, -, h⟩ := run_bind_eq_ok.mp h
            obtain ⟨-, x₃, -, h⟩ := run_bind_eq_ok.mp h
            obtain ⟨keeps, x₄, -, h⟩ := run_bind_eq_ok.mp h
            rw [decide_eq_false hkind]
            exact answers_of_list h

theorem answers_of_nestedSingle {id name child : String} {tail : Option String}
    (h : (nestedSingle env transport site u fuel scopes r id name child tail path qs).run x =
      .ok reply x') (hmirrored : reply.headers = mirrored) :
    ∃ parent target, nestedTarget r name = some parent ∧
      (match tail with
        | some tail => nestedTarget parent.res tail = some target
        | none => (⟨parent.res, true⟩ : Target) = target) ∧
      target.Answers env site u fuel path qs reply x' := by
  unfold nestedSingle at h
  cases hrel : r.info.relationships.lookup name with
  | none =>
      simp only [hrel] at h
      exact absurd hmirrored (not_mirrored_of_passthrough h)
  | some rel =>
      simp only [hrel] at h
      split_ifs at h with hkind
      · exact absurd hmirrored (not_mirrored_of_passthrough h)
      obtain ⟨db, x₁, -, h⟩ := run_bind_eq_ok.mp h
      cases hlive : db.live? r id with
      | none =>
          simp only [hlive] at h
          cases h
      | some held =>
          simp only [hlive] at h
          obtain ⟨-, x₂, -, h⟩ := run_bind_eq_ok.mp h
          obtain ⟨-, x₃, -, h⟩ := run_bind_eq_ok.mp h
          obtain ⟨keeps, x₄, -, h⟩ := run_bind_eq_ok.mp h
          obtain ⟨db', x₅, -, h⟩ := run_bind_eq_ok.mp h
          cases hrow : (db'.row? rel.target child).filter fun row => keeps (child, row) with
          | none =>
              simp only [hrow] at h
              cases h
          | some row =>
              simp only [hrow] at h
              cases tail with
              | some tail =>
                  obtain ⟨target, htarget, hanswers⟩ := answers_of_nested h hmirrored
                  exact ⟨_, target, by rw [nestedTarget, hrel, Option.map_some], htarget, hanswers⟩
              | none =>
                  exact ⟨_, _, by rw [nestedTarget, hrel, Option.map_some], rfl,
                    answers_of_single h hmirrored⟩

theorem answers_of_routeRead {granted : Except String (List String)} {body : Body}
    (h : (routeRead env transport site u fuel granted path qs body).run x = .ok reply x')
    (hmirrored : reply.headers = mirrored) : ∃ target, targetOf path = some target ∧
      target.Answers env site u fuel path qs reply x' := by
  unfold routeRead at h
  split at h
  · cases h
  · split at h
    · exact absurd hmirrored (not_mirrored_of_passthrough h)
    · cases h
    · rename_i first rest hsegs
      split at h
      · exact absurd hmirrored (not_mirrored_of_passthrough h)
      · rename_i r hsegment
        have htarget : targetOf path = targetUnder r rest := by
          rw [targetOf, hsegs, Option.bind_eq_bind, Option.bind_some, List.headD_cons, hsegment,
            Option.bind_eq_bind, Option.bind_some, List.tail_cons]
        split_ifs at h
        · cases h
        · split at h
          · cases h
          · exact ⟨_, htarget, answers_of_list h⟩
          · cases h
          · exact ⟨_, htarget, answers_of_single h hmirrored⟩
          · obtain ⟨target, hnested, hanswers⟩ := answers_of_nested h hmirrored
            exact ⟨target, htarget.trans hnested, hanswers⟩
          · obtain ⟨parent, target, hparent, hchild, hanswers⟩ :=
              answers_of_nestedSingle h hmirrored
            refine ⟨target, htarget.trans ?_, hanswers⟩
            rw [targetUnder, hparent, Option.map_some]
            exact congrArg some hchild
          · obtain ⟨parent, target, hparent, htail, hanswers⟩ :=
              answers_of_nestedSingle h hmirrored
            refine ⟨target, htarget.trans ?_, hanswers⟩
            rw [targetUnder, hparent, Option.bind_some]
            exact htail
          · cases h

/-- An answer from the mirror is carried out from the plan that is made of the query. -/
theorem answers_of_serveRead {granted : Except String (List String)} {body : Body}
    (h : (serveRead env transport site u fuel granted path qs body).run x = .ok reply x')
    (hmirrored : reply.headers = mirrored) : ∃ target, targetOf path = some target ∧
      target.Answers env site u fuel path qs reply x' := by
  cases hroute : (routeRead env transport site u fuel granted path qs body).run x with
  | ok routed x₁ =>
      rw [serveRead, run_tryCatch_of_ok hroute] at h
      cases h
      exact answers_of_routeRead hroute hmirrored
  | error fault x₁ =>
      rw [serveRead, run_tryCatch_of_error hroute] at h
      cases fault with
      | http status detail info =>
          cases h
          dsimp only at hmirrored
          split_ifs at hmirrored <;> simp [mirrored] at hmirrored
      | raised e =>
          cases h
          cases hmirrored
      | sqlite e =>
          cases e
          cases h
          cases hmirrored
      | stopped => cases h

end PcoMirror
