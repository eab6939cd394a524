import PcoMirror.Verification.Serving.Reads
import PcoMirror.Verification.Writer.Operations

/-! The dead are never served, and no filter goes through them. -/

namespace PcoMirror

open Program

/-- The document serializes a row that was live when the read came upon it. -/
def FromLive (env : Env) (fuel : ℕ) (site : Site) (fields : List (String × List String))
    (w : World) (doc : Json) : Prop :=
  ∃ r held echo, LiveOnce env fuel w r held ∧ site.serialize r held echo fields = .ok doc

variable {env : Env} {transport : Transport} {site : Site} {u : Unicode} {fuel : ℕ} {w : World}
  {fields : List (String × List String)} {scopes : List String} {r : Res} {rows : List Held}
  {path : String} {qs : Qs}

/-! ## Includes -/

/-- What was gathered so far serializes live rows. -/
def Gathered.Living (env : Env) (fuel : ℕ) (site : Site) (fields : List (String × List String))
    (w : World) (g : Gathered) : Prop :=
  ∀ doc ∈ g.out, FromLive env fuel site fields w doc

theorem Gathered.Living.gather {g g' : Gathered} (hg : g.Living env fuel site fields w)
    (hrows : AllLive env fuel w r rows) (h : gather site fields r g rows = .ok g') :
    g'.Living env fuel site fields w := by
  induction rows generalizing g with
  | nil =>
      cases h
      exact hg
  | cons held rows ih =>
      rw [PcoMirror.gather, List.foldlM_cons] at h
      obtain ⟨next, hnext, hrest⟩ := except_bind_eq_ok.mp h
      refine ih ?_ (fun x hx => hrows x (.tail _ hx)) hrest
      split_ifs at hnext
      · cases hnext
        exact hg
      · obtain ⟨doc, hdoc, hnext⟩ := except_bind_eq_ok.mp hnext
        cases hnext
        intro found hfound
        rcases List.mem_append.mp hfound with hold | hnew
        · exact hg found hold
        · rw [List.mem_singleton.mp hnew]
          exact ⟨r, held, [], hrows held (.head _), hdoc⟩

theorem spec_gatherRows (r : Res) (g : Gathered) (rows : List Held) :
    Spec (fun x => (x.FilledFrom env fuel w ∧ AllLive env fuel w r rows) ∧
        g.Living env fuel site fields w)
      (readPy (gather site fields r g rows))
      (fun g x => x.FilledFrom env fuel w ∧ g.Living env fuel site fields w) fun _ _ => True := by
  refine (spec_readPy _).conseq (fun _ h => h) ?_ fun _ _ h => h
  rintro g' x ⟨hgather, ⟨hx, hrows⟩, hg⟩
  exact ⟨hx, hg.gather hrows hgather⟩

/-- What a read keeps while it gathers. -/
def Gathers (env : Env) (fuel : ℕ) (site : Site) (fields : List (String × List String))
    (w : World) (g : Gathered) (x : Reading) : Prop :=
  x.FilledFrom env fuel w ∧ g.Living env fuel site fields w

theorem spec_relatedAside (g : Gathered) (r : Res) (rel : Rel) (rows : List Held) :
    Spec (Gathers env fuel site fields w g) (readRelated r rel rows)
      (fun found x => (x.FilledFrom env fuel w ∧ AllLive env fuel w rel.target found) ∧
        g.Living env fuel site fields w) fun _ _ => True :=
  Spec.aside fun _ => spec_readRelated r rel rows

theorem spec_echoRow (rel rel2 : Rel) (second : String) (g : Gathered) (held : Held) :
    Spec (Gathers env fuel site fields w g) (echoRow r rel rel2 second g held)
      (Gathers env fuel site fields w) fun _ _ => True := by
  have hids : ∀ own, Spec (Gathers env fuel site fields w g) (echoIds rel rel2 own)
      (fun _ => Gathers env fuel site fields w g) fun _ _ => True := fun own => by
    unfold echoIds
    refine Spec.foldlM (I := fun _ => Gathers env fuel site fields w g) own (fun ids one _ => ?_) []
    exact Spec.bind (spec_relatedAside g rel.target rel2 [one])
      fun hop => Spec.pure fun _ h => ⟨h.1.1, h.2⟩
  refine Spec.bind (spec_relatedAside g r rel [held]) fun own =>
    Spec.ite (fun _ => Spec.pure fun _ h => ⟨h.1.1, h.2⟩) fun _ => ?_
  refine Spec.bind ((hids own).conseq (fun _ h => ⟨h.1.1, h.2⟩) (fun _ _ h => h) fun _ _ h => h)
    fun ids => Spec.pure fun _ h => h

theorem spec_includeToken (r : Res) (rows : List Held) (g : Gathered) (token : String) :
    Spec (Gathers env fuel site fields w g) (includeToken env site u fuel fields r rows g token)
      (Gathers env fuel site fields w) fun _ _ => True := by
  have hwalked : ∀ (g : Gathered) (r : Res) (rel : Rel) (rows : List Held),
      Spec (Gathers env fuel site fields w g) (ensureWalked env fuel r rel rows)
        (fun _ => Gathers env fuel site fields w g) fun _ _ => True := fun g r rel rows =>
    Spec.aside fun _ => (keeps_ensureWalked r rel rows).mono_halt fun _ _ _ => trivial
  unfold includeToken
  simp only
  split
  · exact Spec.throw fun _ _ => trivial
  · rename_i rel _
    refine Spec.bind (hwalked g r rel rows) fun _ => Spec.bind (spec_relatedAside g r rel rows)
      fun level1 => Spec.bind (spec_gatherRows rel.target g level1) fun g => ?_
    refine Spec.ite (fun _ => Spec.pure fun _ h => h) fun _ => ?_
    split
    · exact Spec.pure fun _ h => h
    · rename_i rel2 _
      refine Spec.bind (hwalked g rel.target rel2 level1) fun _ =>
        Spec.bind (spec_relatedAside g rel.target rel2 level1) fun level2 =>
        Spec.bind (spec_gatherRows rel2.target g level2) fun g => ?_
      exact Spec.foldlM rows (fun g held _ => spec_echoRow rel rel2 _ g held) g

theorem spec_buildIncludes (r : Res) (rows : List Held) (qs : Qs) :
    Spec (Reading.FilledFrom env fuel w) (buildIncludes env site u fuel r rows qs)
      (Gathers env fuel site (sparseFields qs) w) fun _ _ => True := by
  have hstart : ∀ x : Reading, x.FilledFrom env fuel w →
      Gathers env fuel site (sparseFields qs) w {} x := fun x hx => ⟨hx, nofun⟩
  unfold buildIncludes
  split
  · exact Spec.pure hstart
  · exact Spec.pure hstart
  · exact (Spec.foldlM _ (fun g token _ => spec_includeToken r rows g token) {}).conseq hstart
      (fun _ _ h => h) fun _ _ h => h

/-! ## Pages and records -/

theorem spec_listPage (r : Res) (qs : Qs) (keeps : Held → Bool) :
    Spec (Reading.FilledFrom env fuel w) (listPage site u r qs keeps)
      (fun page x => x.FilledFrom env fuel w ∧ AllLive env fuel w r page.rows)
      fun _ _ => True := by
  refine Spec.bind (spec_ofFault _) fun clauses => Spec.bind (spec_ofFault _) fun keys =>
    Spec.bind (spec_ofFault _) fun perPage => Spec.bind (spec_ofFault _) fun offset =>
    Spec.bind spec_database fun db => ?_
  refine Spec.bind (Spec.aside fun _ => (keeps_present _).mono_halt fun _ _ _ => trivial)
    fun _ => ?_
  have hoverflow : ∀ {α : Type} {P : Reading → Prop} {Q : α → Reading → Prop} (f : PUnit → Read α),
      Spec P (throw overflow >>= f) Q fun _ _ => True := fun f =>
    Spec.bind (R := fun _ _ => False) (Spec.throw fun _ _ => trivial) fun _ => nofun
  dsimp only
  refine Spec.ite (fun _ => hoverflow _) fun _ => Spec.bind (spec_readSql _) fun matching => ?_
  cases fitsInt64 ((max 0 offset).toNat : ℤ)
  · exact hoverflow _
  refine Spec.pure ?_
  rintro x ⟨hmatching, hx, w', hw, rfl⟩
  refine ⟨hx, fun held hheld => ⟨w', hw, ?_⟩⟩
  have hsorted := List.mem_of_mem_drop (List.mem_of_mem_take hheld)
  rw [sortRows, List.mem_insertionSort] at hsorted
  rw [eq_filter_of_filterM hmatching] at hsorted
  exact List.mem_of_mem_filter (List.mem_of_mem_filter hsorted)

/-- The resource objects of an answer. -/
def Reply.resources (reply : Reply) : List Json :=
  match reply.payload with
  | .document doc =>
    (match doc.member? "data" with
      | some (.arr items) => items
      | some item => [item]
      | none => []) ++
    match doc.member? "included" with
      | some (.arr items) => items
      | _ => []
  | .body _ => []

/-- An answer from the mirror serves live rows only. -/
def Reply.Living (env : Env) (fuel : ℕ) (site : Site) (fields : List (String × List String))
    (w : World) (reply : Reply) : Prop :=
  reply.headers = mirrored → ∀ doc ∈ reply.resources, FromLive env fuel site fields w doc

theorem lookup_withIncluded (g : Gathered) : (withIncluded g).lookup "included" =
    if g.out.isEmpty then none else some (.arr g.out) := by
  unfold withIncluded
  split_ifs <;> rfl

theorem mem_resources {status : ℕ} {headers : List (String × String)} {doc : Json}
    {members : List (String × Json)} {g : Gathered}
    (hnone : members.lookup "included" = none) (hsome : (members.lookup "data").isSome = true)
    (h : doc ∈ Reply.resources ⟨status, headers, .document (.obj (members ++ withIncluded g))⟩) :
    (members.lookup "data" = some doc ∧ ∀ items, doc ≠ .arr items) ∨
      (∃ items, members.lookup "data" = some (.arr items) ∧ doc ∈ items) ∨ doc ∈ g.out := by
  have hdata : (members ++ withIncluded g).lookup "data" = members.lookup "data" := by
    obtain ⟨v, hv⟩ := Option.isSome_iff_exists.mp hsome
    rw [List.lookup_append, hv]
    rfl
  simp only [Reply.resources, Json.member?, hdata, List.lookup_append, hnone, Option.none_or,
    lookup_withIncluded, List.mem_append] at h
  rcases h with hitem | hincluded
  · obtain ⟨v, hv⟩ := Option.isSome_iff_exists.mp hsome
    rw [hv] at hitem ⊢
    cases v with
    | arr items => exact .inr (.inl ⟨items, rfl, hitem⟩)
    | _ =>
        obtain rfl := List.mem_singleton.mp hitem
        exact .inl ⟨rfl, fun _ heq => by cases heq⟩
  · right
    right
    by_cases hempty : g.out.isEmpty = true
    · simp [hempty] at hincluded
    · simpa [hempty] using hincluded

theorem serialize_object {held : Held} {echo : List (String × Json)} {doc : Json}
    (h : site.serialize r held echo fields = .ok doc) : ∃ members, doc = .obj members := by
  unfold Site.serialize at h
  split at h
  · obtain ⟨html, -, h⟩ := except_bind_eq_ok.mp h
    obtain ⟨echoed, -, h⟩ := except_bind_eq_ok.mp h
    obtain ⟨rewritten, -, h⟩ := except_bind_eq_ok.mp h
    cases hkeep : fields.lookup r.info.type with
    | none =>
        rw [hkeep] at h
        exact ⟨_, (Except.ok.inj h).symm⟩
    | some keep =>
        rw [hkeep] at h
        obtain ⟨kept, -, h⟩ := except_bind_eq_ok.mp h
        exact ⟨_, (Except.ok.inj h).symm⟩
  · cases h

theorem gone_headers (r : Res) (row : Row) : (gone r row).headers ≠ mirrored := by
  unfold gone
  cases row.mergedInto.filter (· ≠ "") <;> simp [mirrored]

theorem spec_list (r : Res) (path : String) (qs : Qs) (keeps : Held → Bool) (parent : Option Json) :
    Spec (Reading.FilledFrom env fuel w) (list env site u fuel r path qs keeps parent)
      (fun reply _ => reply.Living env fuel site (sparseFields qs) w) fun _ _ => True := by
  refine Spec.bind (spec_listPage r qs keeps) fun page =>
    Spec.bind (Spec.aside fun _ => spec_buildIncludes r page.rows qs) fun g =>
    Spec.bind (spec_readPy _) fun data => Spec.bind spec_reading
      fun _ => Spec.pure ?_
  rintro _ ⟨hdata, ⟨-, hg⟩, hrows⟩ - doc hdoc
  rcases mem_resources rfl rfl hdoc with ⟨hone, hnone⟩ | ⟨items, hitems, hitem⟩ | hincluded
  · exact absurd (Option.some.inj hone).symm (hnone _)
  · cases hitems
    obtain ⟨held, hheld, hserialized⟩ := exists_of_mem_mapM hdata hitem
    exact ⟨r, held, _, hrows held hheld, hserialized⟩
  · exact hg doc hincluded

theorem spec_passthrough (scopes : List String) (path : String) (qs : Qs) (body : Body) :
    Spec (fun _ => True) (passthrough env transport site scopes path qs body)
      (fun reply _ => reply.headers ≠ mirrored) fun _ _ => True := by
  have hany : ∀ {α : Type} {m : Read α}, Spec (fun _ => True) m (fun _ _ => True) fun _ _ => True :=
    Spec.trivial
  unfold passthrough
  refine Spec.bind hany fun _ => Spec.bind hany fun _ => Spec.bind hany fun resp =>
    Spec.bind hany fun out => ?_
  have hend : ∀ doc : Json → Json, Spec (fun _ : Reading => True) (do
      let out ← readPy (site.rewriteDocument out)
      return (⟨resp.status, [("X-Mirror-Source", "passthrough")], .document (doc out)⟩ : Reply))
      (fun reply _ => reply.headers ≠ mirrored) fun _ _ => True :=
    fun doc => Spec.bind hany fun out => Spec.pure fun _ _ => by simp [mirrored]
  exact Spec.ite (fun _ => Spec.bind hany fun _ => hend _) fun _ => hend _

theorem spec_relayed (scopes : List String) (path : String) (qs : Qs) (body : Body) :
    Spec (Reading.FilledFrom env fuel w) (passthrough env transport site scopes path qs body)
      (fun reply _ => reply.Living env fuel site (sparseFields qs) w) fun _ _ => True :=
  (spec_passthrough scopes path qs body).conseq (fun _ _ => trivial)
    (fun _ _ hrelayed hmirrored => absurd hmirrored hrelayed) fun _ _ h => h

theorem spec_single (scopes : List String) (r : Res) (id path : String) (qs : Qs) :
    Spec (Reading.FilledFrom env fuel w) (single env transport site u fuel scopes r id path qs)
      (fun reply _ => reply.Living env fuel site (sparseFields qs) w) fun _ _ => True := by
  refine Spec.bind spec_database fun db => ?_
  cases hrow : db.row? r id with
  | none =>
      refine Spec.ite (fun _ => ?_) fun _ => Spec.throw fun _ _ => trivial
      exact (spec_relayed scopes path qs .empty).conseq (fun _ h => h.1) (fun _ _ h => h)
        fun _ _ h => h
  | some row =>
      refine Spec.ite (fun _ => Spec.pure fun _ _ hmirrored => absurd hmirrored (gone_headers r row))
        fun hlive => ?_
      · refine Spec.bind (Spec.aside fun _ => spec_buildIncludes r [(id, row)] qs) fun g =>
          Spec.bind (spec_readPy _) fun data =>
          Spec.bind spec_reading fun _ => Spec.pure ?_
        rintro _ ⟨hdata, ⟨-, hg⟩, w', hw, rfl⟩ - doc hdoc
        have hheld : (id, row) ∈ w'.db.liveRows r :=
          Db.mem_liveRows.mpr ⟨hrow, by simpa using hlive⟩
        rcases mem_resources rfl rfl hdoc with ⟨hone, -⟩ | ⟨items, hitems, -⟩ | hincluded
        · cases hone
          exact ⟨r, (id, row), _, ⟨w', hw, hheld⟩, hdata⟩
        · obtain ⟨members, hobj⟩ := serialize_object hdata
          rw [hobj] at hitems
          cases hitems
        · exact hg doc hincluded

theorem spec_nested (scopes : List String) (r : Res) (id name path : String) (qs : Qs) :
    Spec (Reading.FilledFrom env fuel w) (nested env transport site u fuel scopes r id name path qs)
      (fun reply _ => reply.Living env fuel site (sparseFields qs) w) fun _ _ => True := by
  unfold nested
  split
  · exact spec_relayed scopes path qs .empty
  · rename_i rel _
    refine Spec.bind spec_database fun db => ?_
    cases db.live? r id with
    | none => exact Spec.throw fun _ _ => trivial
    | some held =>
        refine Spec.ite (fun _ => ?_) fun _ => ?_
        · refine Spec.bind (Spec.aside fun _ => spec_database) fun db' => ?_
          cases (rel.localId r held).bind (db'.live? rel.target) with
          | none => exact Spec.throw fun _ _ => trivial
          | some target =>
              exact (spec_single scopes rel.target target.1 path qs).conseq (fun _ h => h.1.1)
                (fun _ _ h => h) fun _ _ h => h
        · refine Spec.bind (Spec.aside fun _ => (keeps_ensureWalked r rel [held]).mono_halt
            fun _ _ _ => trivial) fun _ => Spec.bind (Spec.aside fun _ =>
            (keeps_present _).mono_halt fun _ _ _ => trivial) fun _ =>
            Spec.bind (spec_readPy _) fun keeps => ?_
          exact (spec_list rel.target path qs keeps _).conseq (fun _ h => h.2.1) (fun _ _ h => h)
            fun _ _ h => h

theorem spec_nestedSingle (scopes : List String) (r : Res) (id name childId : String)
    (tail : Option String) (path : String) (qs : Qs) :
    Spec (Reading.FilledFrom env fuel w)
      (nestedSingle env transport site u fuel scopes r id name childId tail path qs)
      (fun reply _ => reply.Living env fuel site (sparseFields qs) w) fun _ _ => True := by
  unfold nestedSingle
  split
  · exact spec_relayed scopes path qs .empty
  · rename_i rel _
    refine Spec.ite (fun _ => spec_relayed scopes path qs .empty) fun _ =>
      Spec.bind spec_database fun db => ?_
    cases db.live? r id with
    | none => exact Spec.throw fun _ _ => trivial
    | some held =>
        refine Spec.bind (Spec.aside fun _ => (keeps_ensureWalked r rel [held]).mono_halt
          fun _ _ _ => trivial) fun _ => Spec.bind (Spec.aside fun _ =>
          (keeps_present _).mono_halt fun _ _ _ => trivial) fun _ =>
          Spec.bind (spec_readPy _) fun keeps => ?_
        refine Spec.bind ((spec_database).conseq (fun _ h => h.2.1) (fun _ _ h => h)
          fun _ _ h => h) fun db' => ?_
        cases (db'.row? rel.target childId).filter fun row => keeps (childId, row) with
        | none => exact Spec.throw fun _ _ => trivial
        | some row =>
            cases tail with
            | some tail =>
                exact (spec_nested scopes rel.target childId tail path qs).conseq (fun _ h => h.1)
                  (fun _ _ h => h) fun _ _ h => h
            | none =>
                exact (spec_single scopes rel.target childId path qs).conseq (fun _ h => h.1)
                  (fun _ _ h => h) fun _ _ h => h

/-! ## Filters -/

/-- Two databases hold the same live rows. -/
def SameLiving (db db' : Db) : Prop :=
  ∀ t, db.liveRows t = db'.liveRows t

variable {db db' : Db}

theorem SameLiving.live? (h : SameLiving db db') (t : Res) (id : String) :
    db.live? t id = db'.live? t id := by
  refine Option.ext fun held => ?_
  rw [Db.live?_eq_some, Db.live?_eq_some, h t]

theorem SameLiving.pointingAt (h : SameLiving db db') (t : Res) (fk : Option String) (id : String) :
    db.pointingAt t fk id = db'.pointingAt t fk id := by
  rw [Db.pointingAt, Db.pointingAt, h t]

theorem SameLiving.entryRow (h : SameLiving db db') (site : Site) (t : Res) :
    site.entryRow db t = site.entryRow db' t := by
  have hlive : db.live? t = db'.live? t := funext (h.live? t)
  funext entry
  simp only [Site.entryRow, hlive]

theorem SameLiving.hop (h : SameLiving db db') (site : Site) (r : Res) (rel : Rel) (held : Held) :
    site.hop db r rel held = site.hop db' r rel held := by
  have hlive : db.live? rel.target = db'.live? rel.target := funext (h.live? rel.target)
  simp only [Site.hop, hlive, h.entryRow, h.pointingAt]

theorem SameLiving.search (h : SameLiving db db') (u : Unicode) (search : Search) (r : Res)
    (held : Held) (needle : String) :
    search.holds u db r held needle = search.holds u db' r held needle := by
  simp only [Search.holds, SearchChild.holds, h.pointingAt]

/-- A condition reads no row but live ones. -/
theorem SameLiving.holds (h : SameLiving db db') (site : Site) (u : Unicode) (clause : Clause) :
    ∀ (r : Res) (held : Held), clause.holds site u db r held = clause.holds site u db' r held := by
  induction clause with
  | column col test => exact fun _ _ => rfl
  | search search needle => exact fun r held => congrArg _ (h.search u search r held needle)
  | never => exact fun _ _ => rfl
  | through rel inner ih =>
      intro r held
      have hinner : (fun x => inner.holds site u db rel.target x) =
          fun x => inner.holds site u db' rel.target x := funext (ih rel.target)
      rw [Clause.holds, Clause.holds, h.hop, hinner]

theorem SameLiving.allHold (h : SameLiving db db') (site : Site) (u : Unicode) (r : Res)
    (held : Held) (clauses : List Clause) :
    allHold site u db r held clauses = allHold site u db' r held clauses := by
  induction clauses with
  | nil => rfl
  | cons clause clauses ih =>
      simp only [PcoMirror.allHold, h.holds, ih]

/-! ## The service -/

theorem spec_routeRead (scopes : Except String (List String)) (path : String) (qs : Qs)
    (body : Body) :
    Spec (Reading.FilledFrom env fuel w) (routeRead env transport site u fuel scopes path qs body)
      (fun reply _ => reply.Living env fuel site (sparseFields qs) w) fun _ _ => True := by
  have hthrow : ∀ fault : Fault, Spec (Reading.FilledFrom env fuel w) (throw fault : Read Reply)
      (fun reply _ => reply.Living env fuel site (sparseFields qs) w) fun _ _ => True :=
    fun _ => Spec.throw fun _ _ => trivial
  unfold routeRead
  split
  · exact hthrow _
  · rename_i scopes
    split
    · exact spec_relayed scopes path qs body
    · exact hthrow _
    · split
      · exact spec_relayed scopes path qs body
      · rename_i r _
        refine Spec.ite (fun _ => hthrow _) fun _ => ?_
        split
        · exact hthrow _
        · exact spec_list r path qs _ none
        · exact hthrow _
        · exact spec_single scopes r _ path qs
        · exact spec_nested scopes r _ _ path qs
        · exact spec_nestedSingle scopes r _ _ _ none path qs
        · exact spec_nestedSingle scopes r _ _ _ (some _) path qs
        · exact hthrow _

/-- Every answer of the service from the mirror serves live rows only. -/
theorem spec_serveRead (scopes : Except String (List String)) (path : String) (qs : Qs)
    (body : Body) :
    Spec (Reading.FilledFrom env fuel w) (serveRead env transport site u fuel scopes path qs body)
      (fun reply _ => reply.Living env fuel site (sparseFields qs) w) fun _ _ => True := by
  refine Spec.tryCatch (spec_routeRead scopes path qs body) fun fault => ?_
  have hfailed : ∀ reply : Reply, reply.headers ≠ mirrored →
      Spec (fun _ => True) (pure reply : Read Reply)
        (fun reply _ => reply.Living env fuel site (sparseFields qs) w) fun _ _ => True :=
    fun reply h => Spec.pure fun _ _ hmirrored => absurd hmirrored h
  cases fault with
  | http status detail info =>
      refine hfailed _ ?_
      dsimp only
      split_ifs <;> simp [mirrored]
  | raised e => exact hfailed _ nofun
  | sqlite e =>
      cases e
      exact hfailed _ nofun
  | stopped => exact Spec.throw fun _ _ => trivial

/-- No resource of an answer from the mirror comes from a tombstoned row, and what the filters of a
read keep does not depend on the tombstoned rows. -/
theorem dead_never_served (env : Env) (transport : Transport) (site : Site) (u : Unicode)
    (fuel : ℕ) (scopes : Except String (List String)) (path : String) (qs : Qs) (body : Body)
    (x x' : Reading) (reply : Reply)
    (hserved : (serveRead env transport site u fuel scopes path qs body).run x = .ok reply x')
    (hmirrored : reply.headers = mirrored) :
    (∀ doc ∈ reply.resources, ∃ w' r held echo, Filled env fuel x.world w' ∧
      held ∈ w'.db.liveRows r ∧ site.serialize r held echo (sparseFields qs) = .ok doc) ∧
    ∀ db db' : Db, SameLiving db db' → ∀ (r : Res) (held : Held) (clauses : List Clause),
      allHold site u db r held clauses = allHold site u db' r held clauses := by
  refine ⟨fun doc hdoc => ?_, fun db db' h r held clauses => h.allHold site u r held clauses⟩
  obtain ⟨r, held, echo, ⟨w', hw, hheld⟩, hserialized⟩ :=
    (spec_serveRead (w := x.world) scopes path qs body).ok Filled.start hserved hmirrored doc hdoc
  exact ⟨w', r, held, echo, hw, hheld, hserialized⟩

/-- A mirror of one family. -/
def familyReading : Reading :=
  { world := { db := familyOf "1" } }

theorem dead_never_served_family :
    ∃ reply x', (serveRead quietEnv (fun _ => .error .transportError) plainSite plainUnicode 1
        (.ok ["read:*"]) "/people/v2/people/1" [] .empty).run familyReading = .ok reply x' ∧
      reply.status = 200 ∧ ∀ doc ∈ reply.resources, ∃ w' r held echo,
        Filled quietEnv 1 familyReading.world w' ∧ held ∈ w'.db.liveRows r ∧
          plainSite.serialize r held echo (sparseFields []) = .ok doc :=
  ⟨_, _, rfl, rfl, (dead_never_served quietEnv (fun _ => .error .transportError) plainSite
    plainUnicode 1 (.ok ["read:*"]) "/people/v2/people/1" [] .empty familyReading _ _ rfl rfl).1⟩

end PcoMirror
