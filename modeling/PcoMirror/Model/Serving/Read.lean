import PcoMirror.Model.Serving.Edges

/-! Reads: a record, a collection, and what hangs off a record, served from the mirror or
relayed from PCO. -/

namespace PcoMirror

open Program

/-! ## Documents -/

def Source.text : Source → String
  | .webhook => "webhook"
  | .backfill => "backfill"
  | .reconcile => "reconcile"
  | .passthrough => "passthrough"

def Reason.text : Reason → String
  | .destroyed => "destroyed"
  | .auditAbsent => "audit_absent"
  | .absent => "absent"
  | .merged => "merged"
  | .ownerDeleted => "owner_deleted"
  | .other text => text

def ofText (s : Option String) : Json :=
  match s with
  | some s => .str s
  | none => .null

/-- `d.setdefault(key, value)` -/
def setDefault (key : String) (value : Json) (members : List (String × Json)) :
    List (String × Json) :=
  match members.lookup key with
  | some _ => members
  | none => members ++ [(key, value)]

/-- `_sparse_fields`: the names kept, by type. -/
def sparseFields (qs : Qs) : List (String × List String) :=
  (qs.filter fun e => "fields[".toList.isPrefixOf e.1.toList && [']'].isSuffixOf e.1.toList).foldl
    (fun out (key, vals) =>
      let type := String.ofList ((key.toList.drop "fields[".length).dropLast)
      let names := ((vals.flatMap Text.commas).map fun n => String.ofList (Text.strip n.toList)).filter
        (· ≠ "")
      match out.lookup type with
      | some held => out.map fun e => if e.1 = type then (type, held ++ names) else e
      | none => out ++ [(type, names)]) []

/-- `r.endpoint.strip("/")` -/
def Resource.segment (r : Resource) : String :=
  String.ofList (Text.rstrip (· = '/') (r.endpoint.toList.dropWhile (· = '/')))

/-- `link_map` -/
def linkMap (r : Res) (id : String) (html : Option Json) (parentId : Option String) :
    List (String × Json) :=
  let under := match r.info.parent, parentId.filter (· ≠ "") with
    | some parent, some parentId => "/" ++ parent.info.segment ++ "/" ++ parentId
    | _, _ => ""
  let base := "/people/v2" ++ under ++ "/" ++ r.info.segment ++ "/" ++ id
  [("self", .str base)] ++ r.info.relationships.map (fun e => (e.1, .str (base ++ "/" ++ e.1))) ++
    ((html.filter Json.truthy).map fun html => ("html", html)).toList

/-- The relationships PCO makes up for a nested include, on the record itself. -/
def withEcho (echo : List (String × Json)) (members : List (String × Json)) :
    Except PyError (List (String × Json)) :=
  echo.foldlM (fun members (name, ids) => do
    let members := setDefault "relationships" (.obj []) members
    match members.lookup "relationships" with
    | some (.obj rels) =>
      let rel : Json := .obj [("links", .obj [("related", .null)]), ("data", ids)]
      return Json.assign "relationships" (.obj (Json.assign name rel rels)) members
    | _ => throw .typeError) members

/-- `(obj.get(key) or {}).items()`, those whose names are kept. -/
def keptMembers (keep : List String) (key : String) (members : List (String × Json)) :
    Except PyError (List (String × Json)) :=
  match orEmptyObj (members.lookup key) with
  | .obj held => .ok (held.filter fun e => keep.contains e.1)
  | _ => .error .attributeError

/-- A record without the fields that were not asked for. -/
def sparse (keep : List String) (members : List (String × Json)) :
    Except PyError (List (String × Json)) := do
  let members := Json.assign "attributes" (.obj (← keptMembers keep "attributes" members)) members
  let rels ← keptMembers keep "relationships" members
  return if rels.isEmpty && (members.lookup "relationships").isNone then members
    else Json.assign "relationships" (.obj rels) members

/-- `_serialize` -/
def Site.serialize (site : Site) (r : Res) (held : Held) (echo : List (String × Json))
    (fields : List (String × List String)) : Except PyError Json :=
  match held.2.raw with
  | .obj members => do
    let members := setDefault "type" (.str r.info.type) (setDefault "id" (.str held.1) members)
    let html ← pyGet (orEmptyObj (members.lookup "links")) "html"
    let parentId := r.info.parentFk.bind fun fk => r.column fk held.2.raw
    let members := Json.assign "links" (.obj (linkMap r held.1 html parentId)) members
    let members ← site.rewriteRelationships (← withEcho echo members)
    let members ← match fields.lookup r.info.type with
      | some keep => sparse keep members
      | none => .ok members
    return .obj (Json.assign "meta" (.obj [("mirror", .obj [
      ("last_synced_at", .str held.2.lastSyncedAt), ("pco_updated_at", ofText held.2.uat),
      ("source", .str held.2.source.text), ("deleted_at", ofText held.2.deletedAt)])]) members)
  | _ => throw .attributeError

/-! ## Includes -/

/-- What `include` has gathered: the records, each once, and what is echoed on each row. -/
structure Gathered where
  out : List Json := []
  seen : List (Res × String) := []
  echo : String → List (String × Json) := fun _ => []

/-- `add`, for each of these rows. -/
def gather (site : Site) (fields : List (String × List String)) (r : Res) (g : Gathered)
    (rows : List Held) : Except PyError Gathered :=
  rows.foldlM (fun g held =>
    if g.seen.contains (r, held.1) then .ok g
    else do
      let doc ← site.serialize r held [] fields
      return { g with out := g.out ++ [doc], seen := (r, held.1) :: g.seen }) g

def identifier (r : Res) (id : String) : Json :=
  .obj [("type", .str r.info.type), ("id", .str id)]

/-- The ids each first-level record of one row leads to, in turn, duplicates and all. A hop that the
original remembers is read again. -/
def echoIds (rel rel2 : Rel) (own : List Held) : Read (List Json) :=
  own.foldlM (fun ids one => do
    let hop ← readRelated rel.target rel2 [one]
    return ids ++ hop.map fun y => identifier rel2.target y.1) []

/-- What a nested include adds to one row; nothing, where the first level is empty. -/
def echoRow (r : Res) (rel rel2 : Rel) (second : String) (g : Gathered) (held : Held) :
    Read Gathered := do
  let own ← readRelated r rel [held]
  if own.isEmpty then return g
  let ids ← echoIds rel rel2 own
  return { g with echo := fun id =>
    if id = held.1 then Json.assign second (.arr ids) (g.echo id) else g.echo id }

section

variable (env : Env) (transport : Transport) (site : Site) (u : Unicode) (fuel : ℕ)

/-- One token of `include`: a relationship, and one more where a dot follows. -/
def includeToken (fields : List (String × List String)) (r : Res) (rows : List Held)
    (g : Gathered) (token : String) : Read Gathered := do
  let (first, second) := Text.partition '.' token
  match r.info.relationships.lookup first with
  | none => throw (badRequest ("cannot include " ++ u.repr first ++ ": not mirrored"))
  | some rel =>
    ensureWalked env fuel r rel rows
    let level1 ← readRelated r rel rows
    let g ← readPy (gather site fields rel.target g level1)
    if second = "" then return g
    match rel.target.info.relationships.lookup second with
    | none => return g
    | some rel2 =>
      ensureWalked env fuel rel.target rel2 level1
      let level2 ← readRelated rel.target rel2 level1
      let g ← readPy (gather site fields rel2.target g level2)
      rows.foldlM (echoRow r rel rel2 second) g

/-- `_build_includes` -/
def buildIncludes (r : Res) (rows : List Held) (qs : Qs) : Read Gathered :=
  match qs.first? "include" with
  | none | some "" => pure {}
  | some tokens =>
    (Text.commas tokens).foldlM (includeToken env site u fuel (sparseFields qs) r rows) {}

/-! ## Collections -/

def overflow : Fault :=
  .http 500 "Python int too large to convert to SQLite INTEGER" none

/-- `_int` -/
def intParam (qs : Qs) (key : String) (default : ℤ) : Except Fault ℤ :=
  match qs.first? key with
  | none | some "" => .ok default
  | some raw => match Text.int? raw.toList with
    | some n => .ok n
    | none => .error (badRequest (key ++ " must be an integer, got " ++ u.repr raw))

structure Page where
  perPage : ℕ
  offset : ℕ
  total : ℕ
  rows : List Held

/-- The rows of one page: those on one side of a relationship, filtered and ordered. -/
def listPage (r : Res) (qs : Qs) (keeps : Held → Bool) : Read Page := do
  let clauses ← ofFault (buildWhere u r qs)
  let keys ← ofFault (buildOrder r qs)
  let perPage := (max 0 (min 100 (← ofFault (intParam u qs "per_page" 25)))).toNat
  let offset := (max 0 (← ofFault (intParam u qs "offset" 0))).toNat
  let db ← database
  let candidates := (db.liveRows r).filter keeps
  present fun db => clauses.flatMap fun clause => clause.presents site db r candidates
  if (clauses.flatMap Clause.integers).any (!fitsInt64 ·) then throw overflow
  let matching ← readSql (candidates.filterM fun held => allHold site u db r held clauses)
  if !fitsInt64 offset then throw overflow
  return ⟨perPage, offset, matching.length,
    ((sortRows u r keys matching).drop offset).take perPage⟩

/-- `_page_links`: the same query, further along. -/
def pageLinks (path : String) (qs : Qs) (page : Page) : List (String × Json) :=
  let keep := (qs.filter fun e => e.1 ≠ "offset" ∧ e.1 ≠ "per_page").flatMap fun e =>
    e.2.map fun v => (e.1, v)
  let url (off : ℕ) : Json := .str (path ++ "?" ++ Text.urlencode (fun c => c = '[' || c = ']')
    (keep ++ [("offset", toString off), ("per_page", toString page.perPage)]))
  [("self", url page.offset)] ++
    (if page.offset + page.perPage < page.total then [("next", url (page.offset + page.perPage))]
      else []) ++
    (if 0 < page.offset then [("prev", url (page.offset - page.perPage))] else [])

/-- `_org_parent` -/
def World.orgParent (w : World) : Json :=
  match w.organizationId with
  | none | some "" => .null
  | some org => .obj [("type", .str "Organization"), ("id", .str org)]

def names (keys : List String) : Json :=
  .arr (keys.map .str)

/-- The `meta` of a collection. -/
def pageMeta (r : Res) (page : Page) (parent : Json) : List (String × Json) :=
  let oldest := match page.rows.map (·.2.lastSyncedAt) with
    | [] => none
    | first :: rest => some (rest.foldl (fun a b => if b < a then b else a) first)
  [("total_count", .int page.total), ("count", .int page.rows.length),
    ("can_query_by", names r.surface.canQueryBy), ("can_order_by", names r.surface.canOrderBy),
    ("can_include", names (r.info.relationships.map (·.1))),
    ("can_search_by", names (r.surface.searchFilters.map (·.1))), ("can_filter", names []),
    ("parent", parent),
    ("mirror", .obj [("source", .str "mirror"), ("oldest_last_synced_at", ofText oldest)])] ++
    (if page.offset + page.perPage < page.total then
      [("next", .obj [("offset", .int (page.offset + page.perPage : ℕ))])] else []) ++
    (if 0 < page.offset then [("prev", .obj [("offset", .int (page.offset - page.perPage : ℕ))])]
      else [])

def mirrored : List (String × String) :=
  [("X-Mirror-Source", "mirror")]

def withIncluded (g : Gathered) : List (String × Json) :=
  if g.out.isEmpty then [] else [("included", .arr g.out)]

/-- `_list` -/
def list (r : Res) (path : String) (qs : Qs) (keeps : Held → Bool) (parent : Option Json) :
    Read Reply := do
  let page ← listPage site u r qs keeps
  let g ← buildIncludes env site u fuel r page.rows qs
  let data ← readPy (page.rows.mapM fun held =>
    site.serialize r held (g.echo held.1) (sparseFields qs))
  let parent := parent.getD (← get).world.orgParent
  return ⟨200, mirrored, .document (.obj ([("data", .arr data),
    ("meta", .obj (pageMeta r page parent)), ("links", .obj (pageLinks path qs page))] ++
    withIncluded g))⟩

/-! ## Records -/

def notFound : Fault :=
  .http 404 "not found" none

/-- `_require` -/
def requireScope (scopes : List String) (needed : String) : Read Unit :=
  if scopes.contains needed then pure ()
  else throw (.http 403 ("key lacks the '" ++ needed ++ "' scope") none)

/-- `_passthrough`, of a `GET` -/
def passthrough (scopes : List String) (path : String) (qs : Qs) (body : Body) : Read Reply := do
  requireScope scopes "passthrough"
  let people := "/people/v2".toList.isPrefixOf path.toList
  let _ ← readPy (decoded body)
  let resp ← onExchange (request transport .get)
  let out ← readPy (match resp.body with
    | .empty => .ok (.obj [])
    | .invalid => .error .jsonDecodeError
    | .json j => .ok j)
  let stored := match out with
    | .obj _ => true
    | _ => false
  -- A record of another product is relayed, never stored.
  if people && resp.ok && stored then
    let includes := match qs.first? "include" with
      | none | some "" => []
      | some tokens => Text.commas tokens
    let _ ← onExchange (onMirror
      (routePage env resp.status out .passthrough (synthesizedRels includes)))
  let out ← readPy (site.rewriteDocument out)
  return ⟨resp.status, [("X-Mirror-Source", "passthrough")], .document
    (if out.truthy then out else .obj [("status", .int resp.status)])⟩

/-- The answer about a record that was deleted. -/
def gone (r : Res) (row : Row) : Reply :=
  let merged := row.mergedInto.filter (· ≠ "")
  ⟨410, (merged.map fun id => ("Location", "/people/v2/" ++ r.info.segment ++ "/" ++ id)).toList,
    .document (.obj [("errors", .arr [.obj [("code", .str "410"),
      ("detail", .str "resource deleted"),
      ("meta", .obj ([("deleted_at", ofText row.deletedAt),
        ("tombstone_reason", ofText (row.tombstoneReason.map (·.text)))] ++
        (merged.map fun id => ("merged_into", .str id)).toList))]])])⟩

/-- Whether a record that is not mirrored may be asked of PCO. -/
def fallsBack (qs : Qs) : Bool :=
  (qs.first? "passthrough").any (["1", "on", "auto"].contains ·) ||
    qs.first? "fallback" = some "1"

/-- `_single` -/
def single (scopes : List String) (r : Res) (id : String) (path : String) (qs : Qs) :
    Read Reply := do
  match (← database).row? r id with
  | none =>
    if fallsBack qs then passthrough env transport site scopes path qs .empty else throw notFound
  | some row =>
    if !row.live then return gone r row
    let g ← buildIncludes env site u fuel r [(id, row)] qs
    let data ← readPy (site.serialize r (id, row) (g.echo id) (sparseFields qs))
    let parent := (← get).world.orgParent
    return ⟨200, mirrored, .document (.obj ([("data", data),
      ("meta", .obj [("can_include", names (r.info.relationships.map (·.1))), ("parent", parent)])] ++
      withIncluded g))⟩

/-- `_nested` -/
def nested (scopes : List String) (r : Res) (id name : String) (path : String) (qs : Qs) :
    Read Reply := do
  match r.info.relationships.lookup name with
  | none => passthrough env transport site scopes path qs .empty
  | some rel =>
    match (← database).live? r id with
    | none => throw notFound
    | some held =>
      if rel.kind = .one then
        -- A to-one relationship is a record, not a collection.
        match (rel.localId r held).bind ((← database).live? rel.target) with
        | none => throw notFound
        | some target => single env transport site u fuel scopes rel.target target.1 path qs
      else
        ensureWalked env fuel r rel [held]
        present fun db => db.presents r rel [held]
        let keeps ← readPy (rel.restriction r held)
        list env site u fuel rel.target path qs keeps
          (some (.obj [("type", .str r.info.type), ("id", .str id)]))

/-- `_nested_single` -/
def nestedSingle (scopes : List String) (r : Res) (id name childId : String)
    (tail : Option String) (path : String) (qs : Qs) : Read Reply := do
  match r.info.relationships.lookup name with
  | none => passthrough env transport site scopes path qs .empty
  | some rel =>
    if rel.kind ≠ .many then passthrough env transport site scopes path qs .empty
    else match (← database).live? r id with
    | none => throw notFound
    | some held =>
      ensureWalked env fuel r rel [held]
      present fun db => db.presents r rel [held]
      let keeps ← readPy (rel.restriction r held)
      match ((← database).row? rel.target childId).filter fun row => keeps (childId, row) with
      | none => throw notFound
      | some _ => match tail with
        | some tail => nested env transport site u fuel scopes rel.target childId tail path qs
        | none => single env transport site u fuel scopes rel.target childId path qs

/-! ## The service -/

/-- `route`, of a `GET` on the API plane. -/
def routeRead (scopes : Except String (List String)) (path : String) (qs : Qs) (body : Body) :
    Read Reply :=
  match scopes with
  | .error detail => throw (.http 401 detail none)
  | .ok scopes =>
    match segments path with
    | none => passthrough env transport site scopes path qs body
    | some [] => throw (.http 404 "no resource" none)
    | some (first :: rest) =>
      match bySegment first with
      | none => passthrough env transport site scopes path qs body
      | some r =>
        if !(scopes.contains "read:*" || scopes.contains ("read:" ++ first)) then
          throw (.http 403 ("key lacks the 'read:" ++ first ++ "' scope") none)
        else match rest, r.info.parent with
          | [], some parent => throw (.http 404
              (r.info.type ++ " is only served under a " ++ parent.info.type) none)
          | [], none => list env site u fuel r path qs (fun _ => true) none
          | [_], some parent => throw (.http 404
              ("a " ++ r.info.type ++ " is addressed under its " ++ parent.info.type) none)
          | [id], none => single env transport site u fuel scopes r id path qs
          | [id, name], _ => nested env transport site u fuel scopes r id name path qs
          | [id, name, child], _ =>
            nestedSingle env transport site u fuel scopes r id name child none path qs
          | [id, name, child, tail], _ =>
            nestedSingle env transport site u fuel scopes r id name child (some tail) path qs
          | _, _ => throw (.http 404 "bad path" none)

/-- `__call__`, of a read: whatever is raised becomes an answer. -/
def serveRead (scopes : Except String (List String)) (path : String) (qs : Qs) (body : Body) :
    Read Reply :=
  tryCatch (routeRead env transport site u fuel scopes path qs body) fun
    | .http status detail info => return {
        status := status
        headers := if status = 401 then
            [("WWW-Authenticate", "Bearer realm=\"pcomirror\", Basic realm=\"pcomirror\"")] else []
        payload := .document (errorDocument status detail info) }
    | .raised e => return ⟨500, [], .document (errorDocument 500 e.text none)⟩
    | .sqlite .malformedJson => return ⟨500, [], .document (errorDocument 500 "malformed JSON" none)⟩
    | .stopped => throw .stopped

end

end PcoMirror
