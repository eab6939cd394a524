import PcoMirror.Model.Client
import PcoMirror.Model.Ingest.Hydration
import PcoMirror.Model.Serving.Links

/-! Writes: PCO first, then the mirror, and the re-reads of what the write moved. -/

namespace PcoMirror

open Program

/-! ## Paths -/

/-- `_SEG` -/
def bySegment (segment : String) : Option Res :=
  Res.all.find? fun r => r.info.endpoint.toList.drop 1 = segment.toList

/-- The segments of a path under the People prefix. -/
def segments (path : String) : Option (List String) :=
  let under := "/people/v2/".toList
  if under.isPrefixOf path.toList then
    some (((path.toList.drop under.length).splitOn '/').filterMap fun s =>
      if s.isEmpty then none else some (String.ofList s))
  else none

/-- What a write path addresses. -/
structure Written where
  r : Res
  id : Option String
  /-- The record the path goes through, where it goes through one. -/
  parent : Option (Res × String)

/-- `_resolve_write` -/
def resolveWrite (r : Res) (segs : List String) : Written :=
  let top : Written := ⟨r, segs[1]?, none⟩
  match segs with
  | _ :: id :: name :: rest =>
    let child := match r.info.relationships.lookup name with
      | some rel => some rel.target
      | none => bySegment name
    match child with
    | some child => ⟨child, rest.head?, some (r, id)⟩
    | none => top
  | _ => top

/-! ## Headers -/

/-- `_UNRELAYABLE` -/
def unrelayable : List String :=
  ["content-length", "transfer-encoding", "content-encoding", "connection", "keep-alive", "te",
    "trailer", "upgrade", "proxy-authenticate", "proxy-authorization"]

def isRelayable (name : String) : Bool :=
  !(unrelayable.contains name.toLower ||
    "access-control-".toList.isPrefixOf name.toLower.toList)

/-- `Location` is pointed at the mirror, any other header relayed as it is. -/
def Site.relayHeader (site : Site) (name value : String) : Except PyError String :=
  if name.toLower = "location" then site.mirrorPath value else .ok value

/-- `_relay_headers` -/
def Site.relayHeaders (site : Site) (headers : List (String × String)) :
    Except PyError (List (String × String)) :=
  (headers.filter (isRelayable ·.1)).mapM fun e => return (e.1, ← site.relayHeader e.1 e.2)

/-! ## The answer, as the router leaves it

`route` completes the objects it is handed in place, and the same objects are served. -/

def leftByRoute (ownerHint : Option Json) (resource : Json) : Json :=
  match resourceOf resource with
  | .ok (some r) =>
    let partially : Bool := match lacksUpdatedAt resource with
      | .ok false => false
      | _ => true
    match r.info.ownerRel, ownerHint with
    | some ownerRel, some hint =>
      if r.info.timestamped && partially then resource
      else (withOwner ownerRel hint resource).toOption.getD resource
    | _, _ => resource
  | _ => resource

/-- A resource that raises leaves those after it as they were. -/
def leftByRoutes (ownerHint : Option Json) : List Json → List Json
  | [] => []
  | x :: rest =>
    if !x.truthy then x :: leftByRoutes ownerHint rest
    else leftByRoute ownerHint x :: match routeTarget x ownerHint [] with
      | .ok _ => leftByRoutes ownerHint rest
      | .error _ => rest

def leftByRoutePage (ownerHint : Option Json) (body : Json) : Json :=
  match body, pageIncluded body with
  | .obj members, .ok included =>
    if included.all fun x => (routeTarget x none []).toOption.isSome then
      match members.lookup "data" with
      | some (.arr items) => .obj (Json.assign "data" (.arr (leftByRoutes ownerHint items)) members)
      | some j =>
        if j.truthy then .obj (Json.assign "data" (leftByRoute ownerHint j) members) else body
      | none => body
    else body
  | _, _ => body

/-! ## The records a write moved -/

/-- `str(x.get("id") or "")`, of what may be a resource identifier. -/
def peerId (item : Json) : Option String :=
  match item.member? "id" with
  | some id => if id.truthy then some id.pyStr else none
  | none => none

/-- The peers one array edge of the request names. -/
def namedOn (rels : List (String × Json)) (name : String) (rel : Rel) :
    Except PyError (List (Res × String)) := do
  if rel.kind ≠ .json then return []
  match ← pyGet (orEmptyObj (rels.lookup name)) "data" with
  | some (.arr items) => return (items.filterMap peerId).map (rel.target, ·)
  | some j => return ([j].filterMap peerId).map (rel.target, ·)
  | none => return []

/-- The relationships a request body carries, where they are an object. -/
def sentRelationships (sent : Json) : List (String × Json) :=
  match (sent.member? "data").bind (·.member? "relationships") with
  | some (.obj rels) => rels
  | _ => []

/-- The peers a top-level write names, each once. -/
def namedPeers (r : Res) (sent : Json) : Except PyError (List (Res × String)) := do
  let peers ← r.info.relationships.mapM fun (name, rel) => namedOn (sentRelationships sent) name rel
  return peers.flatten.eraseDups

/-- The person an answer's record is related to. -/
def answeredPerson : Option Json → Except PyError (Option Json)
  | some (.obj data) => do
    let person ← pyGet (orEmptyObj (data.lookup "relationships")) "person"
    let linked ← pyGet (orEmptyObj person) "data"
    pyGet (orEmptyObj linked) "id"
  | _ => return none

/-- The person a request body asks for. -/
def askedPerson (sent : Json) : Except PyError (Option Json) := do
  let data ← pyGet (orEmptyObj (some sent)) "data"
  let attributes ← pyGet (orEmptyObj data) "attributes"
  pyGet (orEmptyObj attributes) "person_id"

/-- `_members_touched` -/
def membersTouched (out sent : Json) : Except PyError (List String) := do
  let answered ← answeredPerson (← pyGet (orEmptyObj (some out)) "data")
  let asked ← askedPerson sent
  return (([answered, asked].filterMap id).filter Json.truthy |>.map Json.pyStr).eraseDups

/-- What SQLite reads in one entry of an edge: a text is parsed. -/
def Site.entryValue (site : Site) : Json → Except SqlError Json
  | .str text => match site.readJson text with
    | some j => .ok j
    | none => .error .malformedJson
  | j => .ok j

/-- The text of `value ->> '$.id'`; a number compares with no text. -/
def idText (value : Json) : Option String :=
  match value.member? "id" with
  | some (.str s) => some s
  | some (.arr items) => some (Json.arr items).render
  | some (.obj members) => some (Json.obj members).render
  | _ => none

/-- `EXISTS (SELECT 1 FROM json_each(…) j WHERE j.value ->> '$.id' = ?)` -/
def Site.namesSubject (site : Site) (subjectId : String) : List Json → Except SqlError Bool
  | [] => return false
  | entry :: rest => do
    let value ← site.entryValue entry
    if idText value = some subjectId then return true
    else site.namesSubject subjectId rest

/-- The values of `json_each(raw, path)`. -/
def eachValues (raw : Json) (path : List String) : List Json :=
  match raw.at? path with
  | none => []
  | some (.arr items) => items
  | some (.obj members) => members.map (·.2)
  | some j => [j]

/-- The array on which a peer stores its side of an edge. -/
def edgePath (peer subject : Res) : Option (List String) :=
  (peer.info.relationships.find? fun e => e.2.kind = .json && e.2.target = subject).map
    (·.2.jsonPath)

/-! ## After the write -/

/-- Runs a program of the process for what it does, and only notes an exception. -/
def quietly {α : Type} (m : Proc α) : Serving Unit :=
  onMirror do
    let _ ← attempt m

/-- `_repair`, around a re-read. -/
def repair {α : Type} (m : Proc α) : Serving Unit :=
  quietly m

/-- `_record_locally`, around a call of the writer. -/
def recordLocally {α : Type} (m : Proc α) : Serving Unit :=
  quietly m

/-- Queues a record, whatever becomes of it. -/
def queueQuietly (env : Env) (r : Res) (id reason : String) (delayS : ℕ) : Serving Unit :=
  quietly (enqueueHydrationWith env r id reason [] delayS)

/-- Whether a peer's stored copy names the record on an edge. -/
def Site.peerNames (site : Site) (db : Db) (peer : Res) (peerId : String) (path : List String)
    (subjectId : String) : Except SqlError Bool :=
  match db.row? peer peerId with
  | none => .ok false
  | some row => site.namesSubject subjectId (eachValues row.raw path)

/-- `_verify_peer_edge` -/
def verifyPeerEdge (env : Env) (site : Site) (subject : Res) (subjectId : Option String)
    (peer : Res) (peerId : String) : Serving Unit := do
  let x ← get
  match subjectId, edgePath peer subject with
  | some subjectId, some path =>
    let held ← serveSql (site.peerNames x.world.db peer peerId path subjectId)
    if held then pure () else queueQuietly env peer peerId "write_verify" 60
  | _, _ => pure ()

/-- One peer re-read before the response. -/
def refreshPeer (env : Env) (site : Site) (subject : Res) (subjectId : Option String)
    (peer : Res × String) : Serving Unit := do
  repair (hydrate env peer.1 peer.2 peer.1.info.includes)
  verifyPeerEdge env site subject subjectId peer.1 peer.2

/-- `_refresh_named_peers`, of which eight are read before the response. -/
def refreshNamedPeers (env : Env) (site : Site) (r : Res) (sent : Json)
    (subjectId : Option String) : Serving Unit := do
  let named ← servePy (namedPeers r sent)
  forEach (refreshPeer env site r subjectId) (named.take 8)
  forEach (fun peer => queueQuietly env peer.1 peer.2 "write_through" 0) (named.drop 8)

/-- The record a top-level write is about. -/
def subjectOf (segs : List String) (out : Json) : Option String :=
  match (out.member? "data").bind peerId with
  | some id => some id
  | none => segs[1]?

/-- `walk_parent` of a child's own parent type. -/
def walkChildren (env : Env) (child : Res) (parentId : String) (fuel : ℕ) : Proc ℕ :=
  match child.info.parent with
  | some parent => walkParent env child parent parentId .passthrough fuel
  | none => raise (.keyError "None")

/-- Queues the record a write went through, and the people it moved. -/
def queueTouched (env : Env) (r : Res) (parentId : String) (out sent : Json) : Serving Unit := do
  let members ← servePy (membersTouched out sent)
  forEach (fun record => queueQuietly env record.1 record.2 "write_through" 0)
    ((r, parentId) :: members.map (Res.person, ·))

/-- The re-reads after a write under a record, by the relationship the path goes through. -/
def refreshUnder (env : Env) (fuel : ℕ) (r : Res) (parentId name : String) (out sent : Json) :
    Serving Unit :=
  match r.info.relationships.lookup name with
  | none => pure ()
  | some rel =>
    let child := rel.target
    if rel.kind ≠ .many then pure ()
    else if child.info.ownerRel.isSome && child.info.method ≠ .nestedWalk then
      repair (hydrate env r parentId r.info.includes)
    else do
      if child.info.method = .nestedWalk then repair (walkChildren env child parentId fuel)
        else pure ()
      queueTouched env r parentId out sent

/-- `_refresh_affected` -/
def refreshAffected (env : Env) (site : Site) (fuel : ℕ) (r : Res) (segs : List String)
    (out sent : Json) : Serving Unit :=
  match segs with
  | _ :: parentId :: name :: _ => refreshUnder env fuel r parentId name out sent
  | _ => refreshNamedPeers env site r sent (subjectOf segs out)

/-! ## Answers to the caller -/

inductive Payload where
  | body (body : Body)
  | document (document : Json)
  deriving DecidableEq

structure Reply where
  status : ℕ
  headers : List (String × String) := []
  payload : Payload
  deriving DecidableEq

/-- The document of an error. -/
def errorDocument (status : ℕ) (detail : String) (info : Option Json) : Json :=
  .obj [("errors", .arr [.obj ([("code", .str (toString status)), ("detail", .str detail)] ++
    (info.map fun info => ("meta", info)).toList)])]

/-- The marker of a write whose response was lost. -/
def lostInfo : Json :=
  .obj [("code", .str "upstream_response_lost"), ("write_indeterminate", .bool true),
    ("safe_to_retry", .bool false)]

def lostDetail (method : Verb) (e : PyError) : String :=
  "the " ++ method.name ++ " reached Planning Center but its response was lost, so it " ++
    "may or may not have been applied — check upstream before retrying: " ++ e.text

/-- `json.loads(body) if body else None` -/
def decoded : Body → Except PyError Json
  | .empty => .ok .null
  | .invalid => .error .jsonDecodeError
  | .json j => .ok j

/-- After a `DELETE` PCO accepted: the record the path names is buried. -/
def applyDelete (env : Env) (site : Site) (fuel : ℕ) (r : Res) (segs : List String)
    (sent : Json) (resp : Answer) : Serving Reply := do
  let written := resolveWrite r segs
  whenSome written.id fun id => recordLocally (tombstoneOne env written.r id none .destroyed)
  refreshAffected env site fuel r segs .null sent
  return { status := if resp.status = 0 then 204 else resp.status, payload := .body .empty }

/-- The owner is in the path, whether or not the answer repeats it. -/
def Written.ownerHint (written : Written) : Option Json :=
  match written.parent, written.r.info.ownerRel with
  | some (parent, id), some _ => some (.obj [("type", .str parent.info.type), ("id", .str id)])
  | _, _ => none

/-- After a `POST` or a `PATCH` PCO accepted: its answer is stored, and served. -/
def applyStored (env : Env) (site : Site) (fuel : ℕ) (r : Res) (segs : List String)
    (sent : Json) (resp : Answer) : Serving Reply := do
  let out ← servePy resp.document
  let _ ← servePy (pyGet out "data")
  let hint := (resolveWrite r segs).ownerHint
  recordLocally (routePage env resp.status out .passthrough [] hint)
  let out := leftByRoutePage hint out
  refreshAffected env site fuel r segs out sent
  let headers ← servePy (site.relayHeaders resp.headers)
  return ⟨resp.status, headers, .document (← servePy (site.rewriteDocument out))⟩

/-- What follows once PCO has accepted a write. -/
def applyWrite (env : Env) (site : Site) (fuel : ℕ) (method : Verb) (r : Res)
    (segs : List String) (sent : Json) (resp : Answer) : Serving Reply :=
  if method = .delete then applyDelete env site fuel r segs sent resp
  else applyStored env site fuel r segs sent resp

/-- PCO's refusal, relayed. -/
def relayRefusal (site : Site) (resp : Answer) : Serving Reply := do
  let headers ← servePy (site.relayHeaders resp.headers)
  return ⟨resp.status, headers, match resp.body with
    | .empty => .document (.obj [("errors", .arr [.obj [("code", .str (toString resp.status))]])])
    | body => .body body⟩

/-- `_write_through` -/
def writeThrough (env : Env) (transport : Transport) (site : Site) (fuel : ℕ) (method : Verb)
    (r : Res) (segs : List String) (body : Body) : Serving Reply := do
  let sent ← servePy (decoded body)
  let resp ← tryCatch (request transport method) fun
    | .raised e => throw (.http 504 (lostDetail method e) (some lostInfo))
    | fault => throw fault
  if resp.ok then applyWrite env site fuel method r segs sent resp
  else relayRefusal site resp

/-! ## The service -/

/-- What a caller may ask to be written. -/
inductive Mutation where
  | post | patch | delete
  deriving DecidableEq

def Mutation.verb : Mutation → Verb
  | .post => .post
  | .patch => .patch
  | .delete => .delete

/-- `route`, of a write on the API plane by a caller with these scopes. -/
def routeWrite (env : Env) (transport : Transport) (site : Site) (fuel : ℕ)
    (scopes : Except String (List String)) (method : Mutation) (path : String) (body : Body) :
    Serving Reply :=
  match scopes with
  | .error detail => throw (.http 401 detail none)
  | .ok scopes =>
    match segments path with
    | none => throw (.http 404 "not found" none)
    | some [] => throw (.http 404 "no resource" none)
    | some (first :: rest) =>
      match bySegment first with
      | none => throw (.http 404 ("unknown type " ++ first) none)
      | some r =>
        if scopes.contains "write" then
          writeThrough env transport site fuel method.verb r (first :: rest) body
        else throw (.http 403 "key lacks the 'write' scope" none)

/-- `__call__`, of a write: whatever is raised becomes an answer. -/
def serveWrite (env : Env) (transport : Transport) (site : Site) (fuel : ℕ)
    (scopes : Except String (List String)) (method : Mutation) (path : String) (body : Body) :
    Serving Reply :=
  tryCatch (routeWrite env transport site fuel scopes method path body) fun
    | .http status detail info => return {
        status := status
        headers := if status = 401 then
            [("WWW-Authenticate", "Bearer realm=\"pcomirror\", Basic realm=\"pcomirror\"")] else []
        payload := .document (errorDocument status detail info) }
    | .raised e => return ⟨500, [], .document (errorDocument 500 e.text none)⟩
    | .sqlite .malformedJson => return ⟨500, [], .document (errorDocument 500 "malformed JSON" none)⟩
    | .stopped => throw .stopped

end PcoMirror
