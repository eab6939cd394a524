import PcoMirror.Model.Db

/-! The canonical writer: the four statements every mutation goes through, the
ownership cascade, and the router that applies a JSON:API document. -/

namespace PcoMirror

open Program

/-- Statements on the mirrored tables, in order; an exception keeps what was written. -/
abbrev DbM := EStateM PyError Db

/-- What a write records beside the document. -/
structure Stamp where
  source : Source
  apiVersion : String
  now : String

/-- A timestamp usable as evidence: a non-empty string. -/
def stableTs (v : Option Json) : Option String :=
  match v with
  | some (.str s) => if s = "" then none else some s
  | _ => none

/-! ## Resources with `updated_at` -/

def relationshipKeys (raw : Json) : List Json.EachKey :=
  raw.eachKeys ["relationships"]

/-- The document an upsert leaves stored: the newer one; at one timestamp the
incoming one where it lacks no relationship the stored one has, or has more. -/
def upsertRaw (held incoming : Json) : Json :=
  if Sql.gt (pcoUpdatedAt incoming) (pcoUpdatedAt held) then incoming
  else if Sql.gt (pcoUpdatedAt held) (pcoUpdatedAt incoming) then held
  else if (relationshipKeys held).all ((relationshipKeys incoming).contains ·) then incoming
  else if (relationshipKeys incoming).length > (relationshipKeys held).length then incoming
  else held

/-- A strictly newer document clears any tombstone but a merge's. -/
def Row.revivedBy (row : Row) (incoming : Json) : Bool :=
  row.deletedAt.isSome && row.tombstoneReason != some .merged &&
    Sql.gt (pcoUpdatedAt incoming) row.tombstoneUat

def Row.fresh (raw : Json) (w : Stamp) : Row where
  raw := raw
  firstSeenAt := w.now
  lastSyncedAt := w.now
  source := w.source
  apiVersion := w.apiVersion

def Row.upsert (row : Row) (raw : Json) (w : Stamp) : Row :=
  { row with
    lastSyncedAt := w.now
    source := w.source
    raw := upsertRaw row.raw raw
    apiVersion := if Sql.ge (pcoUpdatedAt raw) row.uat then w.apiVersion else row.apiVersion
    deletedAt := if row.revivedBy raw then none else row.deletedAt
    -- `tombstone_reason<>'merged'` is unknown of a NULL reason.
    tombstoneUat :=
      if row.revivedBy raw ∧ row.tombstoneReason.isSome then none else row.tombstoneUat
    tombstoneReason := if row.revivedBy raw then none else row.tombstoneReason }

/-! ## Timestamp-less resources -/

def Row.upsertUntimed (row : Row) (raw : Json) (w : Stamp) : Row :=
  { row with
    lastSyncedAt := w.now
    source := w.source
    raw := if row.deletedAt.isNone then raw else row.raw
    apiVersion := if row.deletedAt.isNone then w.apiVersion else row.apiVersion }

def upsertUntimed (t : Res) (id : String) (raw : Json) (w : Stamp) (db : Db) : Db :=
  match db.row? t id with
  | none => db.put t id (Row.fresh raw w)
  | some row => db.put t id (row.upsertUntimed raw w)

/-! ## Tombstones -/

/-- Reasons that mean the record is gone, not folded into another. -/
def Reason.gone (reason : Reason) : Bool :=
  reason = .destroyed || reason = .auditAbsent || reason = .absent

/-- Whether a tombstone's evidence is accepted: a merge always, any evidence on a
row already tombstoned, and otherwise evidence no older than the stored document. -/
def Row.tombstoneGuard (row : Row) (uat : Option String) (reason : Reason) : Bool :=
  reason = .merged || row.deletedAt.isSome || row.uat.isNone || Sql.ge (uat.or row.uat) row.uat

/-- The tombstone time a row would be given: the evidence, else its own, else now. -/
def Row.tombstoneTime (row : Row) (uat : Option String) (now : String) : String :=
  (uat.or row.uat).getD now

def Row.tombstone (row : Row) (uat : Option String) (reason : Reason)
    (mergedInto : Option String) (now : String) : Row :=
  { row with
    deletedAt := some now
    tombstoneUat := some (row.tombstoneTime uat now)
    tombstoneReason := some reason
    mergedInto := mergedInto.or row.mergedInto
    lastSyncedAt := now
    source := .reconcile }

/-- A live child of a gone owner is tombstoned as the owner's. -/
def Row.cascade (child : Res) (owner : String) (now : String) (fk : String) (row : Row) : Row :=
  if child.column fk row.raw = some owner ∧ row.deletedAt = none then
    { row with
      deletedAt := some now
      tombstoneUat := some (row.uat.getD now)
      tombstoneReason := some .ownerDeleted
      lastSyncedAt := now
      source := .reconcile }
  else row

/-- A child the cascade tombstoned is live again with its owner. -/
def Row.uncascade (child : Res) (owner : String) (now : String) (fk : String) (row : Row) : Row :=
  if child.column fk row.raw = some owner ∧ row.tombstoneReason = some .ownerDeleted then
    { row with
      deletedAt := none
      tombstoneUat := none
      tombstoneReason := none
      lastSyncedAt := now }
  else row

def cascade (t : Res) (id : String) (now : String) (db : Db) : Db :=
  (ownedChildren t).foldl (fun db e => db.updateAll e.1 (Row.cascade e.1 id now e.2)) db

/-- Revives the children of an owner that is live. -/
def uncascade (t : Res) (id : String) (now : String) (db : Db) : Db :=
  (ownedChildren t).foldl (fun db e =>
    if db.isLive t id then db.updateAll e.1 (Row.uncascade e.1 id now e.2) else db) db

def tombstone (t : Res) (id : String) (evidence : Option Json) (reason : Reason)
    (mergedInto : Option String) (now : String) (db : Db) : Db :=
  let uat := stableTs evidence
  let db := db.updateRow t id fun row =>
    if row.tombstoneGuard uat reason then row.tombstone uat reason mergedInto now else row
  -- The cascade does not look at whether the guarded update took effect.
  if reason.gone then cascade t id now db else db

/-! ## Field data -/

/-- The rest of a digit run; an underscore may stand between two digits. -/
def skipDigits : List Char → List Char
  | [] => []
  | c :: cs =>
    if c.isDigit then skipDigits cs
    else if c = '_' then
      match cs with
      | d :: ds => if d.isDigit then skipDigits ds else c :: cs
      | [] => [c]
    else c :: cs

/-- The rest after a digit run of at least one digit. -/
def digits? (cs : List Char) : Option (List Char) :=
  match cs with
  | c :: rest => if c.isDigit then some (skipDigits rest) else none
  | [] => none

def dropSign : List Char → List Char
  | c :: cs => if c = '+' || c = '-' then cs else c :: cs
  | [] => []

/-- Whether Python's `float()` reads the text as a number. -/
def isFloatText (s : String) : Bool :=
  let trim (cs : List Char) := cs.dropWhile Char.isWhitespace
  let body := dropSign (trim (trim s.toList).reverse).reverse
  if String.ofList (body.map Char.toLower) ∈ ["inf", "infinity"] then true
  else
    let fraction (cs : List Char) : Option (List Char) :=
      match digits? cs with
      | some ('.' :: rest) => some ((digits? rest).getD rest)
      | some rest => some rest
      | none => match cs with
        | '.' :: rest => digits? rest
        | _ => none
    match fraction body with
    | some [] => true
    | some (c :: rest) => (c = 'e' || c = 'E') && digits? (dropSign rest) == some []
    | none => false

/-- The typed columns of a value under a data type. -/
def typedProjection (value : Option String) (dataType : String) : TypedValue :=
  match value with
  | none => {}
  | some v =>
    if dataType ∈ ["number", "integer", "float", "currency"] then
      { number := if isFloatText v then some v else none }
    else if dataType ∈ ["date", "datetime"] then { date := some v }
    else if dataType ∈ ["boolean", "checkbox"] then
      { bool := some (v.toLower ∈ ["true", "1", "yes", "t"]) }
    else { text := some v }

/-- Re-derives one field datum's typed columns from the definition now stored. -/
def projectFieldDatum (id : String) (db : Db) : Db :=
  db.updateRow .fieldDatum id fun row =>
    let definition := (Res.column .fieldDatum "field_definition_id" row.raw).bind
      (db.row? .fieldDefinition)
    let dataType := definition.bind fun d => Res.column .fieldDefinition "data_type" d.raw
    { row with
      typedValue := typedProjection (Res.column .fieldDatum "value" row.raw) (dataType.getD "") }

/-- Re-derives the typed columns of every field datum of a definition. -/
def reprojectFieldData (definitionId : String) (db : Db) : Db :=
  (db.select .fieldDatum fun _ row =>
      Res.column .fieldDatum "field_definition_id" row.raw = some definitionId).foldl
    (fun db id => projectFieldDatum id db) db

/-! ## Upsert and confirmation -/

/-- What follows a write that may have revived its row. -/
def settle (t : Res) (id : String) (now : String) (db : Db) : Db :=
  let db := uncascade t id now db
  if t = .fieldDatum then projectFieldDatum id db else db

def upsert (t : Res) (id : String) (raw : Json) (w : Stamp) (db : Db) : Db :=
  settle t id w.now <| match db.row? t id with
    | none => db.put t id (Row.fresh raw w)
    | some row => db.put t id (row.upsert raw w)

def Row.confirmLive (row : Row) (raw : Json) (w : Stamp) : Row :=
  { row with
    raw := raw
    apiVersion := w.apiVersion
    source := w.source
    lastSyncedAt := w.now
    deletedAt := none
    tombstoneUat := none
    tombstoneReason := none
    mergedInto := none }

/-- An authoritative live answer: stored whatever the row held before. -/
def confirmLive (t : Res) (id : String) (raw : Json) (w : Stamp) (db : Db) : Db :=
  settle t id w.now <| match db.row? t id with
    | none => db.put t id (Row.fresh raw w)
    | some row => db.put t id (row.confirmLive raw w)

/-! ## The sideload router -/

/-- `j.get(key)`, on what must be a dictionary. -/
def pyGet (j : Json) (key : String) : Except PyError (Option Json) :=
  match j with
  | .obj members => .ok (members.lookup key)
  | _ => .error .attributeError

/-- `x or {}`. -/
def orEmptyObj (j : Option Json) : Json :=
  match j with
  | some j => if j.truthy then j else .obj []
  | none => .obj []

/-- `j["id"]` as the TEXT key it is stored under. -/
def idOf (j : Json) : Except PyError String :=
  match j.member? "id" with
  | none => .error (.keyError "id")
  | some (.arr _) | some (.obj _) | some .null => .error .typeError
  | some v => .ok ((v.text?).getD "")

/-- The registered resource a document's `type` names. -/
def resourceOf (resource : Json) : Except PyError (Option Res) := do
  match ← pyGet resource "type" with
  | none => return byType ""
  | some (.str s) => return byType s
  | some (.arr _) | some (.obj _) => throw .typeError
  | some _ => return none

/-- `(resource.get("attributes") or {}).get("updated_at")` is absent or falsy. -/
def lacksUpdatedAt (resource : Json) : Except PyError Bool := do
  let attributes := orEmptyObj (← pyGet resource "attributes")
  return !((← pyGet attributes "updated_at").any Json.truthy)

/-- Makes an owned child's back-reference present, from the caller's hint. -/
def withOwner (ownerRel : String) (hint : Json) (resource : Json) : Except PyError Json := do
  match resource with
  | .obj members =>
    match (members.lookup "relationships").getD (.obj []) with
    | .obj rels =>
      let held ← match rels.lookup ownerRel with
        | none => pure none
        | some rel => pyGet rel "data"
      if held.any Json.truthy then return resource
      return .obj (Json.assign "relationships"
        (.obj (Json.assign ownerRel (.obj [("data", hint)]) rels)) members)
    | _ => throw .typeError
  | _ => throw .attributeError

/-- Drops the relationships PCO invents for a nested `include`. -/
def withoutSynthesized (r : Res) (synthesized : List String) (resource : Json) : Json :=
  match resource with
  | .obj members =>
    match members.lookup "relationships" with
    | some (.obj rels) =>
      let drop := fun name =>
        synthesized.contains name && (r.info.relationships.lookup name).isNone
      if rels.any (drop ·.1) then
        .obj (Json.assign "relationships" (.obj (rels.filter (!drop ·.1))) members)
      else resource
    | _ => resource
  | _ => resource

/-- What a routed resource writes: its table, its id and the document stored; `none`
for an unmirrored type and for a timestamped resource without its timestamp. -/
def routeTarget (resource : Json) (ownerHint : Option Json) (synthesized : List String) :
    Except PyError (Option (Res × String × Json)) := do
  match ← resourceOf resource with
  | none => return none
  | some r =>
    let thin ← if r.info.timestamped then lacksUpdatedAt resource else pure false
    if thin then return none
    let resource ← match r.info.ownerRel, ownerHint with
      | some ownerRel, some hint => withOwner ownerRel hint resource
      | _, _ => pure resource
    let stored := withoutSynthesized r synthesized resource
    return some (r, ← idOf stored, stored)

/-- Stores a routed document through the writer its resource calls for. -/
def write (r : Res) (id : String) (stored : Json) (w : Stamp) (db : Db) : Db :=
  if r.info.timestamped then upsert r id stored w db else upsertUntimed r id stored w db

def route (resource : Json) (w : Stamp) (ownerHint : Option Json) (synthesized : List String) :
    DbM Unit :=
  match routeTarget resource ownerHint synthesized with
  | .error e => throw e
  | .ok none => pure ()
  | .ok (some (r, id, stored)) => modify (write r id stored w)

/-- The relationship names PCO invents in response to a nested `include`. -/
def synthesizedRels (includes : List String) : List String :=
  (includes.filter (·.contains '.')).map fun token =>
    String.ofList ((token.toList.dropWhile (· ≠ '.')).drop 1)

/-- `body.get("included", []) or []`. -/
def pageIncluded (body : Json) : Except PyError (List Json) := do
  match ← pyGet body "included" with
  | none => return []
  | some (.arr items) => return items
  | some j => if j.truthy then throw .attributeError else return []

/-- The primary resources of a document: its list, or its one object. -/
def pageData (body : Json) : Except PyError (List Json) := do
  match ← pyGet body "data" with
  | some (.arr items) => return items.filter Json.truthy
  | some j => return [j].filter Json.truthy
  | none => return []

end PcoMirror
