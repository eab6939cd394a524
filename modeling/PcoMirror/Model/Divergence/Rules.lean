import PcoMirror.Model.World

/-! Where the mirror's answer and PCO's disagree, and whether a sweep will mend it. -/

namespace PcoMirror.Divergence

/-! ## Documents -/

/-- The type and the id of a resource. -/
abbrev Key := Option String × String

/-- `x.get(key) or {}`, as the members of an object. -/
def objectAt (j : Json) (key : String) : List (String × Json) :=
  match j.member? key with
  | some (.obj members) => members
  | _ => []

def dataItems (body : Json) : List Json :=
  match body.member? "data" with
  | some (.arr items) => items
  | some item => [item]
  | none => []

def includedItems (body : Json) : List Json :=
  match body.member? "included" with
  | some (.arr items) => items
  | _ => []

/-- The key of an object that has an id; a type is a text. -/
def keyOf (item : Json) : Option Key :=
  match item.member? "id" with
  | some id =>
    if id.truthy then
      some (match item.member? "type" with
        | some (.str type) => (some type, id.pyStr)
        | _ => (none, id.pyStr))
    else none
  | none => none

def keyed (items : List Json) : List (Key × Json) :=
  items.filterMap fun item => (keyOf item).map (·, item)

/-- `_resources`: under one key the last of `data` stands, else the first of `included`. -/
def resources (body : Json) : List (Key × Json) :=
  (keyed (dataItems body)).reverse ++ keyed (includedItems body)

/-- `_data_ids` -/
def dataIds (body : Json) : List String :=
  (keyed (dataItems body)).map (·.1.2)

/-- `_data_keys` -/
def dataKeys (body : Json) : List Key :=
  (keyed (dataItems body)).map (·.1)

def keyLe (a b : Key) : Bool :=
  match a.1, b.1 with
  | none, none => a.2 ≤ b.2
  | none, some _ => true
  | some _, none => false
  | some s, some t => s < t || (s = t && a.2 ≤ b.2)

/-- `sorted(set(keys))` -/
def sortKeys (keys : List Key) : List Key :=
  keys.dedup.mergeSort keyLe

def sortTexts (texts : List String) : List String :=
  texts.dedup.mergeSort (· ≤ ·)

/-- The keys of the first document that the second lacks. -/
def onlyIn (these those : List (Key × Json)) : List Key :=
  (sortKeys (these.map (·.1))).filter fun key => (those.lookup key).isNone

def sharedKeys (these those : List (Key × Json)) : List Key :=
  (sortKeys (these.map (·.1))).filter fun key => (those.lookup key).isSome

/-! ## Pages -/

def hasMore (body : Json) : Bool :=
  ((objectAt body "meta").lookup "next").any Json.truthy ||
    ((objectAt body "links").lookup "next").any Json.truthy

inductive Side where
  | mirror | pco
  deriving DecidableEq

/-- `windowed_sides`: whether the other side of this one still had pages. -/
def windowedSide (mirrorBody pcoBody : Json) : Side → Bool
  | .mirror => hasMore pcoBody
  | .pco => hasMore mirrorBody

/-- A record that only one document carries. -/
structure OneSided where
  key : Key
  side : Side
  resource : Json
  windowed : Bool

def oneSidedOf (side : Side) (these those : List (Key × Json)) (windowed : Bool)
    (data : List Key) : List OneSided :=
  (onlyIn these those).map fun key =>
    ⟨key, side, (these.lookup key).getD .null, windowed && data.contains key⟩

/-- `one_sided` -/
def oneSided (mirrorBody pcoBody : Json) : List OneSided :=
  let mine := resources mirrorBody
  let theirs := resources pcoBody
  oneSidedOf .pco theirs mine (windowedSide mirrorBody pcoBody .pco) (dataKeys pcoBody) ++
    oneSidedOf .mirror mine theirs (windowedSide mirrorBody pcoBody .mirror) (dataKeys mirrorBody)

/-! ## Differences -/

/-- Where two documents disagree. -/
inductive Pointer where
  | status
  | data
  | metaKey (key : String)
  | attribute (key : Key) (name : String)
  | relationship (key : Key) (name : String)
  | member (key : Key)
  | sideload (key : Key)
  deriving DecidableEq

def keyText (key : Key) : String :=
  key.1.getD "None" ++ "/" ++ key.2

def Pointer.text : Pointer → String
  | .status => "$.status"
  | .data => "$.data"
  | .metaKey key => "$.meta." ++ key
  | .attribute key name => "$.[" ++ keyText key ++ "].attributes." ++ name
  | .relationship key name => "$.[" ++ keyText key ++ "].relationships." ++ name
  | .member key => "$.data[" ++ keyText key ++ "]"
  | .sideload key => "$.included[" ++ keyText key ++ "]"

structure Difference where
  pointer : Pointer
  mirror : Json
  pco : Json
  note : String

def maxDifferences : ℕ := 40

/-- `IGNORED_META`: keys whose difference is a decision rather than drift. -/
def ignoredMeta : List String :=
  ["mirror", "can_search_by", "can_filter", "parent", "next", "prev"]

def texts (ids : List String) : Json :=
  .arr (ids.map .str)

mutual

/-- Python's equality of decoded values: a boolean is a number, and the members of an object
have no order. -/
def pyEq : Json → Json → Bool
  | .null, .null => true
  | .bool a, .bool b => a == b
  | .bool a, .int n => n == if a then 1 else 0
  | .int n, .bool a => n == if a then 1 else 0
  | .int m, .int n => m == n
  | .int n, .real text => text == toString n ++ ".0"
  | .real text, .int n => text == toString n ++ ".0"
  | .real a, .real b => a == b
  | .str a, .str b => a == b
  | .arr xs, .arr ys => pyEqItems xs ys
  | .obj xs, .obj ys => xs.length == ys.length && pyEqMembers xs ys
  | _, _ => false

def pyEqItems : List Json → List Json → Bool
  | [], [] => true
  | x :: xs, y :: ys => pyEq x y && pyEqItems xs ys
  | _, _ => false

/-- Every member is one of the other object's. -/
def pyEqMembers : List (String × Json) → List (String × Json) → Bool
  | [], _ => true
  | (key, x) :: xs, ys =>
    (match ys.lookup key with
      | some y => pyEq x y
      | none => false) && pyEqMembers xs ys

end

/-- `_relationship_ids`: the ids on one side of a relationship, sorted. -/
def relationshipIds (resource : Json) (name : String) : Option (List String) :=
  match ((Json.obj (objectAt resource "relationships")).member? name).bind (·.member? "data") with
  | none | some .null => none
  | some (.arr items) => some ((keyed items).map (·.1.2) |>.mergeSort (· ≤ ·))
  | some item => some ((keyed [item]).map (·.1.2))

def compareAttributes (key : Key) (mine theirs : Json) : List Difference :=
  let mine := objectAt mine "attributes"
  let theirs := objectAt theirs "attributes"
  (sortTexts (mine.map (·.1) ++ theirs.map (·.1))).filterMap fun name =>
    match mine.lookup name, theirs.lookup name with
    | none, theirs => some ⟨.attribute key name, .null, theirs.getD .null,
        "attribute the mirror does not carry"⟩
    | some mine, none => some ⟨.attribute key name, mine, .null, "attribute PCO does not carry"⟩
    | some mine, some theirs =>
      if pyEq mine theirs then none
      else some ⟨.attribute key name, mine, theirs, "value differs"⟩

def compareRelationships (key : Key) (mine theirs : Json) : List Difference :=
  (sortTexts ((objectAt theirs "relationships").map (·.1))).filterMap fun name =>
    match relationshipIds theirs name, relationshipIds mine name with
    | none, _ => none
    | some theirs, none => some ⟨.relationship key name, .null, texts theirs,
        "relationship the mirror does not carry"⟩
    | some theirs, some mine =>
      if mine = theirs then none
      else some ⟨.relationship key name, texts mine, texts theirs, "related ids differ"⟩

/-- `_compare_resource` -/
def compareResource (key : Key) (mine theirs : Json) : List Difference :=
  compareAttributes key mine theirs ++ compareRelationships key mine theirs

def compareStatus (mirrorStatus pcoStatus : ℕ) : List Difference :=
  if mirrorStatus ≠ pcoStatus ∧ ¬ (mirrorStatus = 410 ∧ pcoStatus = 404) then
    [⟨.status, .int mirrorStatus, .int pcoStatus, "different status"⟩]
  else []

def someOf (ids : List String) : Json :=
  if ids.isEmpty then .null else texts ids

def countOf (n : ℕ) : Json :=
  if n = 0 then .null else .int n

/-- The ids of one page against the other's. -/
def comparePage (mirrorBody pcoBody : Json) : List Difference :=
  let mine := dataIds mirrorBody
  let theirs := dataIds pcoBody
  if mine = theirs then []
  else
    let onlyMine := mine.filter fun id => !theirs.contains id
    let onlyTheirs := theirs.filter fun id => !mine.contains id
    if onlyMine.isEmpty && onlyTheirs.isEmpty then
      [⟨.data, texts mine, texts theirs, "same records, different order"⟩]
    else
      let saidMine := if windowedSide mirrorBody pcoBody .mirror then [] else onlyMine
      let saidTheirs := if windowedSide mirrorBody pcoBody .pco then [] else onlyTheirs
      let pastMine := onlyMine.length - saidMine.length
      let pastTheirs := onlyTheirs.length - saidTheirs.length
      (if saidMine.isEmpty && saidTheirs.isEmpty then []
        else [⟨.data, someOf saidMine, someOf saidTheirs, "records on one side only"⟩]) ++
      (if pastMine = 0 ∧ pastTheirs = 0 then []
        else [⟨.data, countOf pastMine, countOf pastTheirs,
          "records the other side still had pages to reach — a page boundary, not a " ++
            "statement about what the other side matched"⟩])

def compareMeta (mirrorBody pcoBody : Json) : List Difference :=
  let mine := objectAt mirrorBody "meta"
  let theirs := objectAt pcoBody "meta"
  ((sortTexts (theirs.map (·.1))).filter (!ignoredMeta.contains ·)).filterMap fun key =>
    match mine.lookup key, (theirs.lookup key).getD .null with
    | none, theirs => some ⟨.metaKey key, .null, theirs, "meta key the mirror omits"⟩
    | some mine, theirs =>
      if (key = "total_count" ∨ key = "count") ∧ !pyEq mine theirs then
        some ⟨.metaKey key, mine, theirs, "count differs"⟩
      else none

def comparePresence (mirrorBody pcoBody : Json) : List Difference :=
  (oneSided mirrorBody pcoBody).filterMap fun one =>
    if one.windowed then none
    else
      let inData := match one.side with
        | .mirror => (dataKeys mirrorBody).contains one.key
        | .pco => (dataKeys pcoBody).contains one.key
      let pointer := if inData then Pointer.member one.key else Pointer.sideload one.key
      some <| match one.side with
        | .pco => ⟨pointer, .null, .str "present",
            "resource PCO returned and the mirror did not"⟩
        | .mirror => ⟨pointer, .str "present", .null,
            "resource the mirror returned and PCO did not"⟩

def compareShared (mirrorBody pcoBody : Json) : List Difference :=
  let mine := resources mirrorBody
  let theirs := resources pcoBody
  (sharedKeys mine theirs).flatMap fun key =>
    compareResource key ((mine.lookup key).getD .null) ((theirs.lookup key).getD .null)

/-- `compare`: each place is noted while there is room. -/
def compare (mirrorBody pcoBody : Json) (mirrorStatus pcoStatus : ℕ) : List Difference :=
  (compareStatus mirrorStatus pcoStatus ++ comparePage mirrorBody pcoBody ++
    compareMeta mirrorBody pcoBody ++ compareShared mirrorBody pcoBody ++
    comparePresence mirrorBody pcoBody).take maxDifferences

/-- `note`: a difference is kept while there is room. -/
def note (room : ℕ) (found : List Difference) (d : Difference) : List Difference :=
  if found.length < room then found ++ [d] else found

/-- `_compare_resource`, which notes nothing more once its budget is spent. -/
def compareWithin (budget : ℕ) (key : Key) (mine theirs : Json) : List Difference :=
  (compareResource key mine theirs).foldl (note budget) []

/-- `compare` pass by pass, each pass within the room that is left. -/
def compareNoting (mirrorBody pcoBody : Json) (mirrorStatus pcoStatus : ℕ) : List Difference :=
  let mine := resources mirrorBody
  let theirs := resources pcoBody
  let found := (compareStatus mirrorStatus pcoStatus ++ comparePage mirrorBody pcoBody ++
    compareMeta mirrorBody pcoBody).foldl (note maxDifferences) []
  let found := (sharedKeys mine theirs).foldl (fun found key =>
    found ++ compareWithin (maxDifferences - found.length) key
      ((mine.lookup key).getD .null) ((theirs.lookup key).getD .null)) found
  let found := (comparePresence mirrorBody pcoBody).foldl (note maxDifferences) found
  found.take maxDifferences

/-! ## Verdicts -/

inductive Held where
  | absent | tombstoned | live
  deriving DecidableEq

/-- `_updated_at` -/
def updatedAt (resource : Json) : Option Json :=
  (objectAt resource "attributes").lookup "updated_at"

/-- `a < b`, of two texts or two integers. -/
def pyLt : Json → Json → Except PyError Bool
  | .str a, .str b => return decide (a < b)
  | .int a, .int b => return decide (a < b)
  | _, _ => throw .typeError

/-- PCO's copy of a shared record is newer than the one served. -/
def lags (mine theirs : Json) : Except PyError Bool :=
  match updatedAt mine, updatedAt theirs with
  | some ours, some upstream =>
    if ours.truthy && upstream.truthy then pyLt ours upstream else return false
  | _, _ => return false

end PcoMirror.Divergence
