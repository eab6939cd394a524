import PcoMirror.Model.Serving.Surface
import PcoMirror.Model.Serving.WriteThrough

/-! `where[…]` and `order`: how a query is read, and which rows it keeps. -/

namespace PcoMirror

/-- What a query string says: each key with its values. -/
abbrev Qs := List (String × List String)

/-- `qs.get(key, [default])[0]` -/
def Qs.first? (qs : Qs) (key : String) : Option String :=
  (qs.lookup key).bind (·.head?)

def badRequest (detail : String) : Fault :=
  .http 400 detail none

/-! ## Matching text -/

/-- What Python's text methods read from the tables of Unicode. -/
structure Unicode where
  /-- `str.lower` -/
  lower : List Char → List Char
  /-- `str.isdigit`, of one character -/
  isDigit : Char → Bool
  /-- The normal form NFKD, less its combining marks. -/
  unmarked : List Char → List Char
  repr : String → String

namespace Unicode

variable (u : Unicode)

/-- `norm_text` -/
def normText (s : String) : String :=
  String.ofList (u.lower ([' '].intercalate (Text.words s.toList)))

/-- `sort_key` -/
def sortKey (s : String) : String :=
  String.ofList (u.lower (u.unmarked s.toList))

/-- `norm_digits` -/
def normDigits (s : String) : List Char :=
  s.toList.filter u.isDigit

/-- `name_matches`: the needle's words prefix the leading words of the haystack. -/
def nameMatches (haystack needle : String) : Bool :=
  let words := Text.words (u.normText haystack).toList
  let probe := Text.words (u.normText needle).toList
  probe.length ≤ words.length && (probe.zip words).all fun (p, w) => p.isPrefixOf w

/-- `digits_suffix` -/
def digitsSuffix (haystack needle : String) : Bool :=
  let stored := u.normDigits haystack
  let probe := u.normDigits needle
  !stored.isEmpty && !probe.isEmpty && probe.isSuffixOf stored

/-- `digits_equal` -/
def digitsEqual (haystack needle : String) : Bool :=
  let stored := u.normDigits haystack
  let probe := u.normDigits needle
  !stored.isEmpty && !probe.isEmpty && stored = probe

/-- `_MATCHERS`, on a column; a missing value matches nothing. -/
def matching (mode : Matching) (haystack : Option String) (needle : String) : Bool :=
  haystack.any fun haystack => match mode with
    | .words => u.nameMatches haystack needle
    | .contains => Sql.instr (u.normText haystack) needle > 0
    | .digitsSuffix => u.digitsSuffix haystack needle
    | .digitsExact => u.digitsEqual haystack needle

end Unicode

/-! ## Clauses -/

inductive Comparison where
  | gt | gte | lt | lte
  deriving DecidableEq

def Comparison.ofOp : String → Option Comparison
  | "gt" => some .gt
  | "gte" => some .gte
  | "lt" => some .lt
  | "lte" => some .lte
  | _ => none

def Comparison.holds {α : Type} [LT α] [DecidableLT α] (op : Comparison) (x y : α) : Bool :=
  match op with
  | .gt => decide (y < x)
  | .gte => !decide (x < y)
  | .lt => decide (x < y)
  | .lte => !decide (y < x)

/-- What is asked of one column. -/
inductive Test where
  | like (pattern : String)
  /-- `lower(col)=lower(?)` -/
  | same (value : String)
  /-- `CAST(col AS INTEGER)=?` -/
  | equals (n : ℤ)
  | against (op : Comparison) (value : String)
  | againstInteger (op : Comparison) (n : ℤ)
  deriving DecidableEq

/-- NULL passes no test. -/
def Test.holds (value : Option String) (test : Test) : Bool :=
  value.any fun x => match test with
    | .like pattern => Sql.like x pattern
    | .same value => x.toLower = value.toLower
    | .equals n => Sql.castInteger x = n
    | .against op value => op.holds x value
    | .againstInteger op n => op.holds (Sql.castInteger x) n

/-- One condition of a `WHERE`. -/
inductive Clause where
  | column (col : String) (test : Test)
  /-- `EXISTS` over the rows one relationship leads to. -/
  | through (rel : Rel) (inner : Clause)
  | search (search : Search) (needle : String)
  | never

/-! ### Reading a filter -/

/-- `_BOOLS` -/
def boolWords : List (String × ℤ) :=
  [("true", 1), ("t", 1), ("1", 1), ("yes", 1), ("on", 1),
    ("false", 0), ("f", 0), ("0", 0), ("no", 0), ("off", 0)]

/-- `_coerce`, to a column declared `INTEGER`. -/
def coerceInteger (u : Unicode) (col value : String) : Except Fault ℤ :=
  let low := String.ofList ((Text.strip value.toList).map Char.toLower)
  match boolWords.lookup low with
  | some n => .ok n
  | none => match Text.int? low.toList with
    | some n => .ok n
    | none => .error (badRequest (col ++ " takes a boolean or integer, got " ++ u.repr value))

/-- `_leaf_where` -/
def leafWhere (u : Unicode) (r : Res) (parts : List String) (value : String) :
    Except Fault Clause :=
  let attr := parts.headD ""
  let op := (parts[1]?).getD "eq"
  let col := r.colFor attr
  if attr ∉ r.surface.canQueryBy then throw (badRequest ("unsupported filter: " ++ attr))
  else if op = "eq" then
    if value.contains '%' then return .column col (.like value)
    else if col ∈ r.surface.integers then return .column col (.equals (← coerceInteger u col value))
    else return .column col (.same value)
  else match Comparison.ofOp op with
    | some op =>
      if col ∈ r.surface.integers then
        return .column col (.againstInteger op (← coerceInteger u col value))
      else return .column col (.against op value)
    | none => throw (badRequest ("unsupported operator: " ++ op))

/-- The relationships a filter goes through, where they lead, and what is left of it. -/
def relChain (r : Res) : List String → List (String × Rel) × Res × List String
  | [] => ([], r, [])
  | name :: rest => match r.info.relationships.lookup name with
    | some rel =>
      let (chain, target, rest) := relChain rel.target rest
      ((name, rel) :: chain, target, rest)
    | none => ([], r, name :: rest)

/-- `_search_clause`; a blank needle filters nothing. -/
def searchClause (u : Unicode) (search : Search) (needle : String) : Option Clause :=
  let text := u.normText needle
  let probes := search.children.map fun arm =>
    if arm.mode.ofDigits then u.normDigits needle else text.toList
  if text ≠ "" ∧ search.names ≠ [] ∨ probes.any (!·.isEmpty) then some (.search search needle)
  else if text = "" then none
  else some .never

/-- One `where[…]` key. -/
def whereKey (u : Unicode) (r : Res) (key value : String) : Except Fault (Option Clause) := do
  let inner := Text.rstrip (· = ']') (key.toList.drop "where[".length)
  let parts := (Text.splitPair ']' '[' inner).map String.ofList
  match r.surface.searchFilters.lookup (parts.headD "") with
  | some search =>
    match parts[1]? with
    | some op => throw (badRequest (parts.headD "" ++ " is a search filter and takes no " ++
        u.repr op ++ " operator"))
    | none => return searchClause u search value
  | none =>
    let (chain, target, rest) := relChain r parts
    if !chain.isEmpty && rest.isEmpty then
      throw (badRequest (String.intercalate "." (chain.map (·.1)) ++
        " needs an attribute to filter on"))
    let leaf ← leafWhere u target rest value
    return some (chain.foldr (fun hop inner => .through hop.2 inner) leaf)

/-- `_build_where` -/
def buildWhere (u : Unicode) (r : Res) (qs : Qs) : Except Fault (List Clause) := do
  let wheres := qs.filter fun e => "where[".toList.isPrefixOf e.1.toList
  let clauses ← wheres.mapM fun e => whereKey u r e.1 (e.2.headD "")
  return clauses.filterMap id

/-! ### Rows a filter keeps -/

namespace Db

def rows (db : Db) (t : Res) : List Held :=
  (db.tables t).entries.map fun e => (e.1, e.2)

def liveRows (db : Db) (t : Res) : List Held :=
  (db.rows t).filter fun held => held.2.live

/-- The row with this key, where it is live. -/
def live? (db : Db) (t : Res) (id : String) : Option Held :=
  match db.row? t id with
  | some row => if row.live then some (id, row) else none
  | none => none

/-- The live rows whose column holds this id. -/
def pointingAt (db : Db) (t : Res) (fk : Option String) (id : String) : List Held :=
  (db.liveRows t).filter fun x => (fk.bind fun fk => t.column fk x.2.raw) == some id

end Db

/-- The row an entry of a relationship array leads to: `value ->> '$.id'` is its key. -/
def Site.entryRow (site : Site) (db : Db) (target : Res) (entry : Json) :
    Except SqlError (Option Held) := do
  let value ← site.entryValue entry
  return ((value.member? "id").bind Json.text?).bind (db.live? target)

/-- `_rel_hop`: what one relationship of a row leads to, entry by entry. -/
def Site.hop (site : Site) (db : Db) (r : Res) (rel : Rel) (held : Held) :
    List (Except SqlError (Option Held)) :=
  match rel.kind with
  | .one =>
    [.ok ((rel.localFk.bind fun fk => r.column fk held.2.raw).bind (db.live? rel.target))]
  | .json => (eachValues held.2.raw rel.jsonPath).map (site.entryRow db rel.target)
  | .many => (db.pointingAt rel.target rel.childFk held.1).map fun x => .ok (some x)

/-- `EXISTS`, over the rows as they come. -/
def existsHeld (p : Held → Except SqlError Bool) :
    List (Except SqlError (Option Held)) → Except SqlError Bool
  | [] => .ok false
  | candidate :: rest => do
    match ← candidate with
    | some held => if ← p held then return true else existsHeld p rest
    | none => existsHeld p rest

/-- A name haystack of a row. -/
def NameField.read (r : Res) (held : Held) : NameField → Option String
  | .column col => r.columnOf col held
  | .fullName => some ((r.columnOf "first_name" held).getD "" ++ " " ++
      (r.columnOf "last_name" held).getD "")

/-- One arm of a search over the rows that point back. -/
def SearchChild.holds (u : Unicode) (db : Db) (arm : SearchChild) (id needle : String) : Bool :=
  let probe := if arm.mode.ofDigits then String.ofList (u.normDigits needle) else u.normText needle
  probe ≠ "" && (db.pointingAt arm.target (some arm.childFk) id).any fun child =>
    u.matching arm.mode (arm.target.columnOf arm.col child)
      (if arm.mode.ofDigits then needle else probe)

def Search.holds (u : Unicode) (db : Db) (search : Search) (r : Res) (held : Held)
    (needle : String) : Bool :=
  let text := u.normText needle
  let mode : Matching :=
    if search.singleTokenContains && !text.contains ' ' then .contains else .words
  (text ≠ "" && search.names.any fun name => u.matching mode (name.read r held) text) ||
    search.children.any fun arm => arm.holds u db held.1 needle

def Clause.holds (site : Site) (u : Unicode) (db : Db) (r : Res) (held : Held) :
    Clause → Except SqlError Bool
  | .column col test => .ok (test.holds (r.columnOf col held))
  | .through rel inner =>
    existsHeld (fun x => Clause.holds site u db rel.target x inner) (site.hop db r rel held)
  | .search arms needle => .ok (arms.holds u db r held needle)
  | .never => .ok false

/-- Conditions in a row, up to the first that fails. -/
def allHold (site : Site) (u : Unicode) (db : Db) (r : Res) (held : Held) :
    List Clause → Except SqlError Bool
  | [] => .ok true
  | clause :: rest => do
    if ← clause.holds site u db r held then allHold site u db r held rest else return false

/-- The integers a clause binds. -/
def Clause.integers : Clause → List ℤ
  | .column _ (.equals n) | .column _ (.againstInteger _ n) => [n]
  | .through _ inner => inner.integers
  | _ => []

/-- Whether SQLite can be handed an integer. -/
def fitsInt64 (n : ℤ) : Bool :=
  -2 ^ 63 ≤ n && n < 2 ^ 63

/-! ## Order -/

structure OrderKey where
  col : String
  desc : Bool
  numeric : Bool
  deriving DecidableEq

/-- One token of `order`. -/
def orderKey (r : Res) (token : String) : Except Fault OrderKey :=
  let attr := String.ofList (token.toList.dropWhile (· = '-'))
  if attr ∈ r.surface.canOrderBy then
    .ok ⟨r.colFor attr, token.toList.head? = some '-', r.colFor attr ∈ r.surface.integers⟩
  else .error (badRequest ("unsupported order: " ++ attr))

/-- `_build_order`, less the id that settles every tie. -/
def buildOrder (r : Res) (qs : Qs) : Except Fault (List OrderKey) :=
  match qs.first? "order" with
  | none | some "" => .ok []
  | some order => (Text.commas order).mapM (orderKey r)

/-- NULL comes before every value. -/
def OrderKey.compare (u : Unicode) (r : Res) (key : OrderKey) (a b : Held) : Ordering :=
  let x := r.columnOf key.col a
  let y := r.columnOf key.col b
  let order := if key.numeric then Ord.compare (x.map Sql.castInteger) (y.map Sql.castInteger)
    else Ord.compare (x.map u.sortKey) (y.map u.sortKey)
  if key.desc then order.swap else order

def rowLe (u : Unicode) (r : Res) : List OrderKey → Held → Held → Bool
  | [], a, b => Sql.idLe a.1 b.1
  | key :: keys, a, b => match key.compare u r a b with
    | .lt => true
    | .gt => false
    | .eq => rowLe u r keys a b

def sortRows (u : Unicode) (r : Res) (keys : List OrderKey) (rows : List Held) : List Held :=
  rows.insertionSort fun a b => rowLe u r keys a b

end PcoMirror
