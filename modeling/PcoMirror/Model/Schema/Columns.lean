import Mathlib.Data.List.Infix
import PcoMirror.Lib.Sql
import PcoMirror.Lib.Text

/-! The mirrored tables at start-up: what the registry wants projected, what the text of
`CREATE TABLE` says is there, and the columns that are added or replaced. -/

namespace PcoMirror.Schema

/-! ## What the registry declares -/

/-- What ends a line for `splitlines`. -/
def isLineBreak (c : Char) : Bool :=
  let n := c.toNat
  (0x0a ≤ n && n ≤ 0x0d) || (0x1c ≤ n && n ≤ 0x1e) || n = 0x85 || n = 0x2028 || n = 0x2029

/-- A name as the registry writes them. -/
def isName (s : String) : Bool :=
  !s.toList.isEmpty && s.toList.all fun c => c.isLower || c.isDigit || c = '_'

/-- A type of one word. -/
def isType (s : String) : Bool :=
  !s.toList.isEmpty && s.toList.all Char.isAlpha

inductive Kind where
  | json (path : String)
  | expr (sql : String)
  /-- A column the writer fills. -/
  | plain

/-- `_generated_body`: what a generated column is computed from. -/
def Kind.body : Kind → Option String
  | .json path => some ("(raw ->> '" ++ path ++ "')")
  | .expr sql => some ("(" ++ sql ++ ")")
  | .plain => none

/-- A projected column, which takes up one line. -/
structure Projection where
  name : String
  sqltype : String
  kind : Kind
  name_ok : isName name = true
  sqltype_ok : isType sqltype = true
  oneLine : ∀ body, kind.body = some body → ∀ c ∈ body.toList, isLineBreak c = false

/-- The columns every mirrored table has beside its projections. -/
def sharedColumns : List String :=
  ["pco_id", "raw", "pco_created_at", "pco_updated_at", "first_seen_at", "last_synced_at", "source",
    "api_version", "deleted_at", "tombstone_uat", "tombstone_reason", "merged_into_pco_id"]

/-- A resource of the registry, by its table. -/
structure Mirrored where
  table : String
  projections : List Projection
  table_ok : isName table = true
  distinct : (sharedColumns ++ projections.map (·.name)).Nodup

structure Registry where
  resources : List Mirrored
  distinct : (resources.map (·.table)).Nodup

/-! ## What the database holds -/

/-- A projected column of a table that exists. -/
structure Projected where
  name : String
  sqltype : String
  body : Option String
  virtual : Bool := false
  name_ok : isName name = true
  sqltype_ok : isType sqltype = true
  body_ok : ∀ b, body = some b → b.toList.head? = some '(' ∧ ∀ c ∈ b.toList, isLineBreak c = false

/-- A table of the mirror. SQLite keeps the text it was created by, and puts the columns it gains
before the closing parenthesis. -/
structure StoredTable where
  /-- A column a line, as `CREATE TABLE` had them. -/
  created : List Projected
  /-- The columns that `ALTER TABLE` added. -/
  added : List Projected := []
  rows : List (String → Option String) := []
  distinct : (sharedColumns ++ (created ++ added).map (·.name)).Nodup

structure MirrorIndex where
  name : String
  table : String
  column : String
  sql : String
  deriving DecidableEq

structure Mirror where
  tables : Sql.Table StoredTable := ∅
  indexes : List MirrorIndex := []

/-! ### The text of a table -/

/-- The columns of `_BOOKKEEPING`, by their lines. -/
def bookkeeping : List String :=
  ["  pco_created_at TEXT GENERATED ALWAYS AS (raw ->> '$.attributes.created_at') STORED,",
    "  pco_updated_at TEXT GENERATED ALWAYS AS (raw ->> '$.attributes.updated_at') STORED,",
    "  first_seen_at  TEXT NOT NULL DEFAULT (strftime('%Y-%m-%dT%H:%M:%SZ','now')),",
    "  last_synced_at TEXT NOT NULL DEFAULT (strftime('%Y-%m-%dT%H:%M:%SZ','now')),",
    "  source         TEXT NOT NULL CHECK (source IN ('webhook','backfill','reconcile','passthrough')),",
    "  api_version    TEXT NOT NULL,",
    "  deleted_at     TEXT, tombstone_uat TEXT, tombstone_reason TEXT, merged_into_pco_id TEXT"]

/-- What follows the name of a column in its definition. -/
def Projected.definition (col : Projected) : List Char :=
  col.sqltype.toList ++ match col.body with
    | none => []
    | some body => " GENERATED ALWAYS AS ".toList ++ body.toList ++
        (if col.virtual then " VIRTUAL".toList else " STORED".toList)

def Projected.text (col : Projected) : List Char :=
  col.name.toList ++ ' ' :: col.definition

/-- The lines before the projected columns. -/
def openingLines (table : String) : List (List Char) :=
  ["CREATE TABLE ".toList ++ table.toList ++ " (".toList, "  pco_id TEXT PRIMARY KEY,".toList,
    "  raw TEXT NOT NULL,".toList]

/-- The line of a column that `CREATE TABLE` had. -/
def Projected.line (col : Projected) : List Char :=
  "  ".toList ++ col.text ++ ",".toList

/-- The line of the closing parenthesis, which every column added since has been put on. -/
def StoredTable.lastLine (t : StoredTable) : List Char :=
  t.added.flatMap (fun col => ", ".toList ++ col.text) ++ ")".toList

/-- `sqlite_master.sql` of a table. -/
def StoredTable.sql (t : StoredTable) (table : String) : List Char :=
  (openingLines table ++ t.created.map Projected.line ++ bookkeeping.map String.toList).flatMap
    (· ++ ['\n']) ++ t.lastLine

/-- `PRAGMA table_xinfo`: the names of all columns. -/
def StoredTable.names (t : StoredTable) : List String :=
  sharedColumns ++ (t.created ++ t.added).map (·.name)

/-! ## The statements -/

/-- A column as `CREATE TABLE` would have it, or as `ALTER TABLE` adds it. -/
def Projection.column (p : Projection) (virtual : Bool) : Projected where
  name := p.name
  sqltype := p.sqltype
  body := p.kind.body
  virtual := virtual
  name_ok := p.name_ok
  sqltype_ok := p.sqltype_ok
  body_ok := by
    intro b hb
    refine ⟨?_, p.oneLine b hb⟩
    cases hkind : p.kind with
    | plain =>
        rw [hkind] at hb
        cases hb
    | json path =>
        rw [hkind] at hb
        cases hb
        simp
    | expr sql =>
        rw [hkind] at hb
        cases hb
        simp

/-- `CREATE TABLE` of `_table_ddl`. -/
def Mirrored.fresh (r : Mirrored) : StoredTable where
  created := r.projections.map (·.column false)
  distinct := by
    rw [List.append_nil, List.map_map]
    exact r.distinct

/-- `ALTER TABLE ADD COLUMN`, which refuses a name that is there. -/
def StoredTable.addColumn (t : StoredTable) (p : Projection) : Option StoredTable :=
  if h : p.name ∈ t.names then none
  else some { t with
    added := t.added ++ [p.column true]
    distinct := by
      have hnew : (t.names ++ [p.name]).Nodup := by
        rw [List.nodup_append_comm, List.singleton_append, List.nodup_cons]
        exact ⟨h, t.distinct⟩
      rw [StoredTable.names, List.append_assoc] at hnew
      rw [← List.append_assoc, List.map_append]
      exact hnew }

/-- `ALTER TABLE DROP COLUMN`: the definition goes, and what the rows hold of it. -/
def StoredTable.dropColumn (t : StoredTable) (name : String) : StoredTable :=
  { t with
    created := t.created.filter (·.name ≠ name)
    added := t.added.filter (·.name ≠ name)
    rows := t.rows.map fun row column => if column = name then none else row column
    distinct := by
      refine t.distinct.sublist (List.Sublist.append_left ?_ _)
      exact (List.filter_sublist.append List.filter_sublist).map _ }

/-- The foreign keys an index is made for, where they are projected. -/
def foreignKeys : List String :=
  ["person_pco_id", "household_pco_id", "field_definition_id"]

def uatIndex (table : String) : MirrorIndex where
  name := table ++ "_uat_idx"
  table := table
  column := "pco_updated_at"
  sql := "CREATE INDEX " ++ table ++ "_uat_idx ON " ++ table ++ " (pco_updated_at)"

def keyIndex (table key : String) : MirrorIndex where
  name := table ++ "_" ++ key ++ "_idx"
  table := table
  column := key
  sql := "CREATE INDEX " ++ table ++ "_" ++ key ++ "_idx ON " ++ table ++ " (" ++ key ++
    ") WHERE deleted_at IS NULL"

/-- The indexes of `_table_ddl`. -/
def Mirrored.indexes (r : Mirrored) : List MirrorIndex :=
  uatIndex r.table :: (foreignKeys.filter (· ∈ r.projections.map (·.name))).map (keyIndex r.table)

/-- `CREATE INDEX IF NOT EXISTS`, which raises where the column is missing. -/
def Mirror.createIndex (db : Mirror) (index : MirrorIndex) : Option Mirror := do
  let t ← db.tables.lookup index.table
  if db.indexes.any (·.name = index.name) then some db
  else if index.column ∈ t.names then some { db with indexes := db.indexes ++ [index] }
  else none

/-- `_table_ddl`, run. -/
def Mirror.createTable (db : Mirror) (r : Mirrored) : Option Mirror :=
  let db := if (db.tables.lookup r.table).isSome then db
    else { db with tables := db.tables.insert r.table r.fresh }
  r.indexes.foldlM Mirror.createIndex db

/-! ## The reconcile -/

/-- `" ".join(t.split())` -/
def squash (s : List Char) : List Char :=
  [' '].intercalate (Text.words s)

/-- `_same_expression` -/
def sameExpression (stored body : List Char) : Bool :=
  decide (squash body <:+: squash stored)

/-- `split(None, 1)`, where it gives two parts. -/
def splitOnce (s : List Char) : Option (List Char × List Char) :=
  let s := s.dropWhile Text.isSpace
  let word := s.takeWhile (!Text.isSpace ·)
  let rest := (s.drop word.length).dropWhile Text.isSpace
  if word = [] ∨ rest = [] then none else some (word, rest)

/-- A line of `_column_definitions`: a name, and what follows it. -/
def lineDefinition (line : List Char) : Option (List Char × List Char) :=
  splitOnce (Text.rstrip (· = ',') (Text.strip line))

/-- `_column_definitions`: of two lines that begin alike the last one stands. -/
def columnDefinitions (sql : List Char) : List (List Char × List Char) :=
  ((sql.splitOnP isLineBreak).filterMap lineDefinition).reverse

/-- `stored.get(col, "")` -/
def definitionOf (stored : List (List Char × List Char)) (name : String) : List Char :=
  (stored.lookup name.toList).getD []

/-- `_replace_generated_column`: the indexes that name the column go first, and come back last. -/
def replaceGeneratedColumn (table : String) (t : StoredTable) (indexes : List MirrorIndex)
    (p : Projection) : Option (StoredTable × List MirrorIndex) := do
  let carried := indexes.filter fun index =>
    index.table = table && decide (p.name.toList <:+: index.sql.toList)
  let kept := indexes.filter fun index => index ∉ carried
  let t ← (t.dropColumn p.name).addColumn p
  some (t, kept ++ carried)

/-- One projection of `_reconcile_columns`, by the names and definitions the table began with. -/
def reconcileColumn (table : String) (names : List String) (stored : List (List Char × List Char))
    (s : StoredTable × List MirrorIndex × List String) (p : Projection) :
    Option (StoredTable × List MirrorIndex × List String) :=
  let (t, indexes, changes) := s
  if p.name ∉ names then do
    let t ← t.addColumn p
    some (t, indexes, changes ++ ["+" ++ table ++ "." ++ p.name])
  else match p.kind.body with
    | none => some s
    | some body =>
      if sameExpression (definitionOf stored p.name) body.toList then some s
      else do
        let (t, indexes) ← replaceGeneratedColumn table t indexes p
        some (t, indexes, changes ++ ["~" ++ table ++ "." ++ p.name])

/-- `_reconcile_columns`, of one resource. -/
def reconcileTable (s : Mirror × List String) (r : Mirrored) : Option (Mirror × List String) := do
  let (db, changes) := s
  let t ← db.tables.lookup r.table
  let (t', indexes, changes) ← r.projections.foldlM
    (reconcileColumn r.table t.names (columnDefinitions (t.sql r.table))) (t, db.indexes, changes)
  let tables := db.tables.update fun table t => if table = r.table then t' else t
  some ({ tables, indexes }, changes)

/-- `init_schema`, of the mirrored tables: what it leaves and returns, unless it raises. -/
def initMirror (registry : Registry) (db : Mirror) : Option (Mirror × List String) := do
  let db ← registry.resources.foldlM Mirror.createTable db
  registry.resources.foldlM reconcileTable (db, [])

end PcoMirror.Schema
