import Mathlib.Data.List.Nodup
import PcoMirror.Lib.Sql

/-! The table of webhook subscriptions at start-up: the statements that create it, and that
rebuild it where it predates shared receiver URLs. -/

namespace PcoMirror.Schema

/-! ## Tables and their statements -/

inductive Value where
  | null
  | integer (n : ℤ)
  | text (s : String)
  | blob (bytes : List UInt8)
  deriving DecidableEq

/-- What a column holds where a row does not say. -/
inductive Default where
  | value (v : Value)
  /-- `strftime('%Y-%m-%dT%H:%M:%SZ','now')` -/
  | now
  deriving DecidableEq

structure Column where
  name : String
  sqltype : String
  notNull : Bool := false
  unique : Bool := false
  primaryKey : Bool := false
  default : Default := .value .null
  deriving DecidableEq

/-- A row, by the names of its columns. -/
abbrev Row := String → Value

structure Table where
  columns : List Column
  rows : List Row := []

/-- An index that a statement created. -/
structure Index where
  name : String
  table : String
  columns : List String
  unique : Bool := false
  deriving DecidableEq

structure Catalog where
  tables : Sql.Table Table := ∅
  indexes : List Index := []

def Table.names (t : Table) : List String :=
  t.columns.map (·.name)

/-- What `NOT NULL`, `UNIQUE` and `PRIMARY KEY` ask of the rows; NULLs are all distinct. -/
def Table.Valid (t : Table) : Prop :=
  ∀ col ∈ t.columns, (col.notNull = true → ∀ row ∈ t.rows, row col.name ≠ .null) ∧
    ((col.unique || col.primaryKey) = true →
      ((t.rows.map (· col.name)).filter (· ≠ .null)).Nodup)

instance (t : Table) : Decidable t.Valid :=
  inferInstanceAs (Decidable (∀ _ ∈ _, _ ∧ _))

inductive Statement where
  /-- A statement about other tables, or a `PRAGMA`. -/
  | other
  /-- `CREATE TABLE IF NOT EXISTS` -/
  | createTable (name : String) (columns : List Column)
  /-- `CREATE INDEX IF NOT EXISTS` -/
  | createIndex (index : Index)
  | renameTable (name newName : String)
  /-- `INSERT INTO target(columns) SELECT columns FROM source` -/
  | insertSelect (target : String) (columns : List String) (source : String)
  | dropTable (name : String)
  | addColumn (table : String) (column : Column)
  deriving DecidableEq

def Default.read (now : String) : Default → Value
  | .value v => v
  | .now => .text now

/-- The row an `INSERT` of some columns leaves. -/
def inserted (now : String) (columns : List Column) (given : List String) (row : Row) : Row :=
  fun name =>
    if name ∈ given then row name
    else match columns.find? (·.name = name) with
      | some col => col.default.read now
      | none => .null

/-- A statement, unless it raises. -/
def exec (now : String) (c : Catalog) : Statement → Option Catalog
  | .other => some c
  | .createTable name columns =>
    if (c.tables.lookup name).isSome then some c
    else some { c with tables := c.tables.insert name { columns } }
  | .createIndex index => do
    let t ← c.tables.lookup index.table
    -- The name may be taken by an index of another table: then nothing is created either.
    if c.indexes.any (·.name = index.name) then some c
    else if index.columns.all (· ∈ t.names) then some { c with indexes := c.indexes ++ [index] }
    else none
  | .renameTable name newName => do
    let t ← c.tables.lookup name
    if (c.tables.lookup newName).isSome then none
    else some {
      tables := (c.tables.erase name).insert newName t
      indexes := c.indexes.map fun index =>
        if index.table = name then { index with table := newName } else index }
  | .insertSelect target columns source => do
    let held ← c.tables.lookup target
    let t ← c.tables.lookup source
    let filled : Table :=
      { held with rows := held.rows ++ t.rows.map (inserted now held.columns columns) }
    if columns.all (fun name => name ∈ held.names && name ∈ t.names) ∧ filled.Valid then
      some { c with tables := c.tables.insert target filled }
    else none
  | .dropTable name =>
    if (c.tables.lookup name).isSome then
      some { tables := c.tables.erase name, indexes := c.indexes.filter (·.table ≠ name) }
    else none
  | .addColumn table column => do
    let t ← c.tables.lookup table
    if column.name ∈ t.names then none
    else some { c with tables := c.tables.insert table {
      columns := t.columns ++ [column]
      rows := t.rows.map fun row name =>
        if name = column.name then column.default.read now else row name } }

/-- Statements one after the other, each on disk when it is done, until one raises. -/
def execAll (now : String) (c : Catalog) : List Statement → Catalog
  | [] => c
  | statement :: rest => match exec now c statement with
    | none => c
    | some c' => execAll now c' rest

/-! ## The definitions -/

/-- The columns of `_WEBHOOK_SUBSCRIPTION_DDL`. -/
def subscriptionColumns : List Column :=
  [{ name := "subscription_pco_id", sqltype := "TEXT", primaryKey := true },
    { name := "event_name", sqltype := "TEXT", notNull := true },
    { name := "resource", sqltype := "TEXT" },
    { name := "action", sqltype := "TEXT" },
    { name := "url_token", sqltype := "TEXT", notNull := true },
    { name := "authenticity_secret", sqltype := "TEXT", notNull := true },
    { name := "active", sqltype := "INTEGER", notNull := true, default := .value (.integer 1) },
    { name := "last_event_at", sqltype := "TEXT" },
    { name := "managed", sqltype := "TEXT", notNull := true, default := .value (.text "env") },
    { name := "created_at", sqltype := "TEXT", notNull := true, default := .now }]

def tokenIndex : Index where
  name := "webhook_subscription_token_idx"
  table := "webhook_subscription"
  columns := ["url_token", "active"]

/-- `_WEBHOOK_SUBSCRIPTION_DDL` -/
def subscriptionDdl : List Statement :=
  [.createTable "webhook_subscription" subscriptionColumns, .createIndex tokenIndex]

/-- How many statements about other tables stand at the places of `init_schema`: those of the
registry, the operational tables, the columns they gain, and the seed. -/
structure Elsewhere where
  registry : ℕ
  operational : ℕ
  reconciled : ℕ
  seeded : ℕ

/-- `schema_sql` -/
def schemaSql (e : Elsewhere) : List Statement :=
  .replicate e.registry .other ++ subscriptionDdl ++ .replicate e.operational .other

/-! ## The migration -/

/-- Whether an index, an implicit one included, holds the receivers' tokens apart. -/
def tokenUnique (c : Catalog) (t : Table) : Bool :=
  t.columns.any (fun col => col.name = "url_token" && (col.unique || col.primaryKey)) ||
    c.indexes.any fun index => index.table = "webhook_subscription" && index.unique &&
      index.columns = ["url_token"]

/-- The columns that are copied where the old table has them. -/
def carried (t : Table) : List String :=
  ["subscription_pco_id", "event_name", "resource", "action", "url_token", "authenticity_secret",
    "active", "last_event_at", "managed", "created_at"].filter (· ∈ t.names)

/-- The script of `_migrate_webhook_subscription`. -/
def rebuild (t : Table) : List Statement :=
  [.other, .renameTable "webhook_subscription" "webhook_subscription_old"] ++ subscriptionDdl ++
    [.insertSelect "webhook_subscription" (carried t) "webhook_subscription_old",
      .dropTable "webhook_subscription_old", .other]

/-- `_migrate_webhook_subscription` -/
def migrate (c : Catalog) : List Statement :=
  match c.tables.lookup "webhook_subscription" with
  | none => []
  | some t => if tokenUnique c t then rebuild t else []

/-- `_reconcile_ops_columns`, of the columns of this table. -/
def reconcileOps (c : Catalog) : List Statement :=
  match c.tables.lookup "webhook_subscription" with
  | none => []
  | some t =>
    if "managed" ∈ t.names then []
    else [.addColumn "webhook_subscription" {
      name := "managed"
      sqltype := "TEXT"
      notNull := true
      default := .value (.text "env") }]

/-- The statements of one `init_schema`, each part decided by what the parts before it leave. -/
def initStatements (e : Elsewhere) (now : String) (c : Catalog) : List Statement :=
  let created := execAll now c (schemaSql e)
  let migrated := execAll now created (migrate created)
  schemaSql e ++ migrate created ++ .replicate e.reconciled .other ++ reconcileOps migrated ++
    .replicate e.seeded .other

def initSchema (e : Elsewhere) (now : String) (c : Catalog) : Catalog :=
  execAll now c (initStatements e now c)

/-- A start that is stopped after some of its statements. -/
def stopped (e : Elsewhere) (c : Catalog) (start : String × ℕ) : Catalog :=
  execAll start.1 c ((initStatements e start.1 c).take start.2)

end PcoMirror.Schema
