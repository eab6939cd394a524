import PcoMirror.Lib.Program
import PcoMirror.Model.Registry

/-! The mirrored tables: a row's stored document with its bookkeeping columns, and
the statements that read and rewrite rows. -/

namespace PcoMirror

/-- The exceptions the modelled code can raise. -/
inductive PyError where
  | keyError (key : String)
  | attributeError
  | typeError
  | valueError
  | overflowError
  | jsonDecodeError
  | transportError
  | ingestError (message : String)
  deriving DecidableEq, Repr

/-- What `str` shows of an exception, where its arguments fix it; else its class. -/
def PyError.text : PyError → String
  | .keyError key => "'" ++ key ++ "'"
  | .attributeError => "AttributeError"
  | .typeError => "TypeError"
  | .valueError => "ValueError"
  | .overflowError => "OverflowError"
  | .jsonDecodeError => "JSONDecodeError"
  | .transportError => "transport error"
  | .ingestError message => message

inductive Source where
  | webhook | backfill | reconcile | passthrough
  deriving DecidableEq, Repr

inductive Reason where
  | destroyed | auditAbsent | absent | merged | ownerDeleted
  | other (text : String)
  deriving DecidableEq, Repr

/-- The writer-filled columns of a field datum. -/
structure TypedValue where
  text : Option String := none
  number : Option String := none
  date : Option String := none
  bool : Option Bool := none
  deriving DecidableEq

structure Row where
  raw : Json
  firstSeenAt : String
  lastSyncedAt : String
  source : Source
  apiVersion : String
  deletedAt : Option String := none
  tombstoneUat : Option String := none
  tombstoneReason : Option Reason := none
  mergedInto : Option String := none
  typedValue : TypedValue := {}
  deriving DecidableEq

/-- The generated `pco_updated_at` of a document. -/
def pcoUpdatedAt (raw : Json) : Option String :=
  raw.textAt ["attributes", "updated_at"]

def Row.uat (row : Row) : Option String :=
  pcoUpdatedAt row.raw

/-- `deleted_at IS NULL`. -/
def Row.live (row : Row) : Bool :=
  row.deletedAt.isNone

structure Db where
  tables : Res → Sql.Table Row

def Db.empty : Db :=
  ⟨fun _ => ∅⟩

namespace Db

def row? (db : Db) (t : Res) (id : String) : Option Row :=
  (db.tables t).lookup id

/-- The row is present and not tombstoned. -/
def isLive (db : Db) (t : Res) (id : String) : Bool :=
  (db.row? t id).any Row.live

/-- Writes one row, whether or not it was there. -/
def put (db : Db) (t : Res) (id : String) (row : Row) : Db :=
  ⟨fun u => if u = t then (db.tables u).insert id row else db.tables u⟩

/-- `UPDATE t SET …` over every row of a table. -/
def updateAll (db : Db) (t : Res) (f : Row → Row) : Db :=
  ⟨fun u => if u = t then (db.tables u).update fun _ => f else db.tables u⟩

/-- `UPDATE t SET … WHERE pco_id = id`. -/
def updateRow (db : Db) (t : Res) (id : String) (f : Row → Row) : Db :=
  match db.row? t id with
  | none => db
  | some row => db.put t id (f row)

/-- `SELECT pco_id FROM t WHERE …`. -/
def select (db : Db) (t : Res) (p : String → Row → Bool) : List String :=
  (db.tables t).select p

theorem row?_put (db : Db) (t u : Res) (id k : String) (row : Row) :
    (db.put t id row).row? u k = if u = t ∧ k = id then some row else db.row? u k := by
  by_cases hu : u = t
  · subst hu
    by_cases hk : k = id
    · subst hk
      simp [row?, put]
    · simp [row?, put, hk]
  · simp [row?, put, hu]

@[simp] theorem row?_put_self (db : Db) (t : Res) (id : String) (row : Row) :
    (db.put t id row).row? t id = some row := by
  simp [row?_put]

theorem row?_updateAll (db : Db) (t u : Res) (f : Row → Row) (k : String) :
    (db.updateAll t f).row? u k = if u = t then (db.row? u k).map f else db.row? u k := by
  by_cases hu : u = t
  · subst hu
    simp [row?, updateAll]
  · simp [row?, updateAll, hu]

theorem row?_updateRow (db : Db) (t u : Res) (f : Row → Row) (id k : String) :
    (db.updateRow t id f).row? u k =
      if u = t ∧ k = id then (db.row? u k).map f else db.row? u k := by
  unfold updateRow
  cases h : db.row? t id with
  | none =>
      simp only
      split_ifs with hk
      · rw [hk.1, hk.2, h]
        rfl
      · rfl
  | some row =>
      rw [row?_put]
      split_ifs with hk
      · rw [hk.1, hk.2, h]
        rfl
      · rfl

theorem mem_select {db : Db} {t : Res} {p : String → Row → Bool} {id : String} :
    id ∈ db.select t p ↔ ∃ row, db.row? t id = some row ∧ p id row = true :=
  Sql.Table.mem_select

theorem isLive_iff {db : Db} {t : Res} {id : String} :
    db.isLive t id = true ↔ ∃ row, db.row? t id = some row ∧ row.deletedAt = none := by
  cases h : db.row? t id <;> simp [isLive, h, Row.live]

/-- Rewriting several tables, each once, rewrites a row by its own table's rule. -/
theorem row?_foldl_updateAll (f : Res → String → Row → Row) (edges : List (Res × String))
    (hnodup : (edges.map (·.1)).Nodup) (db : Db) (u : Res) (k : String) :
    (edges.foldl (fun db e => db.updateAll e.1 (f e.1 e.2)) db).row? u k =
      match edges.lookup u with
      | none => db.row? u k
      | some fk => (db.row? u k).map (f u fk) := by
  induction edges generalizing db with
  | nil => rfl
  | cons e edges ih =>
      obtain ⟨c, fk⟩ := e
      simp only [List.map_cons, List.nodup_cons] at hnodup
      rw [List.foldl_cons, ih hnodup.2]
      by_cases hu : u = c
      · subst hu
        have hnone : edges.lookup u = none := by
          rw [List.lookup_eq_none_iff]
          intro p hp
          simp only [bne_iff_ne, ne_eq]
          rintro rfl
          exact hnodup.1 (List.mem_map_of_mem hp)
        simp [hnone, row?_updateAll]
      · have hne : (u == c) = false := by simpa using hu
        simp [List.lookup_cons, hne, row?_updateAll, hu]

end Db

end PcoMirror
