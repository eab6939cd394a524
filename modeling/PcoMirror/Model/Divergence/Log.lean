import Mathlib.Data.Nat.Notation
import Mathlib.Data.String.Basic
import Mathlib.Order.MinMax
import Mathlib.Algebra.Order.Ring.Int

/-! The log of the divergence checker: what a report holds, and which reports are kept. -/

namespace PcoMirror.Divergence

/-- `MAX_BYTES` -/
def maxBytes : ℕ := 25 * 1024 * 1024

/-- `MAX_REPORT_BYTES` -/
def maxReportBytes : ℕ := maxBytes / 10

/-! ## One report -/

/-- What a check has found: the request, and the two documents and the differences as JSON. -/
structure Finding where
  shape : String
  path : String
  query : String
  verdict : String
  mirrorJson : String
  pcoJson : String
  differences : List String

/-- A row of `shadow_report`, less its number. -/
structure Stored where
  shape : String
  path : String
  query : String
  verdict : String
  differences : String
  mirrorBody : String
  pcoBody : String
  deriving DecidableEq

/-- `_ROW_BYTES`: what a report occupies. -/
def Stored.bytes (row : Stored) : ℕ :=
  row.mirrorBody.utf8ByteSize + row.pcoBody.utf8ByteSize + row.differences.utf8ByteSize +
    row.query.utf8ByteSize + row.path.utf8ByteSize + row.shape.utf8ByteSize

/-- `_placeholder`: what stands in for a body too big to keep. -/
def placeholder (size : ℕ) : String :=
  "\x7b\"pcomirror_elided\": true, \"bytes\": " ++ toString size ++ ", \"why\": \"over the " ++
    toString maxReportBytes ++ "-byte limit on one report\"\x7d"

/-- The difference that says that the bodies did not fit. -/
def oversizeNote (mirrorSize pcoSize : ℕ) : String :=
  "\x7b\"pointer\": \"$.report.bodies\", \"mirror\": \"" ++ toString mirrorSize ++
    " bytes\", \"pco\": \"" ++ toString pcoSize ++
    " bytes\", \"note\": \"the two bodies together exceed the " ++ toString maxReportBytes ++
    " bytes one report may hold, so neither was kept \\u2014 the differences are the finding; " ++
    "re-run the request against both sides to see the documents\"\x7d"

/-- `_fit_bodies`: the two bodies as they are stored, and a note where they did not fit. -/
def fitBodies (mirrorJson pcoJson : String) : String × String × List String :=
  let mirrorSize := mirrorJson.utf8ByteSize
  let pcoSize := pcoJson.utf8ByteSize
  if mirrorSize + pcoSize ≤ maxReportBytes then (mirrorJson, pcoJson, [])
  else (placeholder mirrorSize, placeholder pcoSize, [oversizeNote mirrorSize pcoSize])

/-- The row a check writes of what it has found. -/
def Finding.stored (finding : Finding) : Stored :=
  let (mirrorBody, pcoBody, oversize) := fitBodies finding.mirrorJson finding.pcoJson
  { shape := finding.shape
    path := finding.path
    query := finding.query
    verdict := finding.verdict
    differences := "[" ++ String.intercalate ", " (finding.differences ++ oversize) ++ "]"
    mirrorBody
    pcoBody }

/-! ## The log -/

structure Report where
  id : ℕ
  row : Stored

/-- The table `shadow_report`, in the order of its numbers, which are never used again. -/
structure Log where
  reports : List Report := []
  lastId : ℕ := 0

/-- The bound on the number of reports: `max(1, shadow_keep)`. -/
def countBound (shadowKeep : ℤ) : ℕ :=
  (max 1 shadowKeep).toNat

/-- `DELETE … WHERE report_id <= (SELECT max(report_id) …) - ?` -/
def Log.trimCount (log : Log) (keep : ℕ) : Log :=
  let newest := (log.reports.map (·.id)).foldl max 0
  { log with reports := log.reports.filter fun r => newest < r.id + keep }

/-- The first report, the newest before the others, that a number of bytes has no room for. -/
def cutoff (cap total : ℕ) : List Report → Option ℕ
  | [] => none
  | r :: older =>
    if cap < total + r.row.bytes then some r.id else cutoff cap (total + r.row.bytes) older

/-- `trim_to_size`: the oldest reports are dropped until the log fits; with how many. -/
def Log.trimToSize (log : Log) (cap : ℕ) : Log × ℕ :=
  match cutoff cap 0 log.reports.reverse with
  | none => (log, 0)
  | some cut =>
    ({ log with reports := log.reports.filter fun r => cut < r.id },
      (log.reports.filter fun r => r.id ≤ cut).length)

/-- `_trim` -/
def Log.trim (log : Log) (shadowKeep : ℤ) : Log :=
  ((log.trimCount (countBound shadowKeep)).trimToSize maxBytes).1

/-- The end of a check that found a difference: a report is written, and the log trimmed. -/
def Log.file (shadowKeep : ℤ) (log : Log) (finding : Finding) : Log :=
  Log.trim {
    reports := log.reports ++ [⟨log.lastId + 1, finding.stored⟩]
    lastId := log.lastId + 1 } shadowKeep

end PcoMirror.Divergence
