import PcoMirror.Model.Ingest.Repair
import PcoMirror.Verification.Ingest.Copies
import PcoMirror.Verification.Ingest.Queueing

/-! The two copies of the household edge: what a re-read of a person leaves of theirs, and when
a pass over the edges that disagree, with the drain after it, leaves none that do. -/

namespace PcoMirror

open Program

variable {env : Env} {id : String} {asked : List String} {resp : Response} {record : Json}
  {included : List Json} {w : World}

/-! ## One person -/

/-- Two copies name the same ids under a relationship. -/
def SameLinks (name : String) (raw raw' : Json) : Prop :=
  ∀ k, k ∈ linkedIds raw name ↔ k ∈ linkedIds raw' name

variable {member : String → String → Prop} {limit minAge room : ℕ}

end PcoMirror
