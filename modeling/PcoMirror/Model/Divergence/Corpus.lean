import PcoMirror.Model.Divergence.Rate

/-! The corpus of the divergence checker: which of the requests that are served it keeps. -/

namespace PcoMirror.Divergence

/-- `SAMPLES_PER_SHAPE` -/
def samplesPerShape : ℕ := 25

/-- A request that was served: its shape, its path, and its parameters as JSON. -/
structure Request where
  shape : String
  path : String
  query : String
  deriving DecidableEq

def Sample.request (sample : Sample) : Request :=
  ⟨sample.shape, sample.path, sample.query⟩

/-- The table `shadow_sample`, whose ids are never used again. -/
structure Corpus where
  samples : List Sample := []
  lastId : ℕ := 0

/-- `ORDER BY seen DESC, sample_id ASC` -/
def Sample.Busier (s s' : Sample) : Prop :=
  s'.seen < s.seen ∨ s.seen = s'.seen ∧ s.id ≤ s'.id

instance : DecidableRel Sample.Busier :=
  fun _ _ => inferInstanceAs (Decidable (_ ∨ _))

/-- `INSERT … ON CONFLICT(shape, path, query) DO UPDATE SET seen = seen + 1` -/
def Corpus.enrol (c : Corpus) (req : Request) : Corpus :=
  if c.samples.any fun s => s.request = req then
    { c with samples := c.samples.map fun s =>
        if s.request = req then { s with seen := s.seen + 1 } else s }
  else
    { samples := c.samples ++ [{
        id := c.lastId + 1
        shape := req.shape
        path := req.path
        query := req.query
        seen := 1 }]
      lastId := c.lastId + 1 }

/-- `_trim_samples`: the busiest requests of a shape are held. -/
def Corpus.trimSamples (c : Corpus) (shape : String) : Corpus :=
  let held := ((c.samples.filter fun s => s.shape = shape).insertionSort Sample.Busier).take
    samplesPerShape
  { c with samples := c.samples.filter fun s => s.shape ≠ shape ∨ s.id ∈ held.map (·.id) }

def Corpus.observe (enabled : Bool) (c : Corpus) (req : Request) : Corpus :=
  if enabled then (c.enrol req).trimSamples req.shape else c

/-- The requests of a shape that are kept. -/
def Corpus.kept (c : Corpus) (shape : String) : List Request :=
  (c.samples.filter fun s => s.shape = shape).map Sample.request

end PcoMirror.Divergence
