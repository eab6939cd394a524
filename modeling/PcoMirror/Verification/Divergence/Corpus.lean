import PcoMirror.Lib.Frequency
import PcoMirror.Lib.Run
import PcoMirror.Model.Divergence.Corpus

/-! Which requests the corpus keeps, after any sequence of them. -/

namespace PcoMirror.Divergence

open Frequency

variable {c : Corpus} {reqs : List Request} {req : Request} {shape : String}

/-! ## Trimming -/

theorem trimSamples_of_length_le (h : (c.kept shape).length ≤ samplesPerShape) :
    c.trimSamples shape = c := by
  rw [Corpus.kept, List.length_map] at h
  have hall : ∀ s ∈ c.samples, s.shape ≠ shape ∨ s.id ∈ (((c.samples.filter fun s =>
      s.shape = shape).insertionSort Sample.Busier).take samplesPerShape).map (·.id) := by
    intro s hs
    by_cases hshape : s.shape = shape
    · refine .inr (List.mem_map_of_mem ?_)
      rw [List.take_of_length_le (by rwa [List.length_insertionSort]), List.mem_insertionSort]
      simp [hs, hshape]
    · exact .inl hshape
  rw [Corpus.trimSamples, List.filter_eq_self.mpr fun s hs => decide_eq_true (hall s hs)]

/-- A newcomer that is no busier than a full table is not held. -/
theorem trimSamples_of_newcomer {old : List Sample} {new : Sample} {lastId : ℕ}
    (hshape : new.shape = shape)
    (hfull : (old.filter fun s => s.shape = shape).length = samplesPerShape)
    (hbusier : ∀ s ∈ old, s.shape = shape → s.Busier new) (hid : ∀ s ∈ old, s.id ≠ new.id) :
    (Corpus.mk (old ++ [new]) lastId).trimSamples shape = ⟨old, lastId⟩ := by
  have hmine : (old ++ [new]).filter (fun s => s.shape = shape) =
      old.filter (fun s => s.shape = shape) ++ [new] := by
    simp [List.filter_append, hshape]
  have hheld : (((old ++ [new]).filter fun s => s.shape = shape).insertionSort Sample.Busier).take
      samplesPerShape = (old.filter fun s => s.shape = shape).insertionSort Sample.Busier := by
    rw [hmine, insertionSort_append_singleton, List.take_left' (by rw [List.length_insertionSort, hfull])]
    intro s hs
    obtain ⟨hs, hsame⟩ := List.mem_filter.mp hs
    exact hbusier s hs (of_decide_eq_true hsame)
  have hold : ∀ s ∈ old, s.shape ≠ shape ∨ s.id ∈ ((old.filter fun s =>
      s.shape = shape).insertionSort Sample.Busier).map (·.id) := by
    intro s hs
    by_cases hsame : s.shape = shape
    · refine .inr (List.mem_map_of_mem ?_)
      rw [List.mem_insertionSort]
      simp [hs, hsame]
    · exact .inl hsame
  have hnew : ¬ (new.shape ≠ shape ∨ new.id ∈ ((old.filter fun s =>
      s.shape = shape).insertionSort Sample.Busier).map (·.id)) := by
    rintro (h | h)
    · exact h hshape
    · obtain ⟨s, hs, hsame⟩ := List.mem_map.mp h
      exact hid s (List.mem_filter.mp ((List.mem_insertionSort _).mp hs)).1 hsame
  rw [Corpus.trimSamples]
  dsimp only
  rw [hheld, List.filter_append, List.filter_eq_self.mpr fun s hs => decide_eq_true (hold s hs),
    List.filter_singleton, decide_eq_false hnew, cond_false, List.append_nil]

/-! ## One request after another -/

/-- The corpus after some requests, of any shapes: of each shape, those that came first, with how
often they came. -/
structure Corpus.Tracks (c : Corpus) (reqs : List Request) : Prop where
  kept : ∀ shape, c.kept shape = firsts samplesPerShape (reqs.filter fun r => r.shape = shape)
  seen : ∀ s ∈ c.samples, s.seen = reqs.count s.request
  id_le : ∀ s ∈ c.samples, s.id ≤ c.lastId

theorem mem_kept : req ∈ c.kept req.shape ↔ ∃ s ∈ c.samples, s.request = req := by
  rw [Corpus.kept, List.mem_map]
  constructor
  · rintro ⟨s, hs, hreq⟩
    exact ⟨s, List.mem_of_mem_filter hs, hreq⟩
  · rintro ⟨s, hs, rfl⟩
    exact ⟨s, List.mem_filter.mpr ⟨hs, by simp [Sample.request]⟩, rfl⟩

theorem Corpus.Tracks.mem_of_mem (h : c.Tracks reqs) {s : Sample} (hs : s ∈ c.samples) :
    s.request ∈ reqs := by
  have hkept : s.request ∈ c.kept s.request.shape := mem_kept.mpr ⟨s, hs, rfl⟩
  rw [h.kept] at hkept
  exact List.mem_of_mem_filter (firsts_subset _ _ hkept)

theorem Corpus.Tracks.length_kept_le (h : c.Tracks reqs) (shape : String) :
    (c.kept shape).length ≤ samplesPerShape := by
  rw [h.kept]
  exact length_firsts_le _ _

theorem firsts_filter_append (reqs : List Request) (req : Request) (shape : String) :
    firsts samplesPerShape ((reqs ++ [req]).filter fun r => r.shape = shape) =
      if req.shape = shape then
        Frequency.note samplesPerShape (firsts samplesPerShape (reqs.filter fun r => r.shape = shape)) req
      else firsts samplesPerShape (reqs.filter fun r => r.shape = shape) := by
  rw [List.filter_append]
  split_ifs with h
  · rw [← firsts_append_singleton]
    simp [h]
  · simp [h]

/-- A sample that is counted once more where it is of a request. -/
def Sample.bump (req : Request) (s : Sample) : Sample :=
  if s.request = req then { s with seen := s.seen + 1 } else s

/-- The sample a request is enrolled as. -/
def Request.first (req : Request) (id : ℕ) : Sample where
  id := id
  shape := req.shape
  path := req.path
  query := req.query
  seen := 1

@[simp] theorem Request.first_request (req : Request) (id : ℕ) : (req.first id).request = req := rfl

@[simp] theorem Sample.bump_request (req : Request) (s : Sample) :
    (s.bump req).request = s.request := by
  rw [Sample.bump]
  split_ifs <;> rfl

@[simp] theorem Sample.bump_id (req : Request) (s : Sample) : (s.bump req).id = s.id := by
  rw [Sample.bump]
  split_ifs <;> rfl

theorem Sample.bump_seen (req : Request) (s : Sample) (h : s.seen = reqs.count s.request) :
    (s.bump req).seen = (reqs ++ [req]).count s.request := by
  rw [List.count_append, ← h, Sample.bump]
  split_ifs with hsame
  · simp [hsame]
  · simp [Ne.symm hsame]

theorem enrol_of_held (h : ∃ s ∈ c.samples, s.request = req) :
    c.enrol req = { c with samples := c.samples.map (Sample.bump req) } :=
  if_pos (by simpa using h)

theorem enrol_of_new (h : ∀ s ∈ c.samples, s.request ≠ req) :
    c.enrol req = ⟨c.samples ++ [req.first (c.lastId + 1)], c.lastId + 1⟩ :=
  if_neg (by simpa using h)

/-- A request that is in the corpus is counted. -/
theorem Corpus.Tracks.counted (h : c.Tracks reqs) (hheld : ∃ s ∈ c.samples, s.request = req) :
    (c.observe true req).Tracks (reqs ++ [req]) := by
  have hkept : ∀ shape, (Corpus.mk (c.samples.map (Sample.bump req)) c.lastId).kept shape =
      c.kept shape := by
    intro shape
    have hshape : ∀ s : Sample, (s.bump req).shape = s.shape := fun s =>
      congrArg Request.shape (s.bump_request req)
    simp [Corpus.kept, List.filter_map, Function.comp_def, hshape]
  rw [Corpus.observe, if_pos rfl, enrol_of_held hheld, trimSamples_of_length_le]
  swap
  · rw [hkept]
    exact h.length_kept_le _
  refine ⟨fun shape => ?_, fun s hs => ?_, fun s hs => ?_⟩
  · rw [hkept, firsts_filter_append, ← h.kept]
    split_ifs with hshape
    · rw [Frequency.note, if_pos]
      rw [← hshape]
      exact .inl (mem_kept.mpr hheld)
    · rfl
  · obtain ⟨old, hold, rfl⟩ := List.mem_map.mp hs
    rw [Sample.bump_request]
    exact old.bump_seen req (h.seen old hold)
  · obtain ⟨old, hold, rfl⟩ := List.mem_map.mp hs
    rw [Sample.bump_id]
    exact h.id_le old hold

/-- What a newcomer leaves as it was is still counted right. -/
theorem Corpus.Tracks.seen_others (h : c.Tracks reqs) (hnew : ∀ s ∈ c.samples, s.request ≠ req) :
    ∀ s ∈ c.samples, s.seen = (reqs ++ [req]).count s.request := by
  intro s hs
  rw [h.seen s hs, List.count_append]
  simp [Ne.symm (hnew s hs)]

/-- While there is room, a newcomer joins the corpus. -/
theorem Corpus.Tracks.joined (h : c.Tracks reqs) (hnew : ∀ s ∈ c.samples, s.request ≠ req)
    (hroom : (c.kept req.shape).length < samplesPerShape) :
    (c.observe true req).Tracks (reqs ++ [req]) := by
  have hkept : ∀ shape,
      (Corpus.mk (c.samples ++ [req.first (c.lastId + 1)]) (c.lastId + 1)).kept shape =
        c.kept shape ++ if req.shape = shape then [req] else [] := by
    intro shape
    have hshape : (req.first (c.lastId + 1)).shape = req.shape := rfl
    rw [Corpus.kept, List.filter_append, List.map_append, Corpus.kept]
    split_ifs with hsame <;> simp [hshape, hsame]
  have hunkept : req ∉ c.kept req.shape := fun hmem => by
    obtain ⟨s, hs, hreq⟩ := mem_kept.mp hmem
    exact hnew s hs hreq
  rw [Corpus.observe, if_pos rfl, enrol_of_new hnew, trimSamples_of_length_le]
  swap
  · rw [hkept, if_pos rfl, List.length_append, List.length_singleton]
    exact hroom
  refine ⟨fun shape => ?_, fun s hs => ?_, fun s hs => ?_⟩
  · rw [hkept, firsts_filter_append, ← h.kept]
    split_ifs with hshape
    · subst hshape
      rw [Frequency.note, if_neg]
      rintro (hmem | hle)
      · exact hunkept hmem
      · exact absurd hroom hle.not_gt
    · rw [List.append_nil]
  · rcases List.mem_append.mp hs with hs | hs
    · exact h.seen_others hnew s hs
    · have hfirst : req ∉ reqs := by
        intro hreq
        rw [h.kept] at hroom hunkept
        exact hunkept (mem_firsts_of_length_lt hroom (by simp [hreq]))
      rw [List.mem_singleton.mp hs, Request.first_request, List.count_append,
        List.count_eq_zero.mpr hfirst, List.count_singleton_self]
      rfl
  · rcases List.mem_append.mp hs with hs | hs
    · exact (h.id_le s hs).trans (Nat.le_succ _)
    · rw [List.mem_singleton.mp hs]
      exact le_rfl

/-- A newcomer comes last in a full table, and is gone at once. -/
theorem Corpus.Tracks.turnedAway (h : c.Tracks reqs) (hnew : ∀ s ∈ c.samples, s.request ≠ req)
    (hfull : (c.kept req.shape).length = samplesPerShape) :
    (c.observe true req).Tracks (reqs ++ [req]) := by
  have hbusier : ∀ s ∈ c.samples, s.Busier (req.first (c.lastId + 1)) := by
    intro s hs
    have hseen : 1 ≤ s.seen := by
      rw [h.seen s hs]
      exact List.count_pos_iff.mpr (h.mem_of_mem hs)
    rcases hseen.lt_or_eq with hmore | hone
    · exact .inl hmore
    · exact .inr ⟨hone.symm, (h.id_le s hs).trans (Nat.le_succ _)⟩
  have hid : ∀ s ∈ c.samples, s.id ≠ (req.first (c.lastId + 1)).id := fun s hs =>
    ((h.id_le s hs).trans_lt (Nat.lt_succ_self _)).ne
  rw [Corpus.kept, List.length_map] at hfull
  have htrim : (Corpus.mk (c.samples ++ [req.first (c.lastId + 1)]) (c.lastId + 1)).trimSamples
      req.shape = ⟨c.samples, c.lastId + 1⟩ :=
    trimSamples_of_newcomer rfl hfull (fun s hs _ => hbusier s hs) hid
  rw [Corpus.observe, if_pos rfl, enrol_of_new hnew, htrim]
  refine ⟨fun shape => ?_, h.seen_others hnew, fun s hs => (h.id_le s hs).trans (Nat.le_succ _)⟩
  change c.kept shape = _
  rw [firsts_filter_append, ← h.kept]
  split_ifs with hshape
  · subst hshape
    rw [Frequency.note, if_pos (.inr (by rw [Corpus.kept, List.length_map, hfull]))]
  · rfl

theorem Corpus.Tracks.observe (h : c.Tracks reqs) (req : Request) :
    (c.observe true req).Tracks (reqs ++ [req]) := by
  by_cases hheld : ∃ s ∈ c.samples, s.request = req
  · exact h.counted hheld
  · push Not at hheld
    rcases (h.length_kept_le req.shape).lt_or_eq with hroom | hfull
    · exact h.joined hheld hroom
    · exact h.turnedAway hheld hfull

/-! ## Any sequence of requests -/

/-- The corpus that some requests have filled. -/
def Corpus.after (reqs : List Request) : Corpus :=
  Run.exec (Corpus.observe true) {} reqs

theorem tracks_after (reqs : List Request) : (Corpus.after reqs).Tracks reqs := by
  induction reqs using List.reverseRecOn with
  | nil => exact ⟨fun _ => rfl, nofun, nofun⟩
  | append_singleton reqs req ih =>
      rw [Corpus.after, Run.exec_append]
      exact ih.observe req

/-- The busiest requests of a shape are kept exactly as long as none has overtaken one of the
twenty-five that came first. -/
theorem busiest_kept_iff (reqs : List Request) (shape : String) :
    (∀ n, Busiest samplesPerShape ((Corpus.after (reqs.take n)).kept shape)
      ((reqs.take n).filter fun r => r.shape = shape)) ↔
    ∀ n, ∀ late ∈ (reqs.take n).filter fun r => r.shape = shape,
      late ∉ firsts samplesPerShape ((reqs.take n).filter fun r => r.shape = shape) →
      ∀ early ∈ firsts samplesPerShape ((reqs.take n).filter fun r => r.shape = shape),
        ((reqs.take n).filter fun r => r.shape = shape).count late ≤
          ((reqs.take n).filter fun r => r.shape = shape).count early := by
  refine forall_congr' fun n => ?_
  rw [(tracks_after (reqs.take n)).kept, busiest_firsts_iff]

/-- One record's request. -/
def personRequest (n : ℕ) : Request where
  shape := "/people/v2/people/\x7bid\x7d"
  path := "/people/v2/people/" ++ toString n
  query := "\x7b\x7d"

/-- Twenty-five records are read once, and another one twice. -/
def twentyFiveOnce : List Request :=
  (List.range 25).map personRequest ++ [personRequest 25, personRequest 25]

/-- The request that was made twice is not kept. -/
theorem busiest_not_kept :
    ¬ ∀ n, Busiest samplesPerShape
      ((Corpus.after (twentyFiveOnce.take n)).kept (personRequest 0).shape)
      ((twentyFiveOnce.take n).filter fun r => r.shape = (personRequest 0).shape) := by
  intro h
  have htwice : personRequest 25 ∈ (twentyFiveOnce.take 27).filter fun r =>
      r.shape = (personRequest 0).shape := by decide +kernel
  have hgone : personRequest 25 ∉ (Corpus.after (twentyFiveOnce.take 27)).kept
      (personRequest 0).shape := by decide +kernel
  have honce : personRequest 0 ∈ (Corpus.after (twentyFiveOnce.take 27)).kept
      (personRequest 0).shape := by decide +kernel
  have hle := ((h 27).others _ htwice hgone).2 _ honce
  revert hle
  decide +kernel

end PcoMirror.Divergence
