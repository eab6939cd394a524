import PcoMirror.Verification.Audit.Directory
import PcoMirror.Verification.Audit.Rows

/-! What holds in each phase of an audit round, and what a request made there leaves of it. -/

namespace PcoMirror

open Program

/-- PCO answers every page of its listing with `2xx`, and every request for a single record
with `404` or with the record and what its includes name. -/
structure Directory.Serves (d : Directory) (env : Env) (r : Res) : Prop where
  listing : ∀ tick q, q.order = some "created_at" → ∃ status body items,
    env.respond tick (.collection r q) = .ok ⟨status, .json body⟩ ∧ 200 ≤ status ∧ status < 300 ∧
      body.member? "data" = some (.arr items) ∧ List.Forall₂ Names items (d.page q)
  absent : ∀ tick id includes, d.absent id = true →
    ∃ body, env.respond tick (.record r id includes) = .ok ⟨404, body⟩
  present : ∀ tick id includes, d.absent id = false → ∃ document record included,
    env.respond tick (.record r id includes) = .ok ⟨200, .json document⟩ ∧
      document.member? "data" = some record ∧ record.truthy = true ∧
      pageIncluded document = .ok included ∧
      ∀ doc ∈ included, ∃ target, routeTarget doc none [] = .ok target ∧
        ∀ e ∈ target, e.1 ∈ sideloaded r

section

variable (d : Directory) (r : Res) (start : Db)

/-! ## Invariants -/

/-- Live when the round began, and not on PCO's list. -/
def Lost (id : String) : Prop :=
  start.isLive r id = true ∧ id ∉ d.ids

/-- On PCO's list, and without a row when the round began. -/
def Unknown (id : String) : Prop :=
  id ∈ d.ids ∧ start.row? r id = none

/-- A round that lists: its snapshots are those of the start, and it has done nothing yet. -/
structure Enumerating (round : AuditRound) (w : World) : Prop where
  phase : round.phase = .enumerate
  restored : round.restored = 0
  candidate : w.scratch r .candidate = start.select r fun _ row => row.live
  known : w.scratch r .known = start.select r fun _ _ => true
  passed : Passed d round (w.scratch r .live)
  tombstones : w.tombstones = []
  confirmations : w.confirmations = []

/-- The ids a round has restored. -/
structure Restored (ids : List String) (w : World) : Prop where
  nodup : ids.Nodup
  sound : ∀ id ∈ ids, Unknown d r start id ∧ d.absent id = false ∧
    (r, id) ∈ w.confirmations ∧ id ∉ w.scratch r .live
  complete : ∀ id, Unknown d r start id → d.absent id = false → id ∉ w.scratch r .live → id ∈ ids

/-- A round that works off its sets: what it has tombstoned is what PCO answered `404` about,
of the lost records it has asked for. -/
structure Working (count : ℕ) (w : World) : Prop where
  candidate : ∀ id ∈ w.scratch r .candidate, Lost d r start id
  live : ∀ id ∈ w.scratch r .live, Unknown d r start id
  tombstones : ∀ t id reason, (t, id, reason) ∈ w.tombstones ↔ t = r ∧ reason = .auditAbsent ∧
    Lost d r start id ∧ d.absent id = true ∧ id ∉ w.scratch r .candidate
  confirmations : ∀ t id, (t, id) ∈ w.confirmations →
    t = r ∧ (Lost d r start id ∨ Unknown d r start id) ∧ d.absent id = false
  restored : ∃ ids, ids.length = count ∧ Restored d r start ids w
  limit : count ≤ auditRestoreLimit

/-- What a unit of the round has done to the audited rows since it began: it has tombstoned
lost records and confirmed lost or unknown ones, and what it has put down is so. -/
structure RowsSince (b w : World) : Prop where
  rows : ∀ id, w.db.row? r id = b.db.row? r id ∨
    (Lost d r start id ∧ d.absent id = true ∧ w.db.isLive r id = false) ∨
    ((Lost d r start id ∨ Unknown d r start id) ∧ d.absent id = false ∧ w.db.isLive r id = true)
  buried : ∀ id, (r, id, .auditAbsent) ∈ w.tombstones → (r, id, .auditAbsent) ∉ b.tombstones →
    w.db.isLive r id = false
  revived : ∀ id, (r, id) ∈ w.confirmations → (r, id) ∉ b.confirmations →
    w.db.isLive r id = true

end

variable {d : Directory} {r : Res} {start : Db}

theorem RowsSince.refl (w : World) : RowsSince d r start w w :=
  ⟨fun _ => .inl rfl, fun _ h hnot => absurd h hnot, fun _ h hnot => absurd h hnot⟩

/-- A row that was tombstoned when the round began is as it was found. -/
theorem RowsSince.untouched {b w : World} (h : RowsSince d r start b w) {id : String} {row : Row}
    (hrow : start.row? r id = some row) (hdead : row.live = false) :
    w.db.row? r id = b.db.row? r id := by
  rcases h.rows id with hsame | ⟨hlost, -, -⟩ | ⟨hlost | hunknown, -, -⟩
  · exact hsame
  · have hlive := hlost.1
    simp [Db.isLive, hrow, hdead] at hlive
  · have hlive := hlost.1
    simp [Db.isLive, hrow, hdead] at hlive
  · rw [hunknown.2] at hrow
    cases hrow

/-- A row first written while the round goes on stays live. -/
theorem RowsSince.spared {b w : World} (h : RowsSince d r start b w) {id : String}
    (hrow : start.row? r id = none) (hlive : b.db.isLive r id = true) :
    w.db.isLive r id = true := by
  rcases h.rows id with hsame | ⟨hlost, -, -⟩ | ⟨-, -, hraised⟩
  · rwa [Db.isLive, hsame]
  · have hlive := hlost.1
    simp [Db.isLive, hrow] at hlive
  · exact hraised

/-- What an audit has noted and asked for is the same. -/
structure SameAccount (r : Res) (w w' : World) : Prop where
  tombstones : w'.tombstones = w.tombstones
  confirmations : w'.confirmations = w.confirmations
  scratch : w'.scratch r = w.scratch r

theorem Apart.sameAccount {w w' : World} (h : Apart r w w') : SameAccount r w w' :=
  ⟨h.tombstones, h.confirmations, h.scratch⟩

theorem Enumerating.carry {round : AuditRound} {w w' : World} (hw : Enumerating d r start round w)
    (h : SameAccount r w w') : Enumerating d r start round w' := by
  have hscratch := h.scratch
  exact ⟨hw.phase, hw.restored, by rw [hscratch, hw.candidate], by rw [hscratch, hw.known],
    by rw [hscratch]; exact hw.passed, by rw [h.tombstones, hw.tombstones],
    by rw [h.confirmations, hw.confirmations]⟩

theorem Working.carry {n : ℕ} {w w' : World} (hw : Working d r start n w)
    (h : SameAccount r w w') : Working d r start n w' := by
  obtain ⟨ids, hlength, hids⟩ := hw.restored
  refine ⟨by rw [h.scratch]; exact hw.candidate, by rw [h.scratch]; exact hw.live,
    by rw [h.scratch, h.tombstones]; exact hw.tombstones,
    by rw [h.confirmations]; exact hw.confirmations, ⟨ids, hlength, hids.nodup, ?_, ?_⟩, hw.limit⟩
  · rw [h.scratch, h.confirmations]
    exact hids.sound
  · rw [h.scratch]
    exact hids.complete

theorem stable_enumerating (round : AuditRound) : Stable r (Enumerating d r start round) :=
  fun _ _ h hw => hw.carry h.sameAccount

theorem stable_working (n : ℕ) : Stable r (Working d r start n) :=
  fun _ _ h hw => hw.carry h.sameAccount

theorem stable_rowsSince (b : World) : Stable r (RowsSince d r start b) := by
  intro w w' h hw
  refine ⟨fun id => ?_, fun id => ?_, fun id => ?_⟩
  · rw [h.rows, h.isLive]
    exact hw.rows id
  · rw [h.tombstones, h.isLive]
    exact hw.buried id
  · rw [h.confirmations, h.isLive]
    exact hw.revived id

theorem Stable.and {I J : World → Prop} (hI : Stable r I) (hJ : Stable r J) :
    Stable r fun w => I w ∧ J w :=
  fun w w' h hw => ⟨hI w w' h hw.1, hJ w w' h hw.2⟩

/-! ## One record -/

/-- A record has been tombstoned, and this put down. -/
structure Struck (r : Res) (id : String) (w w' : World) : Prop where
  rows : ∀ k, k ≠ id → w'.db.row? r k = w.db.row? r k
  dead : w'.db.isLive r id = false
  tombstones : w'.tombstones = (r, id, .auditAbsent) :: w.tombstones
  confirmations : w'.confirmations = w.confirmations
  scratch : w'.scratch r = w.scratch r

/-- A record has been confirmed, and this put down. -/
structure Raised (r : Res) (id : String) (w w' : World) : Prop where
  rows : ∀ k, k ≠ id → w'.db.row? r k = w.db.row? r k
  live : w'.db.isLive r id = true
  tombstones : w'.tombstones = w.tombstones
  confirmations : w'.confirmations = (r, id) :: w.confirmations
  scratch : w'.scratch r = w.scratch r

theorem spec_tombstoneOne {P : World → Prop} {E : Halt → World → Prop} (env : Env) (id : String) :
    Spec P (tombstoneOne env r id none .auditAbsent)
      (fun _ w' => ∃ w, P w ∧ Struck r id w w') E :=
  fun w hw => ⟨w, hw, fun _ hk => row?_tombstone_ne hk _ _ _ _ _,
    not_isLive_tombstone r id .auditAbsent none _ _, rfl, rfl, rfl⟩

theorem spec_confirmLiveOne {P : World → Prop} {E : Halt → World → Prop} (env : Env) (id : String)
    (raw : Json) (source : Source) :
    Spec P (confirmLiveOne env r id raw source) (fun _ w' => ∃ w, P w ∧ Raised r id w w') E :=
  fun w hw => ⟨w, hw, fun _ hk => row?_confirmLive_ne hk _ _ _, isLive_confirmLive r id raw _ _,
    rfl, rfl, rfl⟩

/-- The state once some ids have left a working set. -/
def World.dropped (w : World) (r : Res) (kind : ScratchKind) (gone : List String) : World :=
  { w with
    scratch := fun u => if u = r then fun k =>
        if k = kind then (w.scratch u k).filter (· ∉ gone) else w.scratch u k
      else w.scratch u }

theorem scratch_dropped (w : World) (kind k : ScratchKind) (gone : List String) :
    (w.dropped r kind gone).scratch r k =
      if k = kind then (w.scratch r k).filter (· ∉ gone) else w.scratch r k := by
  simp [World.dropped]

theorem mem_dropped {w : World} {kind : ScratchKind} {id k : String} :
    k ∈ (w.dropped r kind [id]).scratch r kind ↔ k ∈ w.scratch r kind ∧ k ≠ id := by
  simp [scratch_dropped]

theorem length_dropped_lt {w : World} {kind : ScratchKind} {id : String}
    (h : id ∈ w.scratch r kind) :
    ((w.dropped r kind [id]).scratch r kind).length < (w.scratch r kind).length := by
  rw [scratch_dropped, if_pos rfl, List.length_filter_lt_length_iff_exists]
  exact ⟨id, h, by simp⟩

variable {n : ℕ} {id : String} {b w w' : World}

/-- A candidate answered with `404` is tombstoned. -/
theorem Working.struck (h : Working d r start n w) (hid : id ∈ w.scratch r .candidate)
    (habsent : d.absent id = true) (hstruck : Struck r id w w') :
    Working d r start n (w'.dropped r .candidate [id]) := by
  have hlive : (w'.dropped r .candidate [id]).scratch r .live = w.scratch r .live := by
    rw [scratch_dropped, if_neg nofun, hstruck.scratch]
  have hconfirmations : (w'.dropped r .candidate [id]).confirmations = w.confirmations :=
    hstruck.confirmations
  have htombstones : (w'.dropped r .candidate [id]).tombstones =
      (r, id, .auditAbsent) :: w.tombstones := hstruck.tombstones
  have hcandidate : ∀ k, k ∈ (w'.dropped r .candidate [id]).scratch r .candidate ↔
      k ∈ w.scratch r .candidate ∧ k ≠ id := by
    intro k
    rw [mem_dropped, hstruck.scratch]
  obtain ⟨ids, hlength, hids⟩ := h.restored
  refine ⟨fun k hk => h.candidate k ((hcandidate k).mp hk).1, by rw [hlive]; exact h.live,
    fun t k reason => ?_, by rw [hconfirmations]; exact h.confirmations,
    ⟨ids, hlength, hids.nodup, by rw [hlive, hconfirmations]; exact hids.sound,
      by rw [hlive]; exact hids.complete⟩, h.limit⟩
  rw [htombstones, List.mem_cons, h.tombstones, hcandidate]
  by_cases hk : k = id
  · subst hk
    have hlost := h.candidate k hid
    simp only [Prod.mk.injEq, true_and, hid, not_true_eq_false, and_false, or_false, ne_eq,
      not_false_eq_true, and_true, hlost, habsent]
  · simp only [Prod.mk.injEq, hk, false_and, and_false, false_or, ne_eq, not_false_eq_true,
      and_true]

/-- A candidate answered with its record is confirmed. -/
theorem Working.candidate_raised (h : Working d r start n w) (hid : id ∈ w.scratch r .candidate)
    (hpresent : d.absent id = false) (hraised : Raised r id w w') :
    Working d r start n (w'.dropped r .candidate [id]) := by
  have hlive : (w'.dropped r .candidate [id]).scratch r .live = w.scratch r .live := by
    rw [scratch_dropped, if_neg nofun, hraised.scratch]
  have hconfirmations : ∀ e, e ∈ (w'.dropped r .candidate [id]).confirmations ↔
      e = (r, id) ∨ e ∈ w.confirmations := by
    intro e
    rw [← List.mem_cons, ← hraised.confirmations]
    rfl
  have htombstones : (w'.dropped r .candidate [id]).tombstones = w.tombstones :=
    hraised.tombstones
  have hcandidate : ∀ k, k ∈ (w'.dropped r .candidate [id]).scratch r .candidate ↔
      k ∈ w.scratch r .candidate ∧ k ≠ id := by
    intro k
    rw [mem_dropped, hraised.scratch]
  obtain ⟨ids, hlength, hids⟩ := h.restored
  refine ⟨fun k hk => h.candidate k ((hcandidate k).mp hk).1, by rw [hlive]; exact h.live,
    fun t k reason => ?_, fun t k hk => ?_, ⟨ids, hlength, hids.nodup, fun k hk => ?_,
      by rw [hlive]; exact hids.complete⟩, h.limit⟩
  · rw [htombstones, h.tombstones, hcandidate]
    by_cases hk : k = id
    · simp [hk, hpresent]
    · simp [hk]
  · rcases (hconfirmations _).mp hk with hnew | hold
    · cases hnew
      exact ⟨rfl, .inl (h.candidate id hid), hpresent⟩
    · exact h.confirmations t k hold
  · obtain ⟨hunknown, hthere, hconfirmed, hout⟩ := hids.sound k hk
    exact ⟨hunknown, hthere, (hconfirmations _).mpr (.inr hconfirmed), by rwa [hlive]⟩

/-- A listed record without a row that answers is restored. -/
theorem Working.live_raised (h : Working d r start n w) (hid : id ∈ w.scratch r .live)
    (hpresent : d.absent id = false) (hraised : Raised r id w w') (hlimit : n < auditRestoreLimit) :
    Working d r start (n + 1) (w'.dropped r .live [id]) := by
  have hcandidate : (w'.dropped r .live [id]).scratch r .candidate = w.scratch r .candidate := by
    rw [scratch_dropped, if_neg nofun, hraised.scratch]
  have hconfirmations : ∀ e, e ∈ (w'.dropped r .live [id]).confirmations ↔
      e = (r, id) ∨ e ∈ w.confirmations := by
    intro e
    rw [← List.mem_cons, ← hraised.confirmations]
    rfl
  have htombstones : (w'.dropped r .live [id]).tombstones = w.tombstones := hraised.tombstones
  have hlive : ∀ k, k ∈ (w'.dropped r .live [id]).scratch r .live ↔
      k ∈ w.scratch r .live ∧ k ≠ id := by
    intro k
    rw [mem_dropped, hraised.scratch]
  obtain ⟨ids, hlength, hids⟩ := h.restored
  have hnew : id ∉ ids := fun hold => (hids.sound id hold).2.2.2 hid
  refine ⟨by rw [hcandidate]; exact h.candidate, fun k hk => h.live k ((hlive k).mp hk).1,
    by rw [htombstones, hcandidate]; exact h.tombstones, fun t k hk => ?_,
    ⟨id :: ids, by rw [List.length_cons, hlength], List.nodup_cons.mpr ⟨hnew, hids.nodup⟩,
      fun k hk => ?_, fun k hunknown hthere hout => ?_⟩, hlimit⟩
  · rcases (hconfirmations _).mp hk with hnew | hold
    · cases hnew
      exact ⟨rfl, .inr (h.live id hid), hpresent⟩
    · exact h.confirmations t k hold
  · rcases List.mem_cons.mp hk with rfl | hold
    · exact ⟨h.live k hid, hpresent, (hconfirmations _).mpr (.inl rfl),
        fun hlisted => ((hlive k).mp hlisted).2 rfl⟩
    · obtain ⟨hunknown, hthere, hconfirmed, hout⟩ := hids.sound k hold
      exact ⟨hunknown, hthere, (hconfirmations _).mpr (.inr hconfirmed),
        fun hlisted => hout ((hlive k).mp hlisted).1⟩
  · by_cases hk : k = id
    · exact List.mem_cons.mpr (.inl hk)
    · exact List.mem_cons_of_mem _
        (hids.complete k hunknown hthere fun hlisted => hout ((hlive k).mpr ⟨hlisted, hk⟩))

/-- A listed record without a row that is gone by now is left out. -/
theorem Working.live_absent (h : Working d r start n w) (habsent : d.absent id = true) :
    Working d r start n (w.dropped r .live [id]) := by
  have hcandidate : (w.dropped r .live [id]).scratch r .candidate = w.scratch r .candidate := by
    rw [scratch_dropped, if_neg nofun]
  obtain ⟨ids, hlength, hids⟩ := h.restored
  refine ⟨by rw [hcandidate]; exact h.candidate, fun k hk => h.live k (mem_dropped.mp hk).1,
    by rw [hcandidate]; exact h.tombstones, h.confirmations, ⟨ids, hlength, hids.nodup,
      fun k hk => ?_, fun k hunknown hthere hout => ?_⟩, h.limit⟩
  · obtain ⟨hunknown, hthere, hconfirmed, hout⟩ := hids.sound k hk
    exact ⟨hunknown, hthere, hconfirmed, fun hlisted => hout (mem_dropped.mp hlisted).1⟩
  · refine hids.complete k hunknown hthere fun hlisted => hout (mem_dropped.mpr ⟨hlisted, ?_⟩)
    rintro rfl
    rw [habsent] at hthere
    cases hthere

theorem RowsSince.struck (h : RowsSince d r start b w) (hworking : Working d r start n w)
    (hid : id ∈ w.scratch r .candidate) (habsent : d.absent id = true)
    (hstruck : Struck r id w w') : RowsSince d r start b w' := by
  have hlive : ∀ k, k ≠ id → w'.db.isLive r k = w.db.isLive r k := by
    intro k hk
    rw [Db.isLive, Db.isLive, hstruck.rows k hk]
  refine ⟨fun k => ?_, fun k hk hnot => ?_, fun k hk hnot => ?_⟩
  · by_cases hkid : k = id
    · subst hkid
      exact .inr (.inl ⟨hworking.candidate k hid, habsent, hstruck.dead⟩)
    · rw [hstruck.rows k hkid, hlive k hkid]
      exact h.rows k
  · by_cases hkid : k = id
    · rw [hkid]
      exact hstruck.dead
    · rw [hlive k hkid]
      rw [hstruck.tombstones, List.mem_cons] at hk
      exact h.buried k (hk.resolve_left fun heq => hkid (by cases heq; rfl)) hnot
  · rw [hstruck.confirmations] at hk
    have hkid : k ≠ id := by
      rintro rfl
      have hpresent := (hworking.confirmations r k hk).2.2
      rw [habsent] at hpresent
      cases hpresent
    rw [hlive k hkid]
    exact h.revived k hk hnot

theorem RowsSince.raised (h : RowsSince d r start b w) (hworking : Working d r start n w)
    (hid : Lost d r start id ∨ Unknown d r start id) (hpresent : d.absent id = false)
    (hraised : Raised r id w w') : RowsSince d r start b w' := by
  have hlive : ∀ k, k ≠ id → w'.db.isLive r k = w.db.isLive r k := by
    intro k hk
    rw [Db.isLive, Db.isLive, hraised.rows k hk]
  refine ⟨fun k => ?_, fun k hk hnot => ?_, fun k hk hnot => ?_⟩
  · by_cases hkid : k = id
    · subst hkid
      exact .inr (.inr ⟨hid, hpresent, hraised.live⟩)
    · rw [hraised.rows k hkid, hlive k hkid]
      exact h.rows k
  · rw [hraised.tombstones] at hk
    have hkid : k ≠ id := by
      rintro rfl
      have habsent := ((hworking.tombstones r k _).mp hk).2.2.2.1
      rw [hpresent] at habsent
      cases habsent
    rw [hlive k hkid]
    exact h.buried k hk hnot
  · by_cases hkid : k = id
    · rw [hkid]
      exact hraised.live
    · rw [hlive k hkid]
      rw [hraised.confirmations, List.mem_cons] at hk
      exact h.revived k (hk.resolve_left fun heq => hkid (by cases heq; rfl)) hnot

end PcoMirror
