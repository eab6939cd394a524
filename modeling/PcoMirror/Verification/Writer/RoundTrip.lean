import PcoMirror.Verification.Writer.Cascade

/-! A cascade and its undo: with their owner the children come back that went with it, and
no others. -/

namespace PcoMirror

open Program

/-! ## Children -/

/-- A row that names its owner. -/
def Db.Child (db : Db) (t : Res) (pid : String) (u : Res) (k : String) : Prop :=
  ∃ fk row, ownedFk t u = some fk ∧ db.row? u k = some row ∧ u.column fk row.raw = some pid

/-- A tombstone that names the row, on evidence of its own. -/
def Op.Buries (u : Res) (k : String) (op : Op) : Prop :=
  ∃ evidence reason mergedInto now, op = .tombstone u k evidence reason mergedInto now ∧
    reason ≠ .ownerDeleted

/-- The step touches the children of an owner at most by tombstoning some on evidence of
their own. -/
def Op.Spares (start : Db) (t : Res) (pid : String) (w : World) (op : Op) : Prop :=
  ∀ u k, start.Child t pid u k → op.Buries u k ∨
    ∀ row, w.db.row? u k = some row → ∃ row', (op.apply w).db.row? u k = some row' ∧ row.Kept row'

/-- The operation brings the owner back: an authoritative answer, or an upsert. -/
def Op.Revives (t : Res) (pid : String) (w : World) (op : Op) : Prop :=
  (∃ raw stamp, op = .confirmLive t pid raw stamp ∨ op = .upsert t pid raw stamp) ∧
    (op.apply w).db.isLive t pid = true

/-! ## Between the cascade and its undo -/

/-- A child while its owner is gone: tombstoned, as the owner's where it was live and has not
been tombstoned since. -/
structure Db.Orphaned (db : Db) (u : Res) (k fk pid : String) (taken : Prop) : Prop where
  row : ∃ row, db.row? u k = some row ∧ u.column fk row.raw = some pid ∧
    row.deletedAt.isSome = true ∧ (row.tombstoneReason = some .ownerDeleted ↔ taken)

variable {t u : Res} {pid fk k : String} {w : World}

/-- The cascade takes the live children. -/
theorem orphaned_bury (evidence : Option Json) {reason : Reason} (mergedInto : Option String)
    (now : String) {row : Row} (hgone : reason.gone = true) (howns : ownedFk t u = some fk)
    (hrow : w.db.row? u k = some row) (hfk : u.column fk row.raw = some pid)
    (hclean : row.tombstoneReason ≠ some .ownerDeleted) :
    (w.bury t pid evidence reason mergedInto now).db.Orphaned u k fk pid
      (w.db.isLive u k = true) := by
  have hne : ¬ (u = t ∧ k = pid) := by
    rintro ⟨rfl, -⟩
    simp [ownedFk_self] at howns
  have hafter : (w.bury t pid evidence reason mergedInto now).db.row? u k =
      some (row.cascade u pid now fk) := by
    change (tombstone t pid evidence reason mergedInto now w.db).row? u k = _
    rw [row?_tombstone, if_neg hne, if_pos hgone, howns, hrow]
    rfl
  have hlive : w.db.isLive u k = row.live := by simp [Db.isLive, hrow]
  refine ⟨⟨_, hafter, ?_⟩⟩
  rw [hlive, Row.live]
  cases hdeleted : row.deletedAt with
  | none => simp [Row.cascade, hfk, hdeleted]
  | some since => simp [Row.cascade, hfk, hdeleted, hclean]

/-- A tombstone of its own stays with the child. -/
theorem Db.Orphaned.bury {taken : Prop} {evidence : Option Json} {reason : Reason}
    {mergedInto : Option String} {now : String} (h : w.db.Orphaned u k fk pid taken)
    (hreason : reason ≠ .ownerDeleted) :
    (w.bury u k evidence reason mergedInto now).db.Orphaned u k fk pid False := by
  obtain ⟨row, hrow, hfk, hdeleted, -⟩ := h.row
  have hafter : (w.bury u k evidence reason mergedInto now).db.row? u k =
      some (row.tombstone (stableTs evidence) reason mergedInto now) := by
    change (tombstone u k evidence reason mergedInto now w.db).row? u k = _
    have haccepted : row.tombstoneGuard (stableTs evidence) reason = true := by
      simp [Row.tombstoneGuard, hdeleted]
    rw [row?_tombstone_self, hrow, Option.map_some, Row.tombstoned, if_pos haccepted]
  refine ⟨⟨_, hafter, hfk, rfl, ?_⟩⟩
  simpa [Row.tombstone] using hreason

theorem Db.Orphaned.kept {db' : Db} {taken : Prop} (h : w.db.Orphaned u k fk pid taken)
    (hkept : ∀ row, w.db.row? u k = some row → ∃ row', db'.row? u k = some row' ∧ row.Kept row') :
    db'.Orphaned u k fk pid taken := by
  obtain ⟨row, hrow, hfk, hdeleted, hreason⟩ := h.row
  obtain ⟨row', hrow', hsame⟩ := hkept row hrow
  exact ⟨row', hrow', by rw [hsame.raw, hfk], by rw [hsame.deletedAt, hdeleted],
    by rw [hsame.reason, hreason]⟩

theorem Db.Orphaned.congr {db : Db} {taken taken' : Prop} (h : db.Orphaned u k fk pid taken)
    (hiff : taken ↔ taken') : db.Orphaned u k fk pid taken' := by
  obtain ⟨row, hrow, hfk, hdeleted, hreason⟩ := h.row
  exact ⟨row, hrow, hfk, hdeleted, hreason.trans hiff⟩

/-- Whatever happens to the children in between, the cascade's are those not tombstoned on
evidence of their own. -/
theorem orphaned_exec {start : Db} (hchild : start.Child t pid u k) {taken : Prop} {ops : List Op}
    (h : w.db.Orphaned u k fk pid taken)
    (hops : Run.Each Op.apply (Op.Spares start t pid) w ops) :
    (Run.exec Op.apply w ops).db.Orphaned u k fk pid (taken ∧ ¬ ∃ op ∈ ops, op.Buries u k) := by
  induction ops generalizing w taken with
  | nil => exact h.congr (by simp)
  | cons op ops ih =>
      by_cases hburies : op.Buries u k
      · have hburied : (op.apply w).db.Orphaned u k fk pid False := by
          obtain ⟨evidence, reason, mergedInto, now, rfl, hreason⟩ := hburies
          exact h.bury hreason
        exact (ih hburied hops.2).congr (by simp [hburies])
      · have hkept : (op.apply w).db.Orphaned u k fk pid taken :=
          h.kept ((hops.1 u k hchild).resolve_left hburies)
        exact (ih hkept hops.2).congr (by simp [hburies])

/-! ## The undo -/

/-- A write that leaves its own row live revives the children still marked as its. -/
theorem isLive_settle_put_child {now : String} {row : Row} {db : Db} {taken : Prop}
    (howns : ownedFk t u = some fk) (h : db.Orphaned u k fk pid taken) (hlive : row.live = true) :
    (settle t pid now (db.put t pid row)).isLive u k = true ↔ taken := by
  obtain ⟨held, hheld, hfk, hdeleted, hreason⟩ := h.row
  have hne : ¬ (u = t ∧ k = pid) := by
    rintro ⟨rfl, -⟩
    simp [ownedFk_self] at howns
  obtain ⟨value, hvalue⟩ := row?_settle_put t pid now row db u k
  rw [if_neg hne, if_pos hlive, howns] at hvalue
  rw [Db.isLive, hvalue, hheld, ← hreason]
  by_cases hmarked : held.tombstoneReason = some .ownerDeleted
  · simp [Row.uncascade, hfk, hmarked, Row.live]
  · simpa [Row.uncascade, hmarked, Row.live, Option.isSome_iff_ne_none] using hdeleted

/-- What a revival writes. -/
theorem Op.Revives.cases {op : Op} (h : op.Revives t pid w) :
    ∃ row now, (op.apply w).db = settle t pid now (w.db.put t pid row) ∧ row.live = true := by
  obtain ⟨⟨raw, stamp, rfl | rfl⟩, hlive⟩ := h
  · have hdb : ((Op.confirmLive t pid raw stamp).apply w).db =
        settle t pid stamp.now (w.db.put t pid (confirmed raw stamp (w.db.row? t pid))) :=
      confirmLive_eq t pid raw stamp w.db
    refine ⟨_, _, hdb, ?_⟩
    cases w.db.row? t pid <;> rfl
  · have hdb : ((Op.upsert t pid raw stamp).apply w).db =
        settle t pid stamp.now (w.db.put t pid (upserted raw stamp (w.db.row? t pid))) :=
      upsert_eq t pid raw stamp w.db
    refine ⟨_, _, hdb, ?_⟩
    obtain ⟨value, hvalue⟩ := row?_upsert_self t pid raw stamp w.db
    have hself : ((Op.upsert t pid raw stamp).apply w).db.row? t pid = _ := hvalue
    rw [Db.isLive, hself] at hlive
    exact hlive

theorem confirmLive_revives (t : Res) (pid : String) (raw : Json) (stamp : Stamp) (w : World) :
    (Op.confirmLive t pid raw stamp).Revives t pid w :=
  ⟨⟨raw, stamp, .inl rfl⟩, isLive_confirmLive t pid raw stamp w.db⟩

/-! ## The frame -/

theorem isLive_bury_of_not_child {evidence : Option Json} {reason : Reason}
    {mergedInto : Option String} {now : String} (hne : ¬ (u = t ∧ k = pid))
    (hchild : ¬ w.db.Child t pid u k) :
    (w.bury t pid evidence reason mergedInto now).db.isLive u k = w.db.isLive u k := by
  change (tombstone t pid evidence reason mergedInto now w.db).isLive u k = _
  rw [Db.isLive, Db.isLive, row?_tombstone, if_neg hne]
  cases hedge : (if reason.gone = true then ownedFk t u else none) with
  | none => rfl
  | some fk =>
      cases hrow : w.db.row? u k with
      | none => rfl
      | some row =>
          have howns := (Option.ite_none_right_eq_some.mp hedge).2
          have hfk : u.column fk row.raw ≠ some pid := fun hfk => hchild ⟨fk, row, howns, hrow, hfk⟩
          simp [Row.cascade, hfk]

theorem isLive_settle_put_of_not_child {now : String} {row : Row} {db : Db}
    (hne : ¬ (u = t ∧ k = pid)) (hchild : ¬ db.Child t pid u k) :
    (settle t pid now (db.put t pid row)).isLive u k = db.isLive u k := by
  obtain ⟨value, hvalue⟩ := row?_settle_put t pid now row db u k
  rw [if_neg hne] at hvalue
  rw [Db.isLive, Db.isLive, hvalue]
  cases hedge : (if row.live = true then ownedFk t u else none) with
  | none => cases db.row? u k <;> rfl
  | some fk =>
      cases hrow : db.row? u k with
      | none => rfl
      | some held =>
          have howns := (Option.ite_none_right_eq_some.mp hedge).2
          have hfk : u.column fk held.raw ≠ some pid := fun hfk =>
            hchild ⟨fk, held, howns, hrow, hfk⟩
          simp [Row.uncascade, hfk, Row.live]

/-! ## The round trip -/

/-- When an owner goes and comes back, and its children are meanwhile touched at most by
tombstones of their own, each is live again exactly if it was live before and got none; and
neither the cascade nor its undo touches the life of any other row. -/
theorem cascade_round_trip (t : Res) (pid : String) (w : World)
    (hclean : ∀ u fk k row, ownedFk t u = some fk → w.db.row? u k = some row →
      u.column fk row.raw = some pid → row.tombstoneReason ≠ some .ownerDeleted)
    (evidence : Option Json) (reason : Reason) (mergedInto : Option String) (now : String)
    (hgone : reason.gone = true) (ops : List Op)
    (hops : Run.Each Op.apply (Op.Spares w.db t pid) (w.bury t pid evidence reason mergedInto now)
      ops)
    (revival : Op)
    (hrevives : revival.Revives t pid
      (Run.exec Op.apply (w.bury t pid evidence reason mergedInto now) ops)) :
    (∀ u k, w.db.Child t pid u k →
      ((revival.apply (Run.exec Op.apply (w.bury t pid evidence reason mergedInto now)
          ops)).db.isLive u k = true ↔
        w.db.isLive u k = true ∧ ¬ ∃ op ∈ ops, op.Buries u k)) ∧
    (∀ u k, ¬ (u = t ∧ k = pid) → ¬ w.db.Child t pid u k →
      (w.bury t pid evidence reason mergedInto now).db.isLive u k = w.db.isLive u k) ∧
    ∀ u k, ¬ (u = t ∧ k = pid) →
      ¬ (Run.exec Op.apply (w.bury t pid evidence reason mergedInto now) ops).db.Child t pid u k →
      (revival.apply (Run.exec Op.apply (w.bury t pid evidence reason mergedInto now)
          ops)).db.isLive u k =
        (Run.exec Op.apply (w.bury t pid evidence reason mergedInto now) ops).db.isLive u k := by
  obtain ⟨row, since, hdb, hlive⟩ := hrevives.cases
  rw [hdb]
  refine ⟨fun u k hchild => ?_, fun u k hne hchild => isLive_bury_of_not_child hne hchild,
    fun u k hne hchild => isLive_settle_put_of_not_child hne hchild⟩
  obtain ⟨fk, child, howns, hrow, hfk⟩ := hchild
  have hburied := orphaned_bury evidence mergedInto now hgone howns hrow hfk
    (hclean u fk k child howns hrow hfk)
  exact isLive_settle_put_child howns (orphaned_exec ⟨fk, child, howns, hrow, hfk⟩ hburied hops)
    hlive

/-- A person and an email of theirs, as first stored. -/
def marchMirror : World where
  db := (Db.empty.put .person "1" (Row.fresh (document "Person" "1" "2024-03-01T00:00:00Z" [])
      ⟨.backfill, "2024-01-31", "2024-03-01T00:00:05Z"⟩)).put .email "2"
    (Row.fresh (document "Email" "2" "2024-03-01T00:00:00Z" [("person", linkage "Person" "1")])
      ⟨.backfill, "2024-01-31", "2024-03-01T00:00:06Z"⟩)

theorem reason_marchMirror {u : Res} {k : String} {row : Row}
    (h : marchMirror.db.row? u k = some row) : row.tombstoneReason = none := by
  simp only [marchMirror, Db.row?_put] at h
  split_ifs at h
  · cases h
    rfl
  · cases h
    rfl
  · cases h

def marchConfirmed : Op :=
  .confirmLive .person "1" (document "Person" "1" "2024-03-01T00:00:00Z" [])
    ⟨.reconcile, "2024-01-31", "2024-05-01T00:00:05Z"⟩

/-- The person is deleted and confirmed again, and their email is back with them. -/
theorem cascade_round_trip_march :
    (marchConfirmed.apply (Run.exec Op.apply (marchMirror.bury .person "1" none .destroyed none
      "2024-04-01T00:00:00Z") [])).db.isLive .email "2" = true := by
  have hround := cascade_round_trip .person "1" marchMirror (fun u fk k row _ hrow _ => by
      rw [reason_marchMirror hrow]
      nofun) none .destroyed none "2024-04-01T00:00:00Z" rfl [] trivial marchConfirmed
    (confirmLive_revives ..)
  have hchild : marchMirror.db.Child .person "1" .email "2" :=
    ⟨"person_pco_id", _, by decide, rfl, by decide⟩
  have hlive : marchMirror.db.isLive .email "2" = true := by decide
  have hnone : ¬ ∃ op ∈ ([] : List Op), op.Buries .email "2" := by simp
  rw [hround.1 .email "2" hchild]
  exact ⟨hlive, hnone⟩

end PcoMirror
