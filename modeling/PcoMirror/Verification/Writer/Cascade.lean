import PcoMirror.Verification.Writer.Operations

/-! The ownership cascade: a child tombstoned as its owner's has no live owner. -/

namespace PcoMirror

open Program

/-! ## Soundness -/

/-- No row tombstoned as its owner's names an owner that is live. -/
def Db.Sound (db : Db) : Prop :=
  ∀ t u fk k row pid, ownedFk t u = some fk → db.row? u k = some row →
    row.tombstoneReason = some .ownerDeleted → u.column fk row.raw = some pid →
    db.isLive t pid = false

/-- Only a tombstoned row has a reason. -/
def Row.Marked (row : Row) : Prop :=
  row.deletedAt = none → row.tombstoneReason = none

def Db.Marked (db : Db) : Prop :=
  ∀ t k row, db.row? t k = some row → row.Marked

/-- The cascade and its undo agree with the owners' rows. -/
structure Db.Cascaded (db : Db) : Prop where
  sound : db.Sound
  marked : db.Marked

theorem ownedFk_eq (t u : Res) : ownedFk t u = (ownerEdges u).lookup t := by
  cases t <;> cases u <;> decide

/-- A child has one owner. -/
theorem ownedFk_unique {t t' u : Res} {fk fk' : String} (h : ownedFk t u = some fk)
    (h' : ownedFk t' u = some fk') : t = t' ∧ fk = fk' := by
  have hlength : (ownerEdges u).length ≤ 1 := by cases u <;> decide
  rw [ownedFk_eq] at h h'
  match hedges : ownerEdges u, hlength with
  | [], _ => simp [hedges] at h
  | [(owner, col)], _ =>
      simp only [hedges, List.lookup_cons, List.lookup_nil] at h h'
      split at h <;> split at h' <;> simp_all

/-- Rewriting children moves no owner. -/
theorem ownedFk_owner {t t' u : Res} {fk : String} (h : ownedFk t' u = some fk) :
    ownedFk t t' = none := by
  cases howned : ownedFk t t' with
  | none => rfl
  | some fk' => simp [ownedFk_of_owned howned] at h

theorem Db.isLive_of_row? {db db' : Db} {t : Res} {id : String} {f : Row → Row}
    (h : db'.row? t id = (db.row? t id).map f) (hf : ∀ row, (f row).deletedAt = row.deletedAt) :
    db'.isLive t id = db.isLive t id := by
  rw [isLive, isLive, h]
  cases db.row? t id <;> simp [Row.live, hf]

/-! ## One row written -/

/-- After a write, an owner other than the written row is as live as before. -/
theorem isLive_settle_put {t t' u : Res} {fk : String} (howns : ownedFk t' u = some fk)
    (id now : String) (row : Row) (db : Db) (pid : String) :
    (settle t id now (db.put t id row)).isLive t' pid =
      if t' = t ∧ pid = id then row.live else db.isLive t' pid := by
  obtain ⟨value, hvalue⟩ := row?_settle_put t id now row db t' pid
  split_ifs with hself
  · rw [if_pos hself] at hvalue
    simp [Db.isLive, hvalue, Row.live]
  · rw [if_neg hself, ownedFk_owner howns] at hvalue
    simp only [ite_self] at hvalue
    exact Db.isLive_of_row? hvalue fun _ => rfl

theorem Row.Marked.uncascade {row : Row} (h : row.Marked) (child : Res) (owner now fk : String) :
    (row.uncascade child owner now fk).Marked := by
  unfold Row.uncascade
  split_ifs with hundo
  · exact fun _ => rfl
  · exact h

/-- A child still tombstoned as its owner's after the undo is another owner's. -/
theorem Row.uncascade_reason {row : Row} {child : Res} {owner now fk : String}
    (h : (row.uncascade child owner now fk).tombstoneReason = some .ownerDeleted) :
    row.uncascade child owner now fk = row ∧ child.column fk row.raw ≠ some owner := by
  unfold Row.uncascade at h ⊢
  split_ifs at h ⊢ with hundo
  exact ⟨rfl, fun hfk => hundo ⟨hfk, h⟩⟩

theorem Db.Cascaded.settle_put {db : Db} (h : db.Cascaded) (t : Res) (id now : String) {row : Row}
    (hmarked : row.Marked)
    (howner : ∀ owner fk pid, ownedFk owner t = some fk →
      row.tombstoneReason = some .ownerDeleted → t.column fk row.raw = some pid →
      db.isLive owner pid = false) :
    (settle t id now (db.put t id row)).Cascaded := by
  constructor
  · intro t' u fk k child pid howns hchild hreason hfk
    rw [isLive_settle_put howns]
    rcases settle_put_cases hchild with ⟨rfl, rfl, value, rfl⟩ | ⟨-, held, value, hheld, hfound⟩
    · have hne : ¬ (t' = u ∧ pid = k) := by
        rintro ⟨rfl, -⟩
        simp [ownedFk_self] at howns
      rw [if_neg hne]
      exact howner t' fk pid howns hreason hfk
    · rcases hfound with ⟨hnone, rfl⟩ | ⟨fk', -, hfk', rfl⟩
      · split_ifs with htarget
        · obtain ⟨rfl, rfl⟩ := htarget
          by_contra hlive
          simp [hnone (by simpa using hlive)] at howns
        · exact h.sound t' u fk k held pid howns hheld hreason hfk
      · obtain ⟨rfl, rfl⟩ := ownedFk_unique howns hfk'
        obtain ⟨hsame, hother⟩ := Row.uncascade_reason hreason
        rw [Row.withTyped_raw, hsame] at hfk
        rw [Row.withTyped_tombstoneReason, hsame] at hreason
        have hne : pid ≠ id := by
          rintro rfl
          exact hother hfk
        rw [if_neg fun htarget => hne htarget.2]
        exact h.sound t' u fk k held pid howns hheld hreason hfk
  · intro u k child hchild
    rcases settle_put_cases hchild with ⟨-, -, value, rfl⟩ | ⟨-, held, value, hheld, hfound⟩
    · exact hmarked
    · rcases hfound with ⟨-, rfl⟩ | ⟨fk, -, -, rfl⟩
      · exact h.marked u k held hheld
      · exact (h.marked u k held hheld).uncascade u id now fk

/-! ## The conditions on a step -/

/-- No child an owner's deletion buried is kept buried and moved to a live owner: the
document is newer than its tombstone, older than what is stored, or names no live owner. -/
def UpsertSafe (t : Res) (id : String) (raw : Json) (db : Db) : Prop :=
  ∀ row owner fk pid, db.row? t id = some row → row.tombstoneReason = some .ownerDeleted →
    ownedFk owner t = some fk → t.column fk raw = some pid → db.isLive owner pid = true →
    Sql.gt (pcoUpdatedAt raw) row.tombstoneUat = true ∨ Sql.gt row.uat (pcoUpdatedAt raw) = true

/-- An owner's row is not first written without its timestamp over buried children. -/
def UpsertUntimedSafe (t : Res) (id : String) (db : Db) : Prop :=
  db.row? t id = none → ∀ u fk k child, ownedFk t u = some fk → db.row? u k = some child →
    child.tombstoneReason = some .ownerDeleted → u.column fk child.raw ≠ some id

/-- A live child naming the owner. -/
def Db.HasLiveChild (db : Db) (t : Res) (id : String) : Prop :=
  ∃ u fk k child, ownedFk t u = some fk ∧ db.row? u k = some child ∧ child.deletedAt = none ∧
    u.column fk child.raw = some id

/-- A delete the owner's row refuses finds no live child of it, and a row buried with
its owner as the reason has no live owner. -/
def TombstoneSafe (t : Res) (id : String) (evidence : Option Json) (reason : Reason) (db : Db) :
    Prop :=
  ∀ row, db.row? t id = some row →
    (reason.gone = true → row.tombstoneGuard (stableTs evidence) reason = false →
      ¬ db.HasLiveChild t id) ∧
    (reason = .ownerDeleted → ∀ owner fk pid, ownedFk owner t = some fk →
      t.column fk row.raw = some pid → db.isLive owner pid = false)

/-! ## One operation -/

theorem Row.Marked.upsert {row : Row} (h : row.Marked) (raw : Json) (w : Stamp) :
    (row.upsert raw w).Marked := by
  intro hlive
  by_cases hrevived : row.revivedBy raw = true
  · simp [Row.upsert, hrevived]
  · simp only [Row.upsert, hrevived] at hlive ⊢
    exact h hlive

theorem Db.Cascaded.upsert {db : Db} (h : db.Cascaded) {t : Res} {id : String} {raw : Json}
    (w : Stamp) (hsafe : UpsertSafe t id raw db) : (upsert t id raw w db).Cascaded := by
  rw [upsert_eq]
  cases hrow : db.row? t id with
  | none =>
      refine h.settle_put t id w.now (fun _ => rfl) ?_
      intro owner fk pid _ hreason
      simp [upserted] at hreason
  | some row =>
      rw [upserted_some]
      refine h.settle_put t id w.now ((h.marked t id row hrow).upsert raw w) ?_
      intro owner fk pid howns hreason hfk
      have hkept : row.revivedBy raw = false := by
        by_contra hrevived
        simp [Row.upsert, hrevived] at hreason
      have hburied : row.tombstoneReason = some .ownerDeleted := by
        simpa [Row.upsert, hkept] using hreason
      have hdead : row.deletedAt.isSome = true := by
        by_contra hlive
        rw [h.marked t id row hrow (by simpa using hlive)] at hburied
        cases hburied
      by_contra hlive
      have hheld : upsertRaw row.raw raw ≠ row.raw := by
        intro hsame
        refine hlive (h.sound owner t fk id row pid howns hrow hburied ?_)
        simpa [Row.upsert, hsame] using hfk
      have hincoming := (upsertRaw_eq_or row.raw raw).resolve_left hheld
      have hnames : t.column fk raw = some pid := by
        simpa [Row.upsert, hincoming] using hfk
      rcases hsafe row owner fk pid hrow hburied howns hnames (by simpa using hlive) with hnew | hold
      · have hrevived : row.revivedBy raw = true :=
          Row.revivedBy_eq_true.mpr ⟨hdead, by simp [hburied], hnew⟩
        simp [hkept] at hrevived
      · exact hheld (upsertRaw_of_lt hold)

theorem Db.Cascaded.confirmLive {db : Db} (h : db.Cascaded) (t : Res) (id : String) (raw : Json)
    (w : Stamp) : (confirmLive t id raw w db).Cascaded := by
  rw [confirmLive_eq]
  have hclear : (confirmed raw w (db.row? t id)).tombstoneReason = none := by
    cases db.row? t id <;> rfl
  refine h.settle_put t id w.now (fun _ => hclear) ?_
  intro owner fk pid _ hreason
  rw [hclear] at hreason
  cases hreason

theorem Db.Cascaded.put {db : Db} (h : db.Cascaded) {t : Res} {id : String} {row : Row}
    (hmarked : row.Marked)
    (howner : ∀ owner fk pid, ownedFk owner t = some fk →
      row.tombstoneReason = some .ownerDeleted → t.column fk row.raw = some pid →
      db.isLive owner pid = false)
    (hchildren : row.deletedAt = none → db.isLive t id = false →
      ∀ u fk k child, ownedFk t u = some fk → db.row? u k = some child →
        child.tombstoneReason = some .ownerDeleted → u.column fk child.raw ≠ some id) :
    (db.put t id row).Cascaded := by
  constructor
  · intro t' u fk k child pid howns hchild hreason hfk
    have hlive : (db.put t id row).isLive t' pid =
        if t' = t ∧ pid = id then row.live else db.isLive t' pid := by
      rw [Db.isLive, Db.row?_put]
      split_ifs <;> rfl
    rw [hlive]
    rw [Db.row?_put] at hchild
    by_cases hself : u = t ∧ k = id
    · obtain ⟨rfl, rfl⟩ := hself
      rw [if_pos ⟨rfl, rfl⟩] at hchild
      obtain rfl := Option.some.inj hchild
      have hne : ¬ (t' = u ∧ pid = k) := by
        rintro ⟨rfl, -⟩
        simp [ownedFk_self] at howns
      rw [if_neg hne]
      exact howner t' fk pid howns hreason hfk
    · rw [if_neg hself] at hchild
      have hold := h.sound t' u fk k child pid howns hchild hreason hfk
      split_ifs with htarget
      · obtain ⟨rfl, rfl⟩ := htarget
        by_contra hnow
        have hnone : row.deletedAt = none := by simpa [Row.live] using hnow
        exact hchildren hnone hold u fk k child howns hchild hreason hfk
      · exact hold
  · intro u k child hchild
    rw [Db.row?_put] at hchild
    split_ifs at hchild with hself
    · obtain rfl := Option.some.inj hchild
      exact hmarked
    · exact h.marked u k child hchild

theorem Db.Cascaded.upsertUntimed {db : Db} (h : db.Cascaded) {t : Res} {id : String} {raw : Json}
    (w : Stamp) (hsafe : UpsertUntimedSafe t id db) : (upsertUntimed t id raw w db).Cascaded := by
  rw [upsertUntimed_eq]
  cases hrow : db.row? t id with
  | none =>
      refine h.put (fun _ => rfl) ?_ fun _ _ => hsafe hrow
      intro owner fk pid _ hreason
      cases hreason
  | some row =>
      refine h.put (h.marked t id row hrow) ?_ ?_
      · intro owner fk pid howns hreason hfk
        have hburied : row.tombstoneReason = some .ownerDeleted := hreason
        have hdead : row.deletedAt ≠ none := by
          intro hlive
          rw [h.marked t id row hrow hlive] at hburied
          cases hburied
        refine h.sound owner t fk id row pid howns hrow hburied ?_
        simpa [upsertedUntimed, Row.upsertUntimed, hdead] using hfk
      · intro hlive hnot
        have hheld : db.isLive t id = true := Db.isLive_iff.mpr ⟨row, hrow, hlive⟩
        simp [hnot] at hheld

/-- A tombstone brings no row to life. -/
theorem isLive_tombstone {t : Res} {id : String} {evidence : Option Json} {reason : Reason}
    {mergedInto : Option String} {now : String} {db : Db} {u : Res} {k : String}
    (h : db.isLive u k = false) :
    (tombstone t id evidence reason mergedInto now db).isLive u k = false := by
  by_contra hlive
  obtain ⟨found, hfound, hnone⟩ := Db.isLive_iff.mp (by simpa using hlive)
  have hheld : ∃ held, db.row? u k = some held ∧ held.deletedAt = none := by
    obtain ⟨held, hheld, ⟨-, -, rfl⟩ | ⟨-, rfl | ⟨fk, -, -, rfl⟩⟩⟩ := tombstone_cases hfound
    · unfold Row.tombstoned at hnone
      split_ifs at hnone
      · cases hnone
      · exact ⟨held, hheld, hnone⟩
    · exact ⟨_, hheld, hnone⟩
    · unfold Row.cascade at hnone
      split_ifs at hnone
      exact ⟨held, hheld, hnone⟩
  simp [Db.isLive_iff.mpr hheld] at h

theorem Db.Cascaded.tombstone {db : Db} (h : db.Cascaded) {t : Res} {id : String}
    {evidence : Option Json} {reason : Reason} (mergedInto : Option String) (now : String)
    (hsafe : TombstoneSafe t id evidence reason db) :
    (tombstone t id evidence reason mergedInto now db).Cascaded := by
  constructor
  · intro t' u fk k found pid howns hfound hreason hfk
    obtain ⟨held, hheld, ⟨rfl, rfl, rfl⟩ | ⟨-, rfl | ⟨fk', hgone, hfk', rfl⟩⟩⟩ :=
      tombstone_cases hfound
    · apply isLive_tombstone
      unfold Row.tombstoned at hreason hfk
      split_ifs at hreason hfk with haccepted
      · exact (hsafe held hheld).2 (Option.some.inj hreason) t' fk pid howns hfk
      · exact h.sound t' u fk k held pid howns hheld hreason hfk
    · exact isLive_tombstone (h.sound t' u fk k _ pid howns hheld hreason hfk)
    · unfold Row.cascade at hreason hfk
      split_ifs at hreason hfk with hcascaded
      · -- The child went with its owner, whose row must then be gone or absent.
        obtain ⟨rfl, rfl⟩ := ownedFk_unique howns hfk'
        obtain rfl : id = pid := Option.some.inj (hcascaded.1.symm.trans hfk)
        rw [Db.isLive, row?_tombstone_self]
        cases hrow : db.row? t' id with
        | none => rfl
        | some row =>
            by_cases haccepted : row.tombstoneGuard (stableTs evidence) reason = true
            · simp [Row.tombstoned, haccepted, Row.live, Row.tombstone]
            · have hchild : db.HasLiveChild t' id :=
                ⟨u, fk, k, held, howns, hheld, hcascaded.2, hfk⟩
              exact absurd hchild ((hsafe row hrow).1 hgone (by simpa using haccepted))
      · exact isLive_tombstone (h.sound t' u fk k held pid howns hheld hreason hfk)
  · intro u k found hfound
    obtain ⟨held, hheld, ⟨-, -, rfl⟩ | ⟨-, rfl | ⟨fk, -, -, rfl⟩⟩⟩ := tombstone_cases hfound
    · unfold Row.tombstoned
      split_ifs
      · intro hlive
        cases hlive
      · exact h.marked u k held hheld
    · exact h.marked u k _ hheld
    · unfold Row.cascade
      split_ifs
      · intro hlive
        cases hlive
      · exact h.marked u k held hheld

theorem Db.Cascaded.routed {db : Db} (h : db.Cascaded) {resource : Json} (stamp : Stamp)
    {ownerHint : Option Json} {synthesized : List String}
    (hsafe : ∀ r id stored, routeTarget resource ownerHint synthesized = .ok (some (r, id, stored)) →
      r.info.timestamped = true → UpsertSafe r id stored db) :
    (routed resource stamp ownerHint synthesized db).Cascaded := by
  unfold PcoMirror.routed
  split
  · rename_i r id stored htarget
    unfold write
    split_ifs with htimed
    · exact h.upsert stamp (hsafe r id stored htarget htimed)
    · refine h.upsertUntimed stamp fun _ u fk k child howns => ?_
      have hnone : r.info.timestamped = false → ownedFk r u = none := by
        cases r <;> cases u <;> decide
      rw [hnone (by simpa using htimed)] at howns
      cases howns
  · exact h

end PcoMirror
