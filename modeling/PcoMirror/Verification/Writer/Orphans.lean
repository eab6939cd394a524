import PcoMirror.Verification.Writer.Cascade
import PcoMirror.Verification.Writer.Provenance

/-! Orphans: live rows whose owner is gone. -/

namespace PcoMirror

open Program

/-! ## Orphans -/

/-- Tombstoned for a reason that takes its children with it. -/
def Row.Gone (row : Row) : Prop :=
  row.deletedAt.isSome = true ∧ ∃ reason, row.tombstoneReason = some reason ∧ reason.gone = true

def Db.Gone (db : Db) (t : Res) (id : String) : Prop :=
  ∃ row, db.row? t id = some row ∧ row.Gone

/-- No live row names an owner that is gone. -/
def Db.NoOrphan (db : Db) : Prop :=
  ∀ t u fk k row pid, ownedFk t u = some fk → db.row? u k = some row → row.live = true →
    u.column fk row.raw = some pid → ¬ db.Gone t pid

theorem Row.Kept.live {row row' : Row} (h : row.Kept row') : row'.live = row.live := by
  rw [Row.live, Row.live, h.deletedAt]

theorem Row.Kept.gone {row row' : Row} (h : row.Kept row') : row'.Gone ↔ row.Gone := by
  rw [Row.Gone, Row.Gone, h.deletedAt, h.reason]

/-- One row has been written; of the others, only its children have changed, and have come
back to life where it is live. -/
structure Wrote (t : Res) (id : String) (row : Row) (db db' : Db) : Prop where
  self : ∃ row', db'.row? t id = some row' ∧ row.Kept row'
  other : ∀ u k found, ¬ (u = t ∧ k = id) → db'.row? u k = some found →
    ∃ held, db.row? u k = some held ∧ found.raw = held.raw ∧ (held.Kept found ∨
      row.live = true ∧ ∃ fk, ownedFk t u = some fk ∧ u.column fk held.raw = some id)
  owner : ∀ t' u fk pid, ownedFk t' u = some fk → ¬ (t' = t ∧ pid = id) →
    (db'.Gone t' pid ↔ db.Gone t' pid)

variable {t : Res} {id : String} {row : Row} {db db' : Db}

/-- An upsert would leave the held document where it is: it is the later one, or it is not
the earlier and the incoming one is poorer. -/
def Refused (held incoming : Json) : Prop :=
  Sql.gt (pcoUpdatedAt held) (pcoUpdatedAt incoming) = true ∨
    Sql.gt (pcoUpdatedAt incoming) (pcoUpdatedAt held) = false ∧ ¬ AsRich held incoming

theorem upsertRaw_of_refused {held incoming : Json} (h : Refused held incoming) :
    upsertRaw held incoming = held := by
  rcases h with holder | ⟨hnewer, hpoorer⟩
  · exact upsertRaw_of_lt holder
  · exact upsertRaw_of_not_asRich hnewer hpoorer

theorem upsertRaw_of_not_refused {held incoming : Json} (h : ¬ Refused held incoming) :
    upsertRaw held incoming = incoming := by
  obtain ⟨holder, hrest⟩ := not_or.mp h
  cases hnewer : Sql.gt (pcoUpdatedAt incoming) (pcoUpdatedAt held) with
  | true => exact upsertRaw_of_gt hnewer
  | false =>
      have hrich : AsRich held incoming := by
        by_contra hpoorer
        exact hrest ⟨hnewer, hpoorer⟩
      exact upsertRaw_of_asRich (by simpa using holder) hrich

variable {raw : Json} {w : Stamp}

/-- A row live after a tombstone was live before it, with the same document. -/
theorem live_before_tombstone {evidence : Option Json} {reason : Reason}
    {mergedInto : Option String} {now : String} {u : Res} {k : String} {found : Row}
    (hfound : (tombstone t id evidence reason mergedInto now db).row? u k = some found)
    (hlive : found.live = true) :
    ∃ held, db.row? u k = some held ∧ held.live = true ∧ held.raw = found.raw := by
  obtain ⟨held, hheld, ⟨-, -, rfl⟩ | ⟨-, rfl | ⟨fk, -, -, rfl⟩⟩⟩ := tombstone_cases hfound
  · unfold Row.tombstoned at hlive ⊢
    split_ifs at hlive ⊢
    · cases hlive
    · exact ⟨held, hheld, hlive, rfl⟩
  · exact ⟨_, hheld, hlive, rfl⟩
  · unfold Row.cascade at hlive ⊢
    split_ifs at hlive ⊢
    · cases hlive
    · exact ⟨held, hheld, hlive, rfl⟩

/-- No child of a record a tombstone takes away is live after it. -/
theorem not_live_of_tombstone {evidence : Option Json} {reason : Reason}
    {mergedInto : Option String} {now : String} {u : Res} {fk k : String} {found : Row}
    (hgone : reason.gone = true) (howns : ownedFk t u = some fk)
    (hfound : (tombstone t id evidence reason mergedInto now db).row? u k = some found)
    (hfk : u.column fk found.raw = some id) : found.live = false := by
  have hne : ¬ (u = t ∧ k = id) := by
    rintro ⟨rfl, -⟩
    simp [ownedFk_self] at howns
  simp only [row?_tombstone, if_neg hne, hgone, if_true, howns] at hfound
  obtain ⟨held, -, rfl⟩ := Option.map_eq_some_iff.mp hfound
  unfold Row.cascade at hfk ⊢
  split_ifs at hfk ⊢ with hcascaded
  · rfl
  · have hdead : held.deletedAt ≠ none := fun hnone => hcascaded ⟨hfk, hnone⟩
    simpa [Row.live, Option.isSome_iff_ne_none] using hdead

/-- A tombstone takes every live child along with an owner it takes away. -/
theorem Db.NoOrphan.tombstone (h : db.NoOrphan) (t : Res) (id : String) (evidence : Option Json)
    (reason : Reason) (mergedInto : Option String) (now : String) :
    (tombstone t id evidence reason mergedInto now db).NoOrphan := by
  intro t' u fk k found pid howns hfound hlive hfk howner
  obtain ⟨held, hheld, hheldlive, hraw⟩ := live_before_tombstone hfound hlive
  have hbefore : ¬ db.Gone t' pid := h t' u fk k held pid howns hheld hheldlive (hraw ▸ hfk)
  obtain ⟨owner, hrow, hgone⟩ := howner
  have hleaf : ownedFk t t' = none := by
    cases howned : ownedFk t t' with
    | none => rfl
    | some fk' => simp [ownedFk_of_owned howned] at howns
  rw [row?_tombstone, hleaf, ite_self] at hrow
  split_ifs at hrow with htarget
  · obtain ⟨rfl, rfl⟩ := htarget
    obtain ⟨row, hheldowner, rfl⟩ := Option.map_eq_some_iff.mp hrow
    unfold Row.tombstoned at hgone
    split_ifs at hgone
    · obtain ⟨-, reason', hreason, hgone'⟩ := hgone
      obtain rfl : reason = reason' := Option.some.inj hreason
      simp [not_live_of_tombstone hgone' howns hfound hfk] at hlive
    · exact hbefore ⟨row, hheldowner, hgone⟩
  · exact hbefore ⟨owner, hrow, hgone⟩

/-! ## Operations -/

end PcoMirror
