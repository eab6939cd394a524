import PcoMirror.Verification.Writer.Equations

/-! Rows stay in their tables: what a write leaves of a row that was there, and which writes
leave it live. -/

namespace PcoMirror

variable {t u : Res} {id k : String} {db : Db} {row : Row}

theorem Row.live_uncascade (child : Res) (owner now fk : String) (h : row.live = true) :
    (row.uncascade child owner now fk).live = true := by
  rw [Row.uncascade]
  split_ifs
  · rfl
  · exact h

theorem row_after_settle_put {now : String} {put : Row} (hother : ¬ (u = t ∧ k = id))
    (hrow : db.row? u k = some row) :
    ∃ row', (settle t id now (db.put t id put)).row? u k = some row' ∧ row'.raw = row.raw ∧
      (row.live = true → row'.live = true) := by
  obtain ⟨value, hvalue⟩ := row?_settle_put t id now put db u k
  rw [if_neg hother, hrow] at hvalue
  cases hedge : (if put.live then ownedFk t u else none) with
  | none =>
      rw [hedge] at hvalue
      exact ⟨_, hvalue, rfl, fun hlive => hlive⟩
  | some fk =>
      rw [hedge] at hvalue
      refine ⟨_, hvalue, ?_, fun hlive => Row.live_uncascade u id now fk hlive⟩
      rw [Row.withTyped_raw, Row.uncascade]
      split_ifs <;> rfl

/-- A routed document leaves a live row live, with its own document or with that one. -/
theorem row_after_write (t : Res) (id : String) (stored : Json) (stamp : Stamp)
    (hrow : db.row? u k = some row) :
    ∃ row', (write t id stored stamp db).row? u k = some row' ∧
      (row'.raw = row.raw ∨ u = t ∧ k = id ∧ row'.raw = stored) ∧
      (row.live = true → row'.live = true) := by
  by_cases hself : u = t ∧ k = id
  · obtain ⟨rfl, rfl⟩ := hself
    rw [write]
    split_ifs
    · obtain ⟨value, hvalue⟩ := row?_upsert_self u k stored stamp db
      rw [hrow, upserted_some] at hvalue
      refine ⟨_, hvalue, ?_, fun hlive => ?_⟩
      · exact (upsertRaw_eq_or row.raw stored).imp (fun heq => heq) fun heq => ⟨rfl, rfl, heq⟩
      · simp only [Row.live, Option.isNone_iff_eq_none] at hlive ⊢
        simp [Row.withTyped, Row.upsert, Row.revivedBy, hlive]
    · rw [row?_upsertUntimed, if_pos ⟨rfl, rfl⟩, hrow]
      refine ⟨_, rfl, ?_, fun hlive => hlive⟩
      simp only [upsertedUntimed, Option.map_some, Option.getD_some, Row.upsertUntimed]
      split_ifs
      · exact .inr ⟨trivial, trivial, rfl⟩
      · exact .inl rfl
  · rw [write]
    split_ifs
    · rw [upsert_eq]
      obtain ⟨row', hrow', hraw, hlive⟩ := row_after_settle_put hself hrow
      exact ⟨row', hrow', .inl hraw, hlive⟩
    · rw [row?_upsertUntimed, if_neg hself]
      exact ⟨row, hrow, .inl rfl, fun hlive => hlive⟩

theorem row_after_confirmLive (t : Res) (id : String) (stored : Json) (stamp : Stamp)
    (hrow : db.row? u k = some row) :
    ∃ row', (confirmLive t id stored stamp db).row? u k = some row' ∧
      (row'.raw = row.raw ∨ u = t ∧ k = id ∧ row'.raw = stored) ∧
      (row.live = true → row'.live = true) := by
  by_cases hself : u = t ∧ k = id
  · obtain ⟨rfl, rfl⟩ := hself
    obtain ⟨value, hvalue⟩ := row?_confirmLive_self u k stored stamp db
    rw [hrow] at hvalue
    exact ⟨_, hvalue, .inr ⟨rfl, rfl, rfl⟩, fun _ => rfl⟩
  · rw [confirmLive_eq]
    obtain ⟨row', hrow', hraw, hlive⟩ := row_after_settle_put hself hrow
    exact ⟨row', hrow', .inl hraw, hlive⟩

/-- A tombstone leaves every document, and the live rows but its own and those it owns. -/
theorem row_after_tombstone (t : Res) (id : String) (evidence : Option Json) (reason : Reason)
    (mergedInto : Option String) (now : String) (hrow : db.row? u k = some row) :
    ∃ row', (tombstone t id evidence reason mergedInto now db).row? u k = some row' ∧
      row'.raw = row.raw ∧ (row.live = true → row'.live = true ∨ (u = t ∧ k = id) ∨
        ∃ fk, ownedFk t u = some fk ∧ u.column fk row.raw = some id) := by
  rw [row?_tombstone, hrow]
  by_cases hself : u = t ∧ k = id
  · rw [if_pos hself]
    refine ⟨_, rfl, ?_, fun _ => .inr (.inl hself)⟩
    simp only [Row.tombstoned]
    split_ifs <;> rfl
  · rw [if_neg hself]
    cases howned : (if reason.gone then ownedFk t u else none) with
    | none => exact ⟨row, rfl, rfl, .inl⟩
    | some fk =>
        refine ⟨_, rfl, ?_, fun hlive => ?_⟩
        · rw [Row.cascade]
          split_ifs <;> rfl
        · have howner : ownedFk t u = some fk := by
            split_ifs at howned
            exact howned
          by_cases hnames : u.column fk row.raw = some id
          · exact .inr (.inr ⟨fk, howner, hnames⟩)
          · refine .inl ?_
            rw [Row.cascade, if_neg fun h => hnames h.1]
            exact hlive

/-! ## When rows were written -/

variable {found : Row}

theorem synced_of_settle_put {now : String} {put : Row} (hput : put.lastSyncedAt = now)
    (h : (settle t id now (db.put t id put)).row? u k = some found) : found.lastSyncedAt = now ∨
      ∃ held, db.row? u k = some held ∧ found.lastSyncedAt = held.lastSyncedAt := by
  rcases settle_put_cases h with ⟨-, -, value, rfl⟩ | ⟨-, held, value, hheld, hcases⟩
  · exact .inl hput
  · rcases hcases with ⟨-, rfl⟩ | ⟨fk, -, -, rfl⟩
    · exact .inr ⟨held, hheld, rfl⟩
    · simp only [Row.withTyped, Row.uncascade]
      split_ifs
      · exact .inl rfl
      · exact .inr ⟨held, hheld, rfl⟩

/-- A row found after a write was written by it, or when it was before. -/
theorem synced_of_write {stored : Json} {stamp : Stamp}
    (h : (write t id stored stamp db).row? u k = some found) : found.lastSyncedAt = stamp.now ∨
      ∃ held, db.row? u k = some held ∧ found.lastSyncedAt = held.lastSyncedAt := by
  rw [write] at h
  split_ifs at h
  · rw [upsert_eq] at h
    refine synced_of_settle_put ?_ h
    cases db.row? t id <;> rfl
  · rw [row?_upsertUntimed] at h
    split_ifs at h
    · cases h
      refine .inl ?_
      cases db.row? t id <;> rfl
    · exact .inr ⟨found, h, rfl⟩

theorem synced_of_confirmLive {stored : Json} {stamp : Stamp}
    (h : (confirmLive t id stored stamp db).row? u k = some found) :
    found.lastSyncedAt = stamp.now ∨
      ∃ held, db.row? u k = some held ∧ found.lastSyncedAt = held.lastSyncedAt := by
  rw [confirmLive_eq] at h
  refine synced_of_settle_put ?_ h
  cases db.row? t id <;> rfl

theorem synced_of_tombstone {evidence : Option Json} {reason : Reason} {mergedInto : Option String}
    {now : String} (h : (tombstone t id evidence reason mergedInto now db).row? u k = some found) :
    found.lastSyncedAt = now ∨
      ∃ held, db.row? u k = some held ∧ found.lastSyncedAt = held.lastSyncedAt := by
  obtain ⟨held, hheld, ⟨-, -, rfl⟩ | ⟨-, rfl | ⟨fk, -, -, rfl⟩⟩⟩ := tombstone_cases h
  · rw [Row.tombstoned]
    split_ifs
    · exact .inl rfl
    · exact .inr ⟨held, hheld, rfl⟩
  · exact .inr ⟨_, hheld, rfl⟩
  · rw [Row.cascade]
    split_ifs
    · exact .inl rfl
    · exact .inr ⟨held, hheld, rfl⟩

end PcoMirror
