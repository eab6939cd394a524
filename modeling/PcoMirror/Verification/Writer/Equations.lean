import PcoMirror.Model.Writer

/-! What each statement of the writer does to every row of every table. -/

namespace PcoMirror

/-! ## The ownership graph -/

/-- The column by which rows of `u` name their owner in `t`. -/
def ownedFk (t u : Res) : Option String :=
  (ownedChildren t).lookup u

theorem ownedChildren_nodup (t : Res) : ((ownedChildren t).map (·.1)).Nodup := by
  cases t <;> decide

/-- No resource owns itself, and an owned child owns nothing. -/
theorem ownedFk_self (t : Res) : ownedFk t t = none := by
  cases t <;> decide

theorem ownedFk_of_owned {t u : Res} {fk : String} (h : ownedFk t u = some fk) (v : Res) :
    ownedFk u v = none := by
  have hleaf : (ownedFk t u).isSome = true → ownedChildren u = [] := by
    cases t <;> cases u <;> decide
  have hu : ownedChildren u = [] := hleaf (by rw [h]; rfl)
  rw [ownedFk, hu]
  rfl

/-- Nothing owns a person. -/
theorem ownedFk_person (t : Res) : ownedFk t .person = none := by
  cases t <;> decide

theorem ne_of_mem_ownedChildren {t : Res} {e : Res × String} (h : e ∈ ownedChildren t) :
    e.1 ≠ t := by
  rintro rfl
  have hself := ownedFk_self e.1
  rw [ownedFk, List.lookup_eq_none_iff] at hself
  simpa using hself e h

/-! ## The cascade and its undo -/

theorem row?_cascade (t : Res) (id now : String) (db : Db) (u : Res) (k : String) :
    (cascade t id now db).row? u k = match ownedFk t u with
      | none => db.row? u k
      | some fk => (db.row? u k).map (Row.cascade u id now fk) :=
  Db.row?_foldl_updateAll (fun c fk => Row.cascade c id now fk) _ (ownedChildren_nodup t) db u k

theorem isLive_updateAll_ne {t c : Res} (h : c ≠ t) (f : Row → Row) (db : Db) (id : String) :
    (db.updateAll c f).isLive t id = db.isLive t id := by
  simp [Db.isLive, Db.row?_updateAll, Ne.symm h]

/-- The owner's liveness does not change while its children are revived. -/
theorem uncascade_eq (t : Res) (id now : String) (db : Db) :
    uncascade t id now db =
      if db.isLive t id then
        (ownedChildren t).foldl (fun db e => db.updateAll e.1 (Row.uncascade e.1 id now e.2)) db
      else db := by
  have hfold : ∀ (edges : List (Res × String)) (db : Db), (∀ e ∈ edges, e.1 ≠ t) →
      edges.foldl (fun db e => if db.isLive t id then
        db.updateAll e.1 (Row.uncascade e.1 id now e.2) else db) db =
      if db.isLive t id then
        edges.foldl (fun db e => db.updateAll e.1 (Row.uncascade e.1 id now e.2)) db
      else db := by
    intro edges
    induction edges with
    | nil => intro db _; simp
    | cons e edges ih =>
        intro db hne
        rw [List.foldl_cons, List.foldl_cons]
        have hrest : ∀ e ∈ edges, e.1 ≠ t := fun e he => hne e (by simp [he])
        by_cases hlive : db.isLive t id
        · rw [if_pos hlive, if_pos hlive, ih _ hrest,
            isLive_updateAll_ne (hne e (by simp)), if_pos hlive]
        · rw [if_neg hlive, if_neg hlive, ih _ hrest, if_neg hlive]
  exact hfold _ db fun e he => ne_of_mem_ownedChildren he

theorem row?_uncascade (t : Res) (id now : String) (db : Db) (u : Res) (k : String) :
    (uncascade t id now db).row? u k =
      match (if db.isLive t id then ownedFk t u else none) with
      | none => db.row? u k
      | some fk => (db.row? u k).map (Row.uncascade u id now fk) := by
  rw [uncascade_eq]
  split_ifs with hlive
  · exact Db.row?_foldl_updateAll (fun c fk => Row.uncascade c id now fk) _
      (ownedChildren_nodup t) db u k
  · rfl

/-! ## Tombstones -/

/-- The guarded update of a tombstone. -/
def Row.tombstoned (row : Row) (uat : Option String) (reason : Reason)
    (mergedInto : Option String) (now : String) : Row :=
  if row.tombstoneGuard uat reason then row.tombstone uat reason mergedInto now else row

/-- Evidence taken from the row itself is never refused. -/
theorem Row.tombstoneGuard_none (row : Row) (reason : Reason) :
    row.tombstoneGuard none reason = true := by
  cases huat : row.uat <;> simp [Row.tombstoneGuard, huat]

theorem row?_tombstone (t : Res) (id : String) (evidence : Option Json) (reason : Reason)
    (mergedInto : Option String) (now : String) (db : Db) (u : Res) (k : String) :
    (tombstone t id evidence reason mergedInto now db).row? u k =
      if u = t ∧ k = id then
        (db.row? u k).map fun row => row.tombstoned (stableTs evidence) reason mergedInto now
      else match (if reason.gone then ownedFk t u else none) with
        | none => db.row? u k
        | some fk => (db.row? u k).map (Row.cascade u id now fk) := by
  unfold tombstone
  simp only
  by_cases hgone : reason.gone
  · rw [if_pos hgone, row?_cascade, Db.row?_updateRow]
    by_cases hself : u = t ∧ k = id
    · obtain ⟨rfl, rfl⟩ := hself
      simp [ownedFk_self, Row.tombstoned]
    · simp [hself, hgone]
  · simp [hgone, Db.row?_updateRow, Row.tombstoned]

theorem row?_tombstone_self (t : Res) (id : String) (evidence : Option Json) (reason : Reason)
    (mergedInto : Option String) (now : String) (db : Db) :
    (tombstone t id evidence reason mergedInto now db).row? t id =
      (db.row? t id).map fun row => row.tombstoned (stableTs evidence) reason mergedInto now := by
  simp [row?_tombstone]

/-- Where a row found after a tombstone comes from: it is the tombstoned row, a child
that went with it, or a row the tombstone did not touch. -/
theorem tombstone_cases {t : Res} {id : String} {evidence : Option Json} {reason : Reason}
    {mergedInto : Option String} {now : String} {db : Db} {u : Res} {k : String} {found : Row}
    (h : (tombstone t id evidence reason mergedInto now db).row? u k = some found) :
    ∃ held, db.row? u k = some held ∧
      (u = t ∧ k = id ∧ found = held.tombstoned (stableTs evidence) reason mergedInto now ∨
      ¬ (u = t ∧ k = id) ∧ (found = held ∨
        ∃ fk, reason.gone = true ∧ ownedFk t u = some fk ∧ found = held.cascade u id now fk)) := by
  rw [row?_tombstone] at h
  by_cases hself : u = t ∧ k = id
  · rw [if_pos hself] at h
    obtain ⟨held, hheld, hfound⟩ := Option.map_eq_some_iff.mp h
    exact ⟨held, hheld, .inl ⟨hself.1, hself.2, hfound.symm⟩⟩
  · rw [if_neg hself] at h
    cases hedge : (if reason.gone then ownedFk t u else none) with
    | none =>
        rw [hedge] at h
        exact ⟨found, h, .inr ⟨hself, .inl rfl⟩⟩
    | some fk =>
        rw [hedge] at h
        obtain ⟨held, hheld, hfound⟩ := Option.map_eq_some_iff.mp h
        obtain ⟨hgone, hfk⟩ := Option.ite_none_right_eq_some.mp hedge
        exact ⟨held, hheld, .inr ⟨hself, .inr ⟨fk, hgone, hfk, hfound.symm⟩⟩⟩

/-! ## Writes -/

/-- A row with other typed columns. -/
def Row.withTyped (row : Row) (value : TypedValue) : Row :=
  { row with typedValue := value }

theorem row?_projectFieldDatum (id : String) (db : Db) (u : Res) (k : String) :
    ∃ value : Row → TypedValue,
      (projectFieldDatum id db).row? u k = (db.row? u k).map fun row => row.withTyped (value row) := by
  rw [projectFieldDatum, Db.row?_updateRow]
  split_ifs with h
  · exact ⟨_, rfl⟩
  · refine ⟨Row.typedValue, ?_⟩
    cases db.row? u k <;> rfl

/-- The revival of owned children is all that follows a write, typed columns aside. -/
theorem row?_settle (t : Res) (id now : String) (db : Db) (u : Res) (k : String) :
    ∃ value : Row → TypedValue, (settle t id now db).row? u k =
      ((uncascade t id now db).row? u k).map fun row => row.withTyped (value row) := by
  rw [settle]
  split_ifs with h
  · exact row?_projectFieldDatum id _ u k
  · refine ⟨Row.typedValue, ?_⟩
    cases (uncascade t id now db).row? u k <;> rfl

@[simp] theorem Row.withTyped_raw (row : Row) (v : TypedValue) : (row.withTyped v).raw = row.raw :=
  rfl

@[simp] theorem Row.withTyped_deletedAt (row : Row) (v : TypedValue) :
    (row.withTyped v).deletedAt = row.deletedAt := rfl

@[simp] theorem Row.withTyped_tombstoneUat (row : Row) (v : TypedValue) :
    (row.withTyped v).tombstoneUat = row.tombstoneUat := rfl

@[simp] theorem Row.withTyped_tombstoneReason (row : Row) (v : TypedValue) :
    (row.withTyped v).tombstoneReason = row.tombstoneReason := rfl

@[simp] theorem Row.withTyped_uat (row : Row) (v : TypedValue) : (row.withTyped v).uat = row.uat :=
  rfl

/-- The document and the tombstone of a row are as they were. -/
structure Row.Kept (row row' : Row) : Prop where
  raw : row'.raw = row.raw
  deletedAt : row'.deletedAt = row.deletedAt
  reason : row'.tombstoneReason = row.tombstoneReason

theorem Row.Kept.withTyped (row : Row) (v : TypedValue) : row.Kept (row.withTyped v) :=
  ⟨rfl, rfl, rfl⟩

/-- The row an upsert leaves of a held one, or inserts. -/
def upserted (raw : Json) (w : Stamp) (held : Option Row) : Row :=
  (held.map (·.upsert raw w)).getD (Row.fresh raw w)

/-- The row a confirmation leaves of a held one, or inserts. -/
def confirmed (raw : Json) (w : Stamp) (held : Option Row) : Row :=
  (held.map (·.confirmLive raw w)).getD (Row.fresh raw w)

/-- The row an untimed upsert leaves of a held one, or inserts. -/
def upsertedUntimed (raw : Json) (w : Stamp) (held : Option Row) : Row :=
  (held.map (·.upsertUntimed raw w)).getD (Row.fresh raw w)

theorem upsert_eq (t : Res) (id : String) (raw : Json) (w : Stamp) (db : Db) :
    upsert t id raw w db =
      settle t id w.now (db.put t id (upserted raw w (db.row? t id))) := by
  rw [upsert]
  cases db.row? t id <;> rfl

theorem confirmLive_eq (t : Res) (id : String) (raw : Json) (w : Stamp) (db : Db) :
    confirmLive t id raw w db =
      settle t id w.now (db.put t id (confirmed raw w (db.row? t id))) := by
  rw [confirmLive]
  cases db.row? t id <;> rfl

theorem upsertUntimed_eq (t : Res) (id : String) (raw : Json) (w : Stamp) (db : Db) :
    upsertUntimed t id raw w db = db.put t id (upsertedUntimed raw w (db.row? t id)) := by
  rw [upsertUntimed]
  cases db.row? t id <;> rfl

theorem row?_upsertUntimed (t : Res) (id : String) (raw : Json) (w : Stamp) (db : Db)
    (u : Res) (k : String) :
    (upsertUntimed t id raw w db).row? u k =
      if u = t ∧ k = id then some (upsertedUntimed raw w (db.row? t id)) else db.row? u k := by
  rw [upsertUntimed_eq, Db.row?_put]

/-- A row other than the one just written: an owned child of it is revived with it. -/
theorem row?_settle_put (t : Res) (id now : String) (row : Row) (db : Db) (u : Res) (k : String) :
    ∃ value : Row → TypedValue, (settle t id now (db.put t id row)).row? u k =
      if u = t ∧ k = id then some (row.withTyped (value row))
      else match (if row.live then ownedFk t u else none) with
        | none => (db.row? u k).map fun row => row.withTyped (value row)
        | some fk => (db.row? u k).map fun row =>
            (row.uncascade u id now fk).withTyped (value (row.uncascade u id now fk)) := by
  obtain ⟨value, hvalue⟩ := row?_settle t id now (db.put t id row) u k
  refine ⟨value, ?_⟩
  rw [hvalue, row?_uncascade]
  have hlive : (db.put t id row).isLive t id = row.live := by simp [Db.isLive]
  rw [hlive]
  by_cases hself : u = t ∧ k = id
  · obtain ⟨rfl, rfl⟩ := hself
    simp [ownedFk_self]
  · have hput : (db.put t id row).row? u k = db.row? u k := by
      rw [Db.row?_put, if_neg hself]
    rw [hput, if_neg hself]
    cases (if row.live then ownedFk t u else none) <;> cases db.row? u k <;> rfl

/-- Where a row found after a write comes from: it is the row written, a child revived
with it, or a row the write did not touch. -/
theorem settle_put_cases {t : Res} {id now : String} {row : Row} {db : Db} {u : Res} {k : String}
    {found : Row} (h : (settle t id now (db.put t id row)).row? u k = some found) :
    (u = t ∧ k = id ∧ ∃ value, found = row.withTyped value) ∨
    (¬ (u = t ∧ k = id) ∧ ∃ held value, db.row? u k = some held ∧
      ((row.live = true → ownedFk t u = none) ∧ found = held.withTyped value ∨
        ∃ fk, row.live = true ∧ ownedFk t u = some fk ∧
          found = (held.uncascade u id now fk).withTyped value)) := by
  obtain ⟨value, hvalue⟩ := row?_settle_put t id now row db u k
  rw [h] at hvalue
  by_cases hself : u = t ∧ k = id
  · rw [if_pos hself] at hvalue
    exact .inl ⟨hself.1, hself.2, _, Option.some.inj hvalue⟩
  · rw [if_neg hself] at hvalue
    refine .inr ⟨hself, ?_⟩
    cases hedge : (if row.live then ownedFk t u else none) with
    | none =>
        rw [hedge] at hvalue
        obtain ⟨held, hheld, hfound⟩ := Option.map_eq_some_iff.mp hvalue.symm
        exact ⟨held, _, hheld, .inl ⟨fun hlive => by simpa [hlive] using hedge, hfound.symm⟩⟩
    | some fk =>
        rw [hedge] at hvalue
        obtain ⟨held, hheld, hfound⟩ := Option.map_eq_some_iff.mp hvalue.symm
        obtain ⟨hlive, hfk⟩ := Option.ite_none_right_eq_some.mp hedge
        exact ⟨held, _, hheld, .inr ⟨fk, hlive, hfk, hfound.symm⟩⟩

theorem row?_upsert_self (t : Res) (id : String) (raw : Json) (w : Stamp) (db : Db) :
    ∃ value, (upsert t id raw w db).row? t id =
      some ((upserted raw w (db.row? t id)).withTyped value) := by
  obtain ⟨value, hvalue⟩ :=
    row?_settle_put t id w.now (upserted raw w (db.row? t id)) db t id
  rw [upsert_eq, hvalue, if_pos ⟨rfl, rfl⟩]
  exact ⟨_, rfl⟩

theorem row?_confirmLive_self (t : Res) (id : String) (raw : Json) (w : Stamp) (db : Db) :
    ∃ value, (confirmLive t id raw w db).row? t id =
      some ((confirmed raw w (db.row? t id)).withTyped value) := by
  obtain ⟨value, hvalue⟩ :=
    row?_settle_put t id w.now (confirmed raw w (db.row? t id)) db t id
  rw [confirmLive_eq, hvalue, if_pos ⟨rfl, rfl⟩]
  exact ⟨_, rfl⟩

theorem isLive_confirmLive (t : Res) (id : String) (raw : Json) (w : Stamp) (db : Db) :
    (confirmLive t id raw w db).isLive t id = true := by
  obtain ⟨value, hvalue⟩ := row?_confirmLive_self t id raw w db
  refine Db.isLive_iff.mpr ⟨_, hvalue, ?_⟩
  cases db.row? t id <;> rfl

/-! ## Single rows -/

theorem upserted_none (raw : Json) (w : Stamp) : upserted raw w none = Row.fresh raw w := rfl

theorem upserted_some (raw : Json) (w : Stamp) (row : Row) :
    upserted raw w (some row) = row.upsert raw w := rfl

/-- A timestamp above the stored one brings its document with it. -/
theorem upsertRaw_of_gt {held incoming : Json}
    (h : Sql.gt (pcoUpdatedAt incoming) (pcoUpdatedAt held) = true) :
    upsertRaw held incoming = incoming := by
  rw [upsertRaw, if_pos h]

theorem upsertRaw_of_lt {held incoming : Json}
    (h : Sql.gt (pcoUpdatedAt held) (pcoUpdatedAt incoming) = true) :
    upsertRaw held incoming = held := by
  have hnot : ¬ Sql.gt (pcoUpdatedAt incoming) (pcoUpdatedAt held) = true := by
    obtain ⟨x, y, hx, hy, hlt⟩ := Sql.gt_eq_true.mp h
    rw [hx, hy, Sql.gt_some, not_lt]
    exact hlt.le
  rw [upsertRaw, if_neg hnot, if_pos h]

theorem upsertRaw_eq_or (held incoming : Json) :
    upsertRaw held incoming = held ∨ upsertRaw held incoming = incoming := by
  unfold upsertRaw
  split_ifs <;> simp

/-- Whatever a fresh row holds, it is live. -/
@[simp] theorem Row.fresh_deletedAt (raw : Json) (w : Stamp) : (Row.fresh raw w).deletedAt = none :=
  rfl

@[simp] theorem Row.fresh_tombstoneReason (raw : Json) (w : Stamp) :
    (Row.fresh raw w).tombstoneReason = none := rfl

@[simp] theorem Row.fresh_raw (raw : Json) (w : Stamp) : (Row.fresh raw w).raw = raw := rfl

theorem Row.revivedBy_eq_true {row : Row} {raw : Json} :
    row.revivedBy raw = true ↔ row.deletedAt.isSome = true ∧ row.tombstoneReason ≠ some .merged ∧
      Sql.gt (pcoUpdatedAt raw) row.tombstoneUat = true := by
  simp [Row.revivedBy, and_assoc]

/-! ## Stored documents -/

/-- The document a write leaves in a row is its own, or the one the row held. -/
theorem raw_of_settle_put {t u : Res} {id now k : String} {row found : Row} {db : Db}
    (h : (settle t id now (db.put t id row)).row? u k = some found) :
    (u = t ∧ k = id ∧ found.raw = row.raw) ∨
      ∃ held, db.row? u k = some held ∧ found.raw = held.raw := by
  rcases settle_put_cases h with ⟨hu, hk, value, rfl⟩ | ⟨-, held, value, hheld, hcases⟩
  · exact .inl ⟨hu, hk, rfl⟩
  · refine .inr ⟨held, hheld, ?_⟩
    rcases hcases with ⟨-, rfl⟩ | ⟨fk, -, -, rfl⟩
    · rfl
    · rw [Row.withTyped_raw, Row.uncascade]
      split_ifs <;> rfl

theorem raw_of_write {t u : Res} {id k : String} {stored : Json} {w : Stamp} {db : Db}
    {found : Row} (h : (write t id stored w db).row? u k = some found) :
    (u = t ∧ k = id ∧ found.raw = stored) ∨
      ∃ held, db.row? u k = some held ∧ found.raw = held.raw := by
  rw [write] at h
  split_ifs at h with htimed
  · rw [upsert_eq] at h
    rcases raw_of_settle_put h with ⟨rfl, rfl, hraw⟩ | hold
    · cases hheld : db.row? u k with
      | none =>
          rw [hheld] at hraw
          exact .inl ⟨rfl, rfl, hraw⟩
      | some held =>
          rw [hheld, upserted_some] at hraw
          rcases upsertRaw_eq_or held.raw stored with heq | heq
          · exact .inr ⟨held, rfl, hraw.trans heq⟩
          · exact .inl ⟨rfl, rfl, hraw.trans heq⟩
    · exact .inr hold
  · rw [row?_upsertUntimed] at h
    split_ifs at h with hself
    · obtain ⟨rfl, rfl⟩ := hself
      cases h
      cases hheld : db.row? u k with
      | none => exact .inl ⟨rfl, rfl, rfl⟩
      | some held =>
          cases hdead : held.deletedAt with
          | none => exact .inl ⟨rfl, rfl, by simp [upsertedUntimed, Row.upsertUntimed, hdead]⟩
          | some since =>
              exact .inr ⟨held, rfl, by simp [upsertedUntimed, Row.upsertUntimed, hdead]⟩
    · exact .inr ⟨found, h, rfl⟩

theorem raw_of_confirmLive {t u : Res} {id k : String} {raw : Json} {w : Stamp} {db : Db}
    {found : Row} (h : (confirmLive t id raw w db).row? u k = some found) :
    (u = t ∧ k = id ∧ found.raw = raw) ∨
      ∃ held, db.row? u k = some held ∧ found.raw = held.raw := by
  rw [confirmLive_eq] at h
  rcases raw_of_settle_put h with ⟨rfl, rfl, hraw⟩ | hold
  · refine .inl ⟨rfl, rfl, hraw.trans ?_⟩
    cases db.row? u k <;> rfl
  · exact .inr hold

theorem raw_of_tombstone {t u : Res} {id now k : String} {evidence : Option Json} {reason : Reason}
    {mergedInto : Option String} {db : Db} {found : Row}
    (h : (tombstone t id evidence reason mergedInto now db).row? u k = some found) :
    ∃ held, db.row? u k = some held ∧ found.raw = held.raw := by
  obtain ⟨held, hheld, ⟨-, -, rfl⟩ | ⟨-, rfl | ⟨fk, -, -, rfl⟩⟩⟩ := tombstone_cases h
  · refine ⟨held, hheld, ?_⟩
    rw [Row.tombstoned]
    split_ifs <;> rfl
  · exact ⟨_, hheld, rfl⟩
  · refine ⟨held, hheld, ?_⟩
    rw [Row.cascade]
    split_ifs <;> rfl

end PcoMirror
