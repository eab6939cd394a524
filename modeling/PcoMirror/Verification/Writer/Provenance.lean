import PcoMirror.Verification.Writer.Operations

/-! Where a stored document comes from: the payload it was written by, and the version
recorded beside it. -/

namespace PcoMirror

open Program

/-! ## Payloads -/

/-- What an operation offers the tables: a document for a row, at an API version. -/
def Op.payload? : Op → Option (Res × String × Json × String)
  | .upsert t id raw stamp | .upsertUntimed t id raw stamp | .confirmLive t id raw stamp =>
    some (t, id, raw, stamp.apiVersion)
  | .route resource stamp ownerHint synthesized =>
    match routeTarget resource ownerHint synthesized with
    | .ok (some (t, id, stored)) => some (t, id, stored, stamp.apiVersion)
    | _ => none
  | .tombstone .. | .mergerPoll .. | .handleMerge .. => none

/-- Every row of a timestamped table holds a document and a version of one payload. -/
def Db.Traced (offered : Res × String × Json × String → Prop) (db : Db) : Prop :=
  ∀ t, t.info.timestamped = true → ∀ id row, db.row? t id = some row →
    offered (t, id, row.raw, row.apiVersion)

variable {offered : Res × String × Json × String → Prop}

theorem Db.Traced.mono {offered' : Res × String × Json × String → Prop} {db : Db}
    (h : db.Traced offered) (himp : ∀ p, offered p → offered' p) : db.Traced offered' :=
  fun t ht id row hrow => himp _ (h t ht id row hrow)

/-! ## One row -/

/-- The incoming document lacks no relationship of the stored one, or has more of them. -/
def AsRich (held incoming : Json) : Prop :=
  (relationshipKeys held).all ((relationshipKeys incoming).contains ·) = true ∨
    (relationshipKeys held).length < (relationshipKeys incoming).length

/-- The document and its version are of one payload: the timestamps are known and differ, or
they are the same and the incoming document is as rich, or one of them is unknown and it is
not; or there is nothing to come apart. -/
def Row.TakesTogether (row : Row) (raw : Json) (apiVersion : String) : Prop :=
  apiVersion = row.apiVersion ∨ raw = row.raw ∨ Sql.gt (pcoUpdatedAt raw) row.uat = true ∨
    Sql.gt row.uat (pcoUpdatedAt raw) = true ∨
    (AsRich row.raw raw ↔ (pcoUpdatedAt raw).isSome = true ∧ row.uat.isSome = true)

/-- At timestamps neither of which is the later, an upsert takes a document as rich. -/
theorem upsertRaw_of_asRich {held incoming : Json}
    (holder : Sql.gt (pcoUpdatedAt held) (pcoUpdatedAt incoming) = false)
    (h : AsRich held incoming) : upsertRaw held incoming = incoming := by
  unfold upsertRaw
  simp only [holder, Bool.false_eq_true, if_false]
  split_ifs with hnewer hcovers hmore
  · rfl
  · rfl
  · rfl
  · exact absurd h (not_or.mpr ⟨hcovers, hmore⟩)

theorem upsertRaw_of_not_asRich {held incoming : Json}
    (hnewer : Sql.gt (pcoUpdatedAt incoming) (pcoUpdatedAt held) = false)
    (h : ¬ AsRich held incoming) : upsertRaw held incoming = held := by
  unfold upsertRaw
  obtain ⟨hcovers, hmore⟩ := not_or.mp h
  simp only [hnewer, Bool.false_eq_true, if_false, if_neg hcovers]
  split_ifs
  · rfl
  · rfl

theorem ge_iff_of_not_lt {a b : Option String} (h : Sql.gt b a = false) :
    Sql.ge a b = true ↔ a.isSome = true ∧ b.isSome = true := by
  cases a with
  | none => simp
  | some x =>
      cases b with
      | none => simp
      | some y =>
          have hnot : ¬ Sql.gt (some y) (some x) = true := by
            rw [h]
            nofun
          rw [Sql.gt_some, not_lt] at hnot
          simpa using hnot

/-- An upsert leaves the document and the version of one payload exactly under the
condition. -/
theorem Row.upsert_together_iff (row : Row) (raw : Json) (w : Stamp) :
    (((row.upsert raw w).raw = row.raw ∧ (row.upsert raw w).apiVersion = row.apiVersion) ∨
      ((row.upsert raw w).raw = raw ∧ (row.upsert raw w).apiVersion = w.apiVersion)) ↔
      row.TakesTogether raw w.apiVersion := by
  have hraw : (row.upsert raw w).raw = upsertRaw row.raw raw := rfl
  have hversion : (row.upsert raw w).apiVersion =
      if Sql.ge (pcoUpdatedAt raw) row.uat then w.apiVersion else row.apiVersion := rfl
  rw [hraw, hversion, Row.TakesTogether]
  cases hnewer : Sql.gt (pcoUpdatedAt raw) row.uat with
  | true =>
      have hge : Sql.ge (pcoUpdatedAt raw) row.uat = true := by
        obtain ⟨x, y, hx, hy, hlt⟩ := Sql.gt_eq_true.mp hnewer
        rw [hx, hy, Sql.ge_some]
        exact hlt.le
      simp [upsertRaw_of_gt hnewer, hge]
  | false =>
      cases holder : Sql.gt row.uat (pcoUpdatedAt raw) with
      | true =>
          have hge : Sql.ge (pcoUpdatedAt raw) row.uat = false := by
            obtain ⟨x, y, hx, hy, hlt⟩ := Sql.gt_eq_true.mp holder
            rw [hx, hy]
            simpa [Sql.ge] using hlt
          simp [upsertRaw_of_lt holder, hge]
      | false =>
          have hge := ge_iff_of_not_lt holder
          by_cases hrich : AsRich row.raw raw
          · rw [upsertRaw_of_asRich holder hrich]
            by_cases hknown : Sql.ge (pcoUpdatedAt raw) row.uat = true
            · simp [hknown, ← hge, hrich]
            · simp only [Bool.not_eq_true] at hknown
              simp only [hknown, Bool.false_eq_true, if_false, ← hge, hrich, iff_false,
                not_true_eq_false, or_false, true_and, and_true]
              exact ⟨fun h => h.elim (.inr) fun h => .inl h.symm,
                fun h => h.elim (fun h => .inr h.symm) .inl⟩
          · rw [upsertRaw_of_not_asRich hnewer hrich]
            by_cases hknown : Sql.ge (pcoUpdatedAt raw) row.uat = true
            · simp only [hknown, if_true, ← hge, hrich, iff_true, or_false, true_and,
                and_true, Bool.false_eq_true]
              exact ⟨fun h => h.elim .inl fun h => .inr h.symm,
                fun h => h.elim .inl fun h => .inr h.symm⟩
            · simp [hknown, ← hge, hrich]

/-! ## Operations -/

/-- The condition on a step: an upsert over a row takes its document and version together. -/
def UpsertTogether (t : Res) (id : String) (raw : Json) (apiVersion : String) (db : Db) : Prop :=
  ∀ row, db.row? t id = some row → row.TakesTogether raw apiVersion

def Op.Together (w : World) : Op → Prop
  | .upsert t id raw stamp => UpsertTogether t id raw stamp.apiVersion w.db
  | .route resource stamp ownerHint synthesized =>
    ∀ t id stored, routeTarget resource ownerHint synthesized = .ok (some (t, id, stored)) →
      t.info.timestamped = true → UpsertTogether t id stored stamp.apiVersion w.db
  | .upsertUntimed .. | .confirmLive .. | .tombstone .. | .mergerPoll .. | .handleMerge .. => True

variable {db : Db}

/-- Rewriting a row in a way that keeps its document and version keeps it traced. -/
theorem Db.Traced.settle_put (h : db.Traced offered) (t : Res) (id now : String) {row : Row}
    (hrow : t.info.timestamped = true → offered (t, id, row.raw, row.apiVersion)) :
    (settle t id now (db.put t id row)).Traced offered := by
  intro u hu k found hfound
  rcases settle_put_cases hfound with ⟨rfl, rfl, value, rfl⟩ | ⟨-, held, value, hheld, hcases⟩
  · exact hrow hu
  · have hold := h u hu k held hheld
    rcases hcases with ⟨-, rfl⟩ | ⟨fk, -, -, rfl⟩
    · exact hold
    · unfold Row.uncascade
      split_ifs <;> exact hold

theorem Db.Traced.upsert (h : db.Traced offered) {t : Res} {id : String} {raw : Json} {w : Stamp}
    (hoffered : offered (t, id, raw, w.apiVersion))
    (htogether : UpsertTogether t id raw w.apiVersion db) :
    (upsert t id raw w db).Traced offered := by
  rw [upsert_eq]
  refine h.settle_put t id w.now fun ht => ?_
  cases hrow : db.row? t id with
  | none => exact hoffered
  | some row =>
      rw [upserted_some]
      rcases (row.upsert_together_iff raw w).mpr (htogether row hrow) with
        ⟨hraw, hversion⟩ | ⟨hraw, hversion⟩
      · rw [hraw, hversion]
        exact h t ht id row hrow
      · rw [hraw, hversion]
        exact hoffered

theorem Db.Traced.confirmLive (h : db.Traced offered) {t : Res} {id : String} {raw : Json}
    {w : Stamp} (hoffered : offered (t, id, raw, w.apiVersion)) :
    (confirmLive t id raw w db).Traced offered := by
  rw [confirmLive_eq]
  refine h.settle_put t id w.now fun ht => ?_
  cases db.row? t id <;> exact hoffered

theorem Db.Traced.put (h : db.Traced offered) {t : Res} {id : String} {row : Row}
    (hrow : t.info.timestamped = true → offered (t, id, row.raw, row.apiVersion)) :
    (db.put t id row).Traced offered := by
  intro u hu k found hfound
  rw [Db.row?_put] at hfound
  split_ifs at hfound with hself
  · obtain ⟨rfl, rfl⟩ := hself
    cases hfound
    exact hrow hu
  · exact h u hu k found hfound

theorem Db.Traced.upsertUntimed (h : db.Traced offered) {t : Res} {id : String} {raw : Json}
    {w : Stamp} (hoffered : offered (t, id, raw, w.apiVersion)) :
    (upsertUntimed t id raw w db).Traced offered := by
  rw [upsertUntimed_eq]
  refine h.put fun ht => ?_
  cases hrow : db.row? t id with
  | none => exact hoffered
  | some row =>
      have hold := h t ht id row hrow
      cases hdead : row.deletedAt with
      | none => simpa [upsertedUntimed, Row.upsertUntimed, hdead] using hoffered
      | some since => simpa [upsertedUntimed, Row.upsertUntimed, hdead] using hold

theorem Db.Traced.tombstone (h : db.Traced offered) (t : Res) (id : String)
    (evidence : Option Json) (reason : Reason) (mergedInto : Option String) (now : String) :
    (tombstone t id evidence reason mergedInto now db).Traced offered := by
  intro u hu k found hfound
  obtain ⟨held, hheld, ⟨-, -, rfl⟩ | ⟨-, rfl | ⟨fk, -, -, rfl⟩⟩⟩ := tombstone_cases hfound
  · unfold Row.tombstoned
    split_ifs <;> exact h u hu k held hheld
  · exact h u hu k _ hheld
  · unfold Row.cascade
    split_ifs <;> exact h u hu k held hheld

theorem traced_ofTables : OfTables fun w => w.db.Traced offered := by
  intro w w' hdb _ h
  rwa [hdb]

/-- A merge writes no timestamped table. -/
theorem mergeKeeps_traced (m : Json) (id : String) (removed : Option String) :
    MergeKeeps (fun w => w.db.Traced offered) m id removed where
  bury := fun _ _ _ _ _ _ hw => hw.tombstone _ _ _ _ _ _
  record := fun _ _ _ _ hw => hw.put nofun

/-- One operation keeps every row traced to what has been offered so far. -/
theorem Op.traced_apply {w : World} (hw : w.db.Traced offered) {op : Op} (h : op.Together w) :
    (op.apply w).db.Traced fun p => offered p ∨ op.payload? = some p := by
  have hold : w.db.Traced fun p => offered p ∨ op.payload? = some p := hw.mono fun _ => .inl
  cases op with
  | upsert t id raw stamp => exact hold.upsert (.inr rfl) h
  | upsertUntimed t id raw stamp => exact hold.upsertUntimed (.inr rfl)
  | tombstone t id evidence reason mergedInto now => exact hold.tombstone _ _ _ _ _ _
  | confirmLive t id raw stamp => exact hold.confirmLive (.inr rfl)
  | route resource stamp ownerHint synthesized =>
      rw [Op.apply_route]
      change (routed resource stamp ownerHint synthesized w.db).Traced _
      cases htarget : routeTarget resource ownerHint synthesized with
      | error e => simpa only [routed, htarget] using hold
      | ok target =>
          cases target with
          | none => simpa only [routed, htarget] using hold
          | some target =>
              obtain ⟨t, id, stored⟩ := target
              simp only [routed, htarget, write]
              split_ifs with ht
              · exact hold.upsert (.inr (by simp only [Op.payload?, htarget]))
                  (h t id stored htarget ht)
              · exact hold.upsertUntimed (.inr (by simp only [Op.payload?, htarget]))
  | mergerPoll env fuel =>
      exact keeps_after (keeps_mergerPoll traced_ofTables env fuel fun m _ id _ =>
        mergeKeeps_traced m id _) hold
  | handleMerge env payload =>
      exact keeps_after (keeps_handleMerge traced_ofTables env payload fun _ id _ =>
        mergeKeeps_traced payload id _) hold

/-! ## Runs -/

/-- In a run whose upserts each take document and version together, every row of a
timestamped table holds, in every state, the document and the version of one payload. -/
theorem copies_together (ops : List Op) (h : Run.Each Op.apply Op.Together {} ops) (n : ℕ) :
    (Run.exec Op.apply {} (ops.take n)).db.Traced
      fun p => ∃ op ∈ ops.take n, op.payload? = some p := by
  have hrun : ∀ (ops : List Op) (w : World) (offered : Res × String × Json × String → Prop),
      Run.Each Op.apply Op.Together w ops → w.db.Traced offered →
      (Run.exec Op.apply w ops).db.Traced
        fun p => offered p ∨ ∃ op ∈ ops, op.payload? = some p := by
    intro ops
    induction ops with
    | nil => exact fun w offered _ hw => hw.mono fun _ => .inl
    | cons op ops ih =>
        intro w offered heach hw
        refine (ih _ _ heach.2 (Op.traced_apply hw heach.1)).mono fun p hp => ?_
        rcases hp with (hold | hnew) | ⟨op', hop', hp⟩
        · exact .inl hold
        · exact .inr ⟨op, by simp, hnew⟩
        · exact .inr ⟨op', by simp [hop'], hp⟩
  refine (hrun (ops.take n) {} (fun _ => False) (h.take n) fun t _ id row hrow => ?_).mono
    fun p hp => hp.resolve_left id
  cases hrow

/-- A person, and a poorer copy of them at the same timestamp under another API version. -/
def upgradedPerson : List Op :=
  [.upsert .person "1" (document "Person" "1" "2024-03-01T00:00:00Z" [("emails", .null)])
      ⟨.backfill, "2024-01-31", "2024-03-01T00:00:05Z"⟩,
    .upsert .person "1" (document "Person" "1" "2024-03-01T00:00:00Z" [])
      ⟨.reconcile, "2026-06-04", "2026-06-05T00:00:00Z"⟩]

theorem copies_together_march :
    (Run.exec Op.apply {} (List.take 2 marchPerson)).db.Traced
      fun p => ∃ op ∈ List.take 2 marchPerson, op.payload? = some p := by
  refine copies_together marchPerson ⟨fun row hrow => ?_, fun row hrow => ?_, trivial⟩ 2
  · cases hrow
  · have hnone : (none : Option Row) = some row := hrow
    cases hnone

/-- The poorer copy is refused, and its version recorded beside the richer one. -/
theorem copies_not_together :
    ¬ ∀ (ops : List Op) (n : ℕ), (Run.exec Op.apply {} (ops.take n)).db.Traced
      fun p => ∃ op ∈ ops.take n, op.payload? = some p := by
  intro h
  have hheld : ∃ row, (Run.exec Op.apply {} (upgradedPerson.take 2)).db.row? .person "1" = some row ∧
      row.raw = document "Person" "1" "2024-03-01T00:00:00Z" [("emails", .null)] ∧
      row.apiVersion = "2026-06-04" :=
    ⟨_, rfl, by decide, by decide⟩
  obtain ⟨row, hrow, hraw, hversion⟩ := hheld
  obtain ⟨op, hop, hpayload⟩ := h upgradedPerson 2 .person rfl "1" row hrow
  rw [hraw, hversion] at hpayload
  simp only [upgradedPerson, List.take, List.mem_cons, List.not_mem_nil, or_false] at hop
  rcases hop with rfl | rfl
  · exact absurd hpayload (by decide)
  · exact absurd hpayload (by decide)

end PcoMirror
