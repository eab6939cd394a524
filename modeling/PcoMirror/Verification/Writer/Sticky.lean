import PcoMirror.Lib.Run
import PcoMirror.Verification.Writer.Equations

/-! Sticky tombstones: how long a tombstoned row stays tombstoned under later
tombstones and upserts of its id. -/

namespace PcoMirror

/-! ## The bar an upsert must clear -/

/-- A tombstone that takes the place of another lets no document revive the row
that could not before. -/
def Row.KeepsBar (row row' : Row) : Prop :=
  ∀ raw, row'.revivedBy raw = true → row.revivedBy raw = true

/-- A document whose only content is its timestamp. -/
def stampedAt (uat : String) : Json :=
  .obj [("attributes", .obj [("updated_at", .str uat)])]

@[simp] theorem pcoUpdatedAt_stampedAt (uat : String) : pcoUpdatedAt (stampedAt uat) = some uat := by
  simp [pcoUpdatedAt, stampedAt, Json.textAt, Json.at?, Json.member?, Json.text?]

theorem lt_append_char (s : String) (c : Char) : s < s ++ c.toString := by
  have hchars : ∀ l : List Char, l < l ++ [c] := by
    intro l
    induction l with
    | nil => exact List.nil_lt_cons c []
    | cons x l ih => exact List.cons_lt_cons_self.mpr ih
  rw [String.lt_iff_toList_lt]
  simpa using hchars s.toList

/-- The bar is the tombstone time, and out of reach for a row tombstoned as merged. -/
theorem Row.keepsBar_tombstone_iff {row : Row} {b : String} (hdead : row.deletedAt.isSome = true)
    (hbar : row.tombstoneUat = some b) (uat : Option String) (reason : Reason)
    (mergedInto : Option String) (now : String) :
    row.KeepsBar (row.tombstone uat reason mergedInto now) ↔
      reason = .merged ∨ row.tombstoneReason ≠ some .merged ∧ b ≤ row.tombstoneTime uat now := by
  constructor
  · intro h
    by_cases hmerged : reason = .merged
    · exact .inl hmerged
    · have hrevives : ∀ x, row.tombstoneTime uat now < x → row.revivedBy (stampedAt x) = true := by
        intro x hx
        apply h
        rw [Row.revivedBy_eq_true]
        refine ⟨rfl, ?_, ?_⟩
        · simpa [Row.tombstone] using hmerged
        · simpa [Row.tombstone] using hx
      refine .inr ⟨?_, ?_⟩
      · exact (Row.revivedBy_eq_true.mp (hrevives _ (lt_append_char _ 'Z'))).2.1
      · by_contra hlt
        have hself := (Row.revivedBy_eq_true.mp (hrevives b (not_le.mp hlt))).2.2
        simp [hbar] at hself
  · rintro h raw hraw
    obtain ⟨-, hreason, hgt⟩ := Row.revivedBy_eq_true.mp hraw
    rcases h with rfl | ⟨hnot, hle⟩
    · exact absurd rfl hreason
    · obtain ⟨x, y, hx, hy, hlt⟩ := Sql.gt_eq_true.mp hgt
      obtain rfl : row.tombstoneTime uat now = y := by simpa [Row.tombstone] using hy
      rw [Row.revivedBy_eq_true]
      exact ⟨hdead, hnot, by simpa [hx, hbar] using hle.trans_lt hlt⟩

/-! ## Writer calls on one id -/

/-- A call that tombstones or upserts one id. -/
inductive IdCall where
  | tombstone (evidence : Option Json) (reason : Reason) (mergedInto : Option String)
      (now : String)
  | upsert (raw : Json) (w : Stamp)

def IdCall.apply (t : Res) (id : String) (db : Db) : IdCall → Db
  | .tombstone evidence reason mergedInto now =>
    PcoMirror.tombstone t id evidence reason mergedInto now db
  | .upsert raw w => PcoMirror.upsert t id raw w db

/-- An upsert of the run carries no `updated_at` above a bound. -/
def IdCall.UpTo (bound : String) : IdCall → Prop
  | .upsert raw _ => ∀ uat, pcoUpdatedAt raw = some uat → uat ≤ bound
  | .tombstone .. => True

/-- After the call the row is still tombstoned, and a tombstone has not lowered the bar. -/
def IdCall.Sticks (t : Res) (id : String) (db : Db) (call : IdCall) : Prop :=
  ∀ row, db.row? t id = some row → ∃ row', (call.apply t id db).row? t id = some row' ∧
    row'.deletedAt.isSome = true ∧
    match call with
    | .tombstone .. => row.KeepsBar row'
    | .upsert .. => True

/-- The evidence of a tombstone is no older than the tombstone time the row holds,
and a row tombstoned as merged is tombstoned only as merged. -/
def IdCall.NoOlder (t : Res) (id : String) (db : Db) : IdCall → Prop
  | .tombstone evidence reason _ now =>
    ∀ row, db.row? t id = some row → reason = .merged ∨ row.tombstoneReason ≠ some .merged ∧
      ∀ b, row.tombstoneUat = some b → b ≤ row.tombstoneTime (stableTs evidence) now
  | .upsert .. => True

/-- The row is tombstoned under a bar no lower than a bound. -/
def Row.BuriedPast (bound : String) (row : Row) : Prop :=
  row.deletedAt.isSome = true ∧
    ∃ b, row.tombstoneUat = some b ∧ (row.tombstoneReason = some .merged ∨ bound ≤ b)

theorem Row.BuriedPast.not_revivedBy {bound : String} {row : Row} (h : row.BuriedPast bound)
    {raw : Json} (hraw : ∀ uat, pcoUpdatedAt raw = some uat → uat ≤ bound) :
    row.revivedBy raw = false := by
  obtain ⟨-, b, hb, hbar⟩ := h
  by_contra hrevived
  obtain ⟨-, hreason, hgt⟩ := Row.revivedBy_eq_true.mp (by simpa using hrevived)
  obtain ⟨x, y, hx, hy, hlt⟩ := Sql.gt_eq_true.mp hgt
  rcases hbar with hmerged | hle
  · exact hreason hmerged
  · obtain rfl : b = y := by simpa [hb] using hy
    exact absurd ((hraw x hx).trans hle) (not_le.mpr hlt)

/-- An upsert that does not revive a row leaves its tombstone as it was. -/
theorem Row.BuriedPast.upsert {bound : String} {row : Row} (h : row.BuriedPast bound) {raw : Json}
    (hraw : ∀ uat, pcoUpdatedAt raw = some uat → uat ≤ bound) (w : Stamp) :
    (row.upsert raw w).BuriedPast bound := by
  have hnot := h.not_revivedBy hraw
  simpa [Row.BuriedPast, Row.upsert, hnot] using h

theorem Row.BuriedPast.withTyped {bound : String} {row : Row} (h : row.BuriedPast bound)
    (value : TypedValue) : (row.withTyped value).BuriedPast bound := h

/-- A tombstone always takes effect on a row already tombstoned. -/
theorem Row.tombstoned_of_deleted {row : Row} (h : row.deletedAt.isSome = true)
    (uat : Option String) (reason : Reason) (mergedInto : Option String) (now : String) :
    row.tombstoned uat reason mergedInto now = row.tombstone uat reason mergedInto now := by
  simp [Row.tombstoned, Row.tombstoneGuard, h]

/-- The row of one id is tombstoned under a bar no lower than a bound. -/
def Db.BuriedPast (t : Res) (id bound : String) (db : Db) : Prop :=
  ∃ row, db.row? t id = some row ∧ row.BuriedPast bound

theorem Db.BuriedPast.apply {t : Res} {id bound : String} {db : Db} {call : IdCall}
    (h : db.BuriedPast t id bound) (hup : call.UpTo bound) (hno : call.NoOlder t id db) :
    (call.apply t id db).BuriedPast t id bound := by
  obtain ⟨row, hrow, hpast⟩ := h
  cases call with
  | upsert raw w =>
      obtain ⟨value, hvalue⟩ := row?_upsert_self t id raw w db
      rw [hrow, upserted_some] at hvalue
      exact ⟨_, hvalue, (hpast.upsert hup w).withTyped value⟩
  | tombstone evidence reason mergedInto now =>
      refine ⟨row.tombstone (stableTs evidence) reason mergedInto now, ?_, rfl, _, rfl, ?_⟩
      · rw [IdCall.apply, row?_tombstone_self, hrow, Option.map_some,
          Row.tombstoned_of_deleted hpast.1]
      · rcases hno row hrow with rfl | ⟨hnot, hle⟩
        · exact .inl rfl
        · obtain ⟨b, hb, hbar⟩ := hpast.2
          exact .inr ((hbar.resolve_left hnot).trans (hle b hb))

theorem IdCall.sticks_iff_noOlder {t : Res} {id bound : String} {db : Db} {call : IdCall}
    (h : db.BuriedPast t id bound) (hup : call.UpTo bound) :
    call.Sticks t id db ↔ call.NoOlder t id db := by
  obtain ⟨row, hrow, hpast⟩ := h
  cases call with
  | upsert raw w =>
      obtain ⟨value, hvalue⟩ := row?_upsert_self t id raw w db
      rw [hrow, upserted_some] at hvalue
      refine ⟨fun _ => trivial, fun _ held hheld => ⟨_, hvalue, ?_, trivial⟩⟩
      exact ((hpast.upsert hup w).withTyped value).1
  | tombstone evidence reason mergedInto now =>
      obtain ⟨b, hb, -⟩ := hpast.2
      have hafter : (IdCall.apply t id db (.tombstone evidence reason mergedInto now)).row? t id =
          some (row.tombstone (stableTs evidence) reason mergedInto now) := by
        rw [IdCall.apply, row?_tombstone_self, hrow, Option.map_some,
          Row.tombstoned_of_deleted hpast.1]
      have hbar := Row.keepsBar_tombstone_iff hpast.1 hb (stableTs evidence) reason mergedInto now
      constructor
      · intro hsticks held hheld
        obtain rfl : row = held := by simpa [hrow] using hheld
        obtain ⟨row', hrow', -, hkeeps⟩ := hsticks row hrow
        obtain rfl : row.tombstone (stableTs evidence) reason mergedInto now = row' := by
          simpa [hafter] using hrow'
        simpa [hb] using hbar.mp hkeeps
      · intro hno held hheld
        obtain rfl : row = held := by simpa [hrow] using hheld
        refine ⟨_, hafter, rfl, hbar.mpr ?_⟩
        simpa [hb] using hno row hrow

/-! ## Runs -/

/-- From an accepted tombstone on, and as long as no upsert is newer than it, the row
stays tombstoned and no tombstone lowers the bar exactly when each later tombstone
carries evidence no older than the time in force and follows a merge only as a merge. -/
theorem tombstone_sticky_iff (t : Res) (id : String) (db : Db) (row : Row)
    (evidence : Option Json) (reason : Reason) (mergedInto : Option String) (now : String)
    (calls : List IdCall) (hrow : db.row? t id = some row)
    (haccepted : row.tombstoneGuard (stableTs evidence) reason = true)
    (hup : ∀ call ∈ calls, call.UpTo (row.tombstoneTime (stableTs evidence) now)) :
    Run.Each (IdCall.apply t id) (IdCall.Sticks t id)
        (tombstone t id evidence reason mergedInto now db) calls ↔
      Run.Each (IdCall.apply t id) (IdCall.NoOlder t id)
        (tombstone t id evidence reason mergedInto now db) calls := by
  have hstart : (tombstone t id evidence reason mergedInto now db).BuriedPast t id
      (row.tombstoneTime (stableTs evidence) now) := by
    refine ⟨row.tombstone (stableTs evidence) reason mergedInto now, ?_, rfl, _, rfl, .inr le_rfl⟩
    rw [row?_tombstone_self, hrow, Option.map_some, Row.tombstoned, if_pos haccepted]
  refine Run.each_congr hup hstart ?_ ?_
  · intro db' call hpast hcall hsticks
    exact hpast.apply hcall ((IdCall.sticks_iff_noOlder hpast hcall).mp hsticks)
  · intro db' call hpast hcall
    exact IdCall.sticks_iff_noOlder hpast hcall

/-- One email as it stood in January. -/
def januaryEmail : Db :=
  Db.empty.put .email "1" (Row.fresh (stampedAt "2024-01-01T00:00:00Z")
    ⟨.webhook, "2024-01-31", "2024-01-01T00:00:05Z"⟩)

theorem tombstone_sticky_iff_march :
    Run.Each (IdCall.apply .email "1") (IdCall.Sticks .email "1")
      (tombstone .email "1" (some (.str "2024-03-01T00:00:00Z")) .destroyed none
        "2024-03-01T00:00:05Z" januaryEmail)
      [.tombstone (some (.str "2024-03-02T00:00:00Z")) .absent none "2024-03-02T00:00:05Z",
        .upsert (stampedAt "2024-02-01T00:00:00Z") ⟨.backfill, "2024-01-31", "2024-03-03T00:00:00Z"⟩] := by
  refine (tombstone_sticky_iff .email "1" januaryEmail _ _ .destroyed none _ _ rfl (by decide) ?_).mpr ?_
  · simp only [List.mem_cons, List.not_mem_nil, or_false, forall_eq_or_imp, forall_eq]
    refine ⟨trivial, ?_⟩
    intro uat huat
    obtain rfl : "2024-02-01T00:00:00Z" = uat := by simpa using huat
    decide
  · refine ⟨?_, trivial, trivial⟩
    intro row hrow
    right
    have hrow' : some _ = some row := hrow
    obtain rfl := Option.some.inj hrow'
    decide

/-- A second delete carrying older evidence lowers the bar, and a payload older than
the first delete then revives the row. -/
theorem tombstone_not_sticky :
    ¬ ∀ (t : Res) (id : String) (db : Db) (row : Row) (evidence : Option Json) (reason : Reason)
      (mergedInto : Option String) (now : String) (calls : List IdCall),
      db.row? t id = some row → row.tombstoneGuard (stableTs evidence) reason = true →
      (∀ call ∈ calls, call.UpTo (row.tombstoneTime (stableTs evidence) now)) →
      Run.Each (IdCall.apply t id) (IdCall.Sticks t id)
        (tombstone t id evidence reason mergedInto now db) calls := by
  intro h
  have hrun := h .email "1" januaryEmail _ (some (.str "2024-03-01T00:00:00Z")) .destroyed none
    "2024-03-01T00:00:05Z"
    [.tombstone (some (.str "2024-01-01T00:00:00Z")) .absent none "2024-03-02T00:00:05Z",
      .upsert (stampedAt "2024-02-01T00:00:00Z") ⟨.backfill, "2024-01-31", "2024-03-03T00:00:00Z"⟩]
    rfl (by decide) ?_
  · obtain ⟨-, hupsert, -⟩ := hrun
    obtain ⟨row, hrow, hdead, -⟩ := hupsert _ rfl
    have hlive : (some row).any Row.live = false := by simpa [Row.live] using hdead
    rw [← hrow] at hlive
    exact absurd hlive (by decide)
  · simp only [List.mem_cons, List.not_mem_nil, or_false, forall_eq_or_imp, forall_eq]
    refine ⟨trivial, ?_⟩
    intro uat huat
    obtain rfl : "2024-02-01T00:00:00Z" = uat := by simpa using huat
    decide

end PcoMirror
