import PcoMirror.Verification.Webhooks.Events

/-! Webhook deliveries of one record in any order: when the newest event decides. -/

namespace PcoMirror

open Register

/-! ## The row as a register -/

/-- A row refines a register of documents: present and live, or destroyed under a bar. -/
def Refines : Option Row → Cell String Json → Prop
  | none, .empty => True
  | some row, .live u x => row.deletedAt = none ∧ row.raw = x ∧ pcoUpdatedAt x = some u
  | some row, .buried u x b => row.deletedAt.isSome = true ∧
      row.tombstoneReason = some .destroyed ∧ row.tombstoneUat = some b ∧ row.raw = x ∧
      pcoUpdatedAt x = some u
  | _, _ => False

/-- What the mirror shows of a record: its document while the row is live. -/
def Db.shown (db : Db) (t : Res) (id : String) : Option Json :=
  (db.row? t id).bind fun row => if row.live then some row.raw else none

theorem Refines.shown {db : Db} {t : Res} {id : String} {cell : Cell String Json}
    (h : Refines (db.row? t id) cell) : db.shown t id = cell.shown := by
  rw [Db.shown]
  cases hrow : db.row? t id with
  | none =>
      rw [hrow] at h
      cases cell with
      | empty => rfl
      | live u x => exact h.elim
      | buried u x b => exact h.elim
  | some row =>
      rw [hrow] at h
      cases cell with
      | empty => exact h.elim
      | live u x =>
          obtain ⟨hlive, rfl, -⟩ := h
          simp [Row.live, hlive, Cell.shown]
      | buried u x b =>
          have hdead : row.live = false := by simpa [Row.live] using h.1
          simp [hdead, Cell.shown]

/-! ## One event -/

/-- Of two documents, the newer; of two with one timestamp, either where they agree. -/
theorem upsertRaw_eq {held incoming : Json} {t u : String} (hheld : pcoUpdatedAt held = some t)
    (hincoming : pcoUpdatedAt incoming = some u) (hagree : t = u → held = incoming) :
    upsertRaw held incoming = if t < u then incoming else held := by
  rcases lt_trichotomy t u with hlt | heq | hgt
  · rw [if_pos hlt, upsertRaw_of_gt (by simpa [hheld, hincoming] using hlt)]
  · have hsame := hagree heq
    subst hsame
    rcases upsertRaw_eq_or held held with h | h <;> rw [h, ite_self]
  · rw [if_neg hgt.not_gt, upsertRaw_of_lt (by simpa [hheld, hincoming] using hgt)]

theorem refines_update {row : Option Row} {cell : Cell String Json} (h : Refines row cell)
    {u : String} {raw : Json} (hraw : pcoUpdatedAt raw = some u)
    (hagree : ∀ x, cell.held = some (u, x) → x = raw) (w : Stamp) (value : TypedValue) :
    Refines (some ((upserted raw w row).withTyped value)) (cell.step (.update u raw)) := by
  cases row with
  | none =>
      cases cell with
      | empty => exact ⟨rfl, rfl, hraw⟩
      | live t x => exact h.elim
      | buried t x b => exact h.elim
  | some row =>
      cases cell with
      | empty => exact h.elim
      | live t x =>
          obtain ⟨hlive, rfl, huat⟩ := h
          have hkept : row.revivedBy raw = false := by simp [Row.revivedBy, hlive]
          have hdoc := upsertRaw_eq huat hraw fun heq => hagree _ (by rw [heq]; rfl)
          simp only [Cell.step]
          split_ifs at hdoc ⊢ with hlt
          · exact ⟨by simp [upserted, Row.upsert, hkept, hlive], hdoc, hraw⟩
          · exact ⟨by simp [upserted, Row.upsert, hkept, hlive], hdoc, huat⟩
      | buried t x b =>
          obtain ⟨hdead, hreason, hbar, rfl, huat⟩ := h
          have hrevived : row.revivedBy raw = decide (b < u) := by
            simp [Row.revivedBy, hdead, hreason, hbar, hraw, Sql.gt]
          have hdoc := upsertRaw_eq huat hraw fun heq => hagree _ (by rw [heq]; rfl)
          simp only [Cell.step]
          by_cases hclear : b < u
          · rw [if_pos hclear]
            split_ifs at hdoc ⊢ with hlt
            · exact ⟨by simp [upserted, Row.upsert, hrevived, hclear], hdoc, hraw⟩
            · exact ⟨by simp [upserted, Row.upsert, hrevived, hclear], hdoc, huat⟩
          · rw [if_neg hclear]
            have hstays : row.revivedBy raw = false := by simp [hrevived, hclear]
            split_ifs at hdoc ⊢ with hlt
            · exact ⟨by simpa [upserted, Row.upsert, hstays] using hdead,
                by simpa [upserted, Row.upsert, hstays] using hreason,
                by simpa [upserted, Row.upsert, hstays] using hbar, hdoc, hraw⟩
            · exact ⟨by simpa [upserted, Row.upsert, hstays] using hdead,
                by simpa [upserted, Row.upsert, hstays] using hreason,
                by simpa [upserted, Row.upsert, hstays] using hbar, hdoc, huat⟩

theorem refines_delete {row : Option Row} {cell : Cell String Json} (h : Refines row cell)
    (d now : String) :
    Refines (row.map fun row => row.tombstoned (some d) .destroyed none now)
      (cell.step (.delete d)) := by
  cases row with
  | none =>
      cases cell with
      | empty => trivial
      | live t x => exact h.elim
      | buried t x b => exact h.elim
  | some row =>
      cases cell with
      | empty => exact h.elim
      | live t x =>
          obtain ⟨hlive, rfl, huat⟩ := h
          have hguard : row.tombstoneGuard (some d) .destroyed = decide (t ≤ d) := by
            simp [Row.tombstoneGuard, hlive, Row.uat, huat, Sql.ge]
          simp only [Cell.step, Option.map_some, Row.tombstoned, hguard]
          by_cases hle : t ≤ d
          · rw [if_neg (not_lt.mpr hle), if_pos (by simpa using hle)]
            exact ⟨rfl, rfl, rfl, rfl, huat⟩
          · rw [if_pos (not_le.mp hle), if_neg (by simpa using hle)]
            exact ⟨hlive, rfl, huat⟩
      | buried t x b =>
          obtain ⟨hdead, hreason, hbar, rfl, huat⟩ := h
          have hguard : row.tombstoneGuard (some d) .destroyed = true := by
            simp [Row.tombstoneGuard, hdead]
          simp only [Cell.step, Option.map_some, Row.tombstoned, hguard, if_true]
          exact ⟨rfl, rfl, rfl, rfl, huat⟩

/-! ## Deliveries -/

/-- Processes events in the order given. -/
def deliver (env : Env) (w : World) (events : List (String × WebhookEvent)) : World :=
  Run.exec (fun w event => w.after (processEvent env event.1 event.2)) w events

theorem Says.change_uat {t : Res} {id : String} {ev : WebhookEvent} {u : String} {raw : Json}
    (h : Says t id ev (.update u raw)) : pcoUpdatedAt raw = some u := by
  obtain ⟨_, doc, -, -, hrecord, -, rfl⟩ := h.said
  exact hrecord.pcoUpdatedAt

theorem Says.uat_ne {t : Res} {id : String} {ev : WebhookEvent} {c : Change String Json}
    (h : Says t id ev c) : c.time ≠ "" := by
  obtain ⟨_, doc, -, -, hrecord, -⟩ := h.said
  exact hrecord.uat_ne

theorem refines_event {t : Res} {id : String} {ev : WebhookEvent} {c : Change String Json}
    (h : Says t id ev c) (env : Env) (eventId : String) {w : World} {cell : Cell String Json}
    (hrefines : Refines (w.db.row? t id) cell)
    (hagree : ∀ u raw x, c = .update u raw → cell.held = some (u, x) → x = raw) :
    Refines ((w.after (processEvent env eventId ev)).db.row? t id) (cell.step c) := by
  rw [processEvent_db h]
  cases c with
  | update u raw =>
      obtain ⟨value, hvalue⟩ := row?_upsert_self t id raw
        ⟨.webhook, env.apiVersion, env.now w.tick⟩ w.db
      rw [applyChange, hvalue]
      exact refines_update hrefines h.change_uat (fun x hx => hagree u raw x rfl hx) _ value
  | delete d =>
      have hstable : stableTs (some (.str d)) = some d := if_neg h.uat_ne
      rw [applyChange, row?_tombstone_self, hstable]
      exact refines_delete hrefines d _

/-- The row after the deliveries refines the register after their changes. -/
theorem refines_deliver {t : Res} {id : String} (env : Env) {all : List (Change String Json)}
    (hdistinct : ∀ c ∈ all, ∀ c' ∈ all, c.time = c'.time → c = c')
    {events : List (String × WebhookEvent)} {changes : List (Change String Json)}
    (hreports : List.Forall₂ (fun event c => Says t id event.2 c) events changes)
    (hall : ∀ c ∈ changes, c ∈ all) {w : World} {cell : Cell String Json}
    (hheld : ∀ u x, cell.held = some (u, x) → .update u x ∈ all)
    (hrefines : Refines (w.db.row? t id) cell) :
    Refines ((deliver env w events).db.row? t id) (Run.exec Cell.step cell changes) := by
  induction hreports generalizing w cell with
  | nil => exact hrefines
  | cons hev hrest ih =>
      rename_i event c events changes
      have hc : c ∈ all := hall c (by simp)
      refine ih (fun c' hc' => hall c' (by simp [hc'])) ?_ ?_
      · intro u x hx
        rw [held_step] at hx
        rcases latest_eq_some hx with hold | rfl
        · exact hheld u x hold
        · exact hc
      · refine refines_event hev env event.1 hrefines ?_
        rintro u raw x rfl hx
        have hsame := hdistinct _ (hheld u x hx) _ hc rfl
        cases hsame
        rfl

/-- What a change, taken as the last word on its record, has the mirror show. -/
def dictates : Change String Json → Option Json
  | .update _ raw => some raw
  | .delete _ => none

/-- Deliveries about a record the mirror had no row for end as the newest event has it
exactly when that event is no destroy, or no event writes the record, or some destroy
finds it there, newer than every update so far, and no later update is newer than the
last destroy before it. -/
theorem deliver_shown_iff (t : Res) (id : String) (env : Env) (w : World)
    (events : List (String × WebhookEvent)) (changes : List (Change String Json))
    (newest : Change String Json) (habsent : w.db.row? t id = none)
    (hreports : List.Forall₂ (fun event c => Says t id event.2 c) events changes)
    (hdistinct : ∀ c ∈ changes, ∀ c' ∈ changes, c.time = c'.time → c = c')
    (hmem : newest ∈ changes) (hmax : ∀ c ∈ changes, c.time ≤ newest.time) :
    (deliver env w events).db.shown t id = dictates newest ↔
      (∃ u raw, newest = .update u raw) ∨ (∀ u raw, .update u raw ∉ changes) ∨
        ∃ bar, Buries changes bar := by
  have hstart : Refines (w.db.row? t id) .empty := by
    rw [habsent]
    trivial
  have hrun := (refines_deliver env hdistinct hreports (fun _ h => h)
    (fun _ _ hheld => by cases hheld) hstart).shown
  change (deliver env w events).db.shown t id = (run changes).shown at hrun
  rw [hrun]
  cases newest with
  | update u raw =>
      have hshown := shown_of_greatest hmem hmax fun c hc htime =>
        hdistinct c hc (.update u raw) hmem htime
      exact ⟨fun _ => .inl ⟨u, raw, rfl⟩, fun _ => hshown⟩
  | delete d =>
      rw [dictates, shown_eq_none_iff]
      constructor
      · exact .inr
      · rintro (⟨u, raw, hnot⟩ | h)
        · cases hnot
        · exact h

/-- An event of an action about email 1 at a time. -/
def emailEvent (action uat : String) : String × WebhookEvent :=
  (action ++ uat, {
    eventName := "people.v2.events.email." ++ action
    resourceType := "email"
    action := action
    payload := .json (.obj [("data", document "Email" "1" uat [])]) })

theorem emailEvent_says_update (uat : String) (hne : uat ≠ "") :
    Says .email "1" (emailEvent "updated" uat).2 (.update uat (document "Email" "1" uat [])) where
  resource := show byEventResource "email" = some .email by decide
  timestamped := rfl
  said := ⟨_, document "Email" "1" uat [], rfl, rfl, ⟨rfl, rfl, rfl, hne⟩, .inr rfl, rfl⟩

theorem emailEvent_says_delete (uat : String) (hne : uat ≠ "") :
    Says .email "1" (emailEvent "destroyed" uat).2 (.delete uat) where
  resource := show byEventResource "email" = some .email by decide
  timestamped := rfl
  said := ⟨_, document "Email" "1" uat [], rfl, rfl, ⟨rfl, rfl, rfl, hne⟩, rfl⟩

theorem deliver_shown_iff_march :
    (deliver quietEnv {} [emailEvent "updated" "2024-03-01T00:00:00Z",
      emailEvent "destroyed" "2024-03-02T00:00:00Z"]).db.shown .email "1" = none := by
  refine (deliver_shown_iff .email "1" quietEnv {} _
    [.update "2024-03-01T00:00:00Z" (document "Email" "1" "2024-03-01T00:00:00Z" []),
      .delete "2024-03-02T00:00:00Z"]
    (.delete "2024-03-02T00:00:00Z") rfl ?_ ?_ (by simp) ?_).mpr ?_
  · exact .cons (emailEvent_says_update _ (by decide))
      (.cons (emailEvent_says_delete _ (by decide)) .nil)
  · simp [Change.time]
  · simp only [List.mem_cons, List.not_mem_nil, or_false, forall_eq_or_imp, forall_eq]
    exact ⟨by decide, le_rfl⟩
  · refine .inr (.inr ⟨_, [_], _, [], rfl, ⟨_, _, List.mem_singleton_self _⟩, ?_, trivial, rfl⟩)
    intro u raw hu
    cases List.mem_singleton.mp hu
    decide

/-- A destroy that overtakes the record's first payload is lost. -/
theorem deliver_not_order_independent :
    ¬ ∀ (t : Res) (id : String) (env : Env) (w : World) (events : List (String × WebhookEvent))
      (changes : List (Change String Json)) (newest : Change String Json),
      w.db.row? t id = none →
      List.Forall₂ (fun event c => Says t id event.2 c) events changes →
      (∀ c ∈ changes, ∀ c' ∈ changes, c.time = c'.time → c = c') →
      newest ∈ changes → (∀ c ∈ changes, c.time ≤ newest.time) →
      (deliver env w events).db.shown t id = dictates newest := by
  intro h
  have hshown := h .email "1" quietEnv {} [emailEvent "destroyed" "2024-03-02T00:00:00Z",
      emailEvent "updated" "2024-03-01T00:00:00Z"]
    [.delete "2024-03-02T00:00:00Z",
      .update "2024-03-01T00:00:00Z" (document "Email" "1" "2024-03-01T00:00:00Z" [])]
    (.delete "2024-03-02T00:00:00Z") rfl ?_ ?_ (by simp) ?_
  · exact absurd hshown (by decide)
  · exact .cons (emailEvent_says_delete _ (by decide))
      (.cons (emailEvent_says_update _ (by decide)) .nil)
  · simp [Change.time]
  · simp only [List.mem_cons, List.not_mem_nil, or_false, forall_eq_or_imp, forall_eq]
    exact ⟨le_rfl, by decide⟩

end PcoMirror
