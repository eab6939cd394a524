import PcoMirror.Verification.Ingest.Rereads
import PcoMirror.Verification.System.Serving

/-! What stands in the mirror after any run of its operations: rows that are never dropped, and
documents that PCO has sent. -/

namespace PcoMirror

open Program

/-! ## Runs -/

/-- A document the call is handed from outside: by a delivery, or by PCO's answer to the request it
forwards. -/
def MirrorCall.Brings (doc : Json) : MirrorCall → Prop
  | .receive edge _ post => post.Delivers edge doc
  | .write _ transport .. | .read _ transport .. => transport.Answers doc
  | _ => False

variable {env : Env} {posted : Json → Prop} {base : Db} {w : World} {α : Type}

theorem Sources.after {m : Proc α} (h : Sources posted posted m) (hw : w.Sourced posted base) :
    (w.after m).Sourced posted base :=
  (keeps_after (h base) ⟨hw, fun _ => .inl⟩).sourced

theorem sources_seedWalkLedger : Sources posted posted (seedWalkLedger env) := by
  have hkeeps : ∀ (now : String) (rs : List Res) (w : World),
      (rs.foldl (World.seedLedger now) w).db = w.db ∧
        (rs.foldl (World.seedLedger now) w).log = w.log ∧
        (rs.foldl (World.seedLedger now) w).events = w.events := by
    intro now rs
    induction rs with
    | nil => exact fun w => ⟨rfl, rfl, rfl⟩
    | cons r rs ih =>
        intro w
        obtain ⟨hdb, hlog, hevents⟩ := ih (w.seedLedger now r)
        refine ⟨hdb.trans (seedLedger_db now w r), hlog.trans (seedLedger_log now w r),
          hevents.trans ?_⟩
        unfold World.seedLedger
        split_ifs <;> rfl
  exact (sources_nowIso env).bind fun now => sources_apart (fun w => (hkeeps now _ w).1)
    (fun w => (hkeeps now _ w).2.1) fun w => (hkeeps now _ w).2.2

/-- One call writes from known documents. -/
theorem sourced_perform {call : MirrorCall} (hposted : ∀ doc, call.Brings doc → posted doc)
    (hw : w.Sourced posted base) : (call.perform w).Sourced posted base := by
  have hend : w.AtHand posted posted base := ⟨hw, fun _ => .inl⟩
  cases call with
  | start env => exact sources_seedWalkLedger.after hw
  | backfill env r maxPages fuel => exact (sources_backfill r maxPages fuel).after hw
  | sweep env r fuel => exact (sources_incrementalSweep r fuel).after hw
  | walkRound env r budget fuel =>
      simp only [MirrorCall.perform]
      split
      · exact (sources_walkRoundStep r _ budget fuel).after hw
      · exact hw
  | audit env r budget => exact (sources_deleteAuditStep r budget).after hw
  | askAudit env r source => exact (sources_requestAudit r source).after hw
  | hydrate env r id includes => exact (sources_hydrate r id includes).after hw
  | hydrations env limit => exact (sources_drainHydration limit).after hw
  | repairSplit env limit minAgeSeconds =>
      exact (sources_repairSplitEdges limit minAgeSeconds).after hw
  | repairDangling env r limit minAgeSeconds =>
      exact (sources_repairDangling r limit minAgeSeconds).after hw
  | poll env fuel => exact (sources_mergerPoll fuel).after hw
  | receive edge env post => exact (sources_receive hposted).after hw
  | drain env limit => exact (sources_drain limit).after hw
  | retryDead => exact sources_retryDeadLetters.after hw
  | write env transport site fuel scopes method path body =>
      exact (Spec.final (servesSourced_serveWrite hposted scopes method path body base) hend).sourced
  | read env transport site u fuel scopes path qs body =>
      exact (Spec.final (readsSourced_serveRead hposted scopes path qs body base) hend).sourced

theorem sourced_exec {calls : List MirrorCall}
    (hposted : ∀ call ∈ calls, ∀ doc, call.Brings doc → posted doc)
    (hw : w.Sourced posted base) : (Run.exec MirrorCall.perform w calls).Sourced posted base := by
  induction calls generalizing w with
  | nil => exact hw
  | cons call calls ih =>
      exact ih (fun call hcall => hposted call (.tail _ hcall))
        (sourced_perform (hposted call (.head _)) hw)

/-- The document is one PCO has answered a request with, or was delivered or answered in the run, or
is that of an event that was in the inbox before it. -/
def Sent (w w' : World) (calls : List MirrorCall) (doc : Json) : Prop :=
  w'.Answered doc ∨ (∃ call ∈ calls, call.Brings doc) ∨ ∃ row ∈ w.events, row.2.Brings doc

/-- In every run the tables come of those before it by the writer's statements on documents PCO
has sent. -/
theorem written_exec (w : World) (calls : List MirrorCall) :
    Db.Written (Sent w (Run.exec MirrorCall.perform w calls) calls) w.db
      (Run.exec MirrorCall.perform w calls).db := by
  let posted (doc : Json) : Prop :=
    (∃ call ∈ calls, call.Brings doc) ∨ ∃ row ∈ w.events, row.2.Brings doc
  have hstart : w.Sourced posted w.db :=
    ⟨.start, fun row hrow doc hdoc => .inr ⟨row, hrow, hdoc⟩⟩
  have hsourced := sourced_exec (fun call hcall doc hdoc => .inl ⟨call, hcall, hdoc⟩) hstart
  exact hsourced.tables.mono fun doc hdoc => hdoc.symm

/-! ## Rows -/

/-- The columns of a tombstone are set together, or none of them. -/
structure Row.Consistent (row : Row) : Prop where
  reason : row.tombstoneReason.isSome = row.deletedAt.isSome
  uat : row.tombstoneUat.isSome = row.deletedAt.isSome

/-- A row rewritten in place: first seen when it was, and consistent where it was. -/
structure Row.Becomes (row row' : Row) : Prop where
  firstSeen : row'.firstSeenAt = row.firstSeenAt
  consistent : row.Consistent → row'.Consistent

theorem Row.becomes_refl (row : Row) : row.Becomes row :=
  ⟨rfl, fun h => h⟩

theorem Row.Becomes.trans {row row' row'' : Row} (h : row.Becomes row') (h' : row'.Becomes row'') :
    row.Becomes row'' :=
  ⟨h'.firstSeen.trans h.firstSeen, fun hrow => h'.consistent (h.consistent hrow)⟩

/-- Every row is still there, and what is new is consistent. -/
structure Db.Grows (db db' : Db) : Prop where
  kept : ∀ t k row, db.row? t k = some row → ∃ row', db'.row? t k = some row' ∧ row.Becomes row'
  fresh : ∀ t k row', db'.row? t k = some row' → db.row? t k = none → row'.Consistent

variable {db db' db'' : Db}

theorem Db.grows_refl (db : Db) : db.Grows db where
  kept _ _ row hrow := ⟨row, hrow, row.becomes_refl⟩
  fresh _ _ _ hrow hnone := by rw [hrow] at hnone; cases hnone

theorem Db.Grows.trans (h : db.Grows db') (h' : db'.Grows db'') : db.Grows db'' where
  kept t k row hrow := by
    obtain ⟨row', hrow', hbecomes⟩ := h.kept t k row hrow
    obtain ⟨row'', hrow'', hbecomes'⟩ := h'.kept t k row' hrow'
    exact ⟨row'', hrow'', hbecomes.trans hbecomes'⟩
  fresh t k row'' hrow'' hnone := by
    cases hmid : db'.row? t k with
    | none => exact h'.fresh t k row'' hrow'' hmid
    | some row' =>
        obtain ⟨found, hfound, hbecomes⟩ := h'.kept t k row' hmid
        rw [hrow''] at hfound
        cases hfound
        exact hbecomes.consistent (h.fresh t k row' hmid hnone)

theorem Db.grows_foldl {β : Type} {f : Db → β → Db} (xs : List β) (h : ∀ (db : Db) x, db.Grows (f db x))
    (db : Db) : db.Grows (xs.foldl f db) := by
  induction xs generalizing db with
  | nil => exact db.grows_refl
  | cons x xs ih => exact (h db x).trans (ih (f db x))

/-- A row is put where none was, or in the place of one that becomes it. -/
theorem Db.grows_put {t : Res} {id : String} {row : Row}
    (hfresh : db.row? t id = none → row.Consistent)
    (hheld : ∀ held, db.row? t id = some held → held.Becomes row) : db.Grows (db.put t id row) where
  kept u k held hrow := by
    rw [row?_put]
    split_ifs with hself
    · obtain ⟨rfl, rfl⟩ := hself
      exact ⟨row, rfl, hheld held hrow⟩
    · exact ⟨held, hrow, held.becomes_refl⟩
  fresh u k found hfound hnone := by
    rw [row?_put] at hfound
    split_ifs at hfound with hself
    · obtain ⟨rfl, rfl⟩ := hself
      cases hfound
      exact hfresh hnone
    · rw [hnone] at hfound
      cases hfound

theorem Db.grows_updateAll {t : Res} {f : Row → Row} (h : ∀ row : Row, row.Becomes (f row)) (db : Db) :
    db.Grows (db.updateAll t f) where
  kept u k row hrow := by
    rw [row?_updateAll, hrow]
    split_ifs
    · exact ⟨f row, rfl, h row⟩
    · exact ⟨row, rfl, row.becomes_refl⟩
  fresh u k found hfound hnone := by
    rw [row?_updateAll, hnone] at hfound
    split_ifs at hfound
    cases hfound

theorem Db.grows_updateRow {t : Res} {id : String} {f : Row → Row} (h : ∀ row : Row, row.Becomes (f row))
    (db : Db) : db.Grows (db.updateRow t id f) where
  kept u k row hrow := by
    rw [row?_updateRow, hrow]
    split_ifs
    · exact ⟨f row, rfl, h row⟩
    · exact ⟨row, rfl, row.becomes_refl⟩
  fresh u k found hfound hnone := by
    rw [row?_updateRow, hnone] at hfound
    split_ifs at hfound
    cases hfound

/-! ### The statements of the writer -/

theorem Row.fresh_consistent (raw : Json) (stamp : Stamp) : (Row.fresh raw stamp).Consistent :=
  ⟨rfl, rfl⟩

theorem Row.becomes_cascade (child : Res) (owner now fk : String) (row : Row) :
    row.Becomes (row.cascade child owner now fk) := by
  unfold Row.cascade
  split_ifs
  · exact ⟨rfl, fun _ => ⟨rfl, rfl⟩⟩
  · exact row.becomes_refl

theorem Row.becomes_uncascade (child : Res) (owner now fk : String) (row : Row) :
    row.Becomes (row.uncascade child owner now fk) := by
  unfold Row.uncascade
  split_ifs
  · exact ⟨rfl, fun _ => ⟨rfl, rfl⟩⟩
  · exact row.becomes_refl

theorem Row.becomes_upsert (row : Row) (raw : Json) (stamp : Stamp) :
    row.Becomes (row.upsert raw stamp) := by
  refine ⟨rfl, fun h => ?_⟩
  cases hrevived : row.revivedBy raw with
  | false => exact ⟨by simpa [Row.upsert, hrevived] using h.reason,
      by simpa [Row.upsert, hrevived] using h.uat⟩
  | true =>
      have hdeleted : row.deletedAt.isSome = true := by
        simp only [Row.revivedBy, Bool.and_eq_true] at hrevived
        exact hrevived.1.1
      have hreason : row.tombstoneReason.isSome = true := h.reason.trans hdeleted
      exact ⟨by simp [Row.upsert, hrevived], by simp [Row.upsert, hrevived, hreason]⟩

theorem grows_projectFieldDatum (id : String) (db : Db) : db.Grows (projectFieldDatum id db) := by
  unfold projectFieldDatum
  apply Db.grows_updateRow
  exact fun row => ⟨rfl, fun h => ⟨h.reason, h.uat⟩⟩

theorem grows_settle (t : Res) (id now : String) (db : Db) : db.Grows (settle t id now db) := by
  have huncascade : db.Grows (uncascade t id now db) := by
    refine Db.grows_foldl _ (fun db e => ?_) db
    split_ifs
    · exact Db.grows_updateAll (Row.becomes_uncascade e.1 id now e.2) db
    · exact db.grows_refl
  unfold settle
  split_ifs
  · exact huncascade.trans (grows_projectFieldDatum id _)
  · exact huncascade

theorem grows_write (t : Res) (id : String) (stored : Json) (stamp : Stamp) (db : Db) :
    db.Grows (write t id stored stamp db) := by
  unfold write
  split_ifs
  · rw [upsert_eq]
    refine (Db.grows_put (fun hnone => ?_) fun held hheld => ?_).trans (grows_settle t id _ _)
    · rw [hnone]
      exact Row.fresh_consistent stored stamp
    · rw [hheld]
      exact held.becomes_upsert stored stamp
  · rw [upsertUntimed_eq]
    refine Db.grows_put (fun hnone => ?_) fun held hheld => ?_
    · rw [hnone]
      exact Row.fresh_consistent stored stamp
    · rw [hheld]
      exact ⟨rfl, fun h => ⟨h.reason, h.uat⟩⟩

theorem grows_confirmLive (t : Res) (id : String) (raw : Json) (stamp : Stamp) (db : Db) :
    db.Grows (confirmLive t id raw stamp db) := by
  rw [confirmLive_eq]
  refine (Db.grows_put (fun hnone => ?_) fun held hheld => ?_).trans (grows_settle t id _ _)
  · rw [hnone]
    exact Row.fresh_consistent raw stamp
  · rw [hheld]
    exact ⟨rfl, fun _ => ⟨rfl, rfl⟩⟩

theorem grows_tombstone (t : Res) (id : String) (evidence : Option Json) (reason : Reason)
    (mergedInto : Option String) (now : String) (db : Db) :
    db.Grows (tombstone t id evidence reason mergedInto now db) := by
  have hrow (row : Row) : row.Becomes (if row.tombstoneGuard (stableTs evidence) reason then
      row.tombstone (stableTs evidence) reason mergedInto now else row) := by
    split_ifs
    · exact ⟨rfl, fun _ => ⟨rfl, rfl⟩⟩
    · exact row.becomes_refl
  have hself : db.Grows (db.updateRow t id fun row =>
      if row.tombstoneGuard (stableTs evidence) reason then
        row.tombstone (stableTs evidence) reason mergedInto now else row) :=
    Db.grows_updateRow hrow db
  unfold tombstone
  simp only
  split_ifs
  · refine hself.trans (Db.grows_foldl _ (fun db e => ?_) _)
    exact Db.grows_updateAll (Row.becomes_cascade e.1 id now e.2) db
  · exact hself

theorem grows_apply {x : TableWrite} (hfits : x.Fits db) : db.Grows (x.apply db) := by
  cases x with
  | route resource stamp ownerHint synthesized =>
      simp only [TableWrite.apply, routed]
      split
      · exact grows_write _ _ _ stamp db
      · exact db.grows_refl
  | confirmLive t id raw stamp => exact grows_confirmLive t id raw stamp db
  | refresh t id raw stamp =>
      simp only [TableWrite.apply]
      split_ifs
      · exact (grows_confirmLive t id raw stamp db).trans
          (Db.grows_foldl _ (fun db id => grows_projectFieldDatum id db) _)
      · exact grows_confirmLive t id raw stamp db
  | tombstone t id evidence reason mergedInto now =>
      exact grows_tombstone t id evidence reason mergedInto now db
  | recordMerger id raw stamp =>
      refine Db.grows_put (fun _ => Row.fresh_consistent raw stamp) fun held hheld => ?_
      rw [hfits] at hheld
      cases hheld

theorem Db.Written.grows {known : Json → Prop} (h : Db.Written known base db) : base.Grows db := by
  induction h with
  | start => exact base.grows_refl
  | write _ x hdoc hfits ih => exact ih.trans (grows_apply hfits)

/-- Over any run of the mirror's operations no row is dropped and none changes the time it was first
seen; and where the columns of a tombstone were set together they are, so that a row has a reason
and a time for its tombstone just where it is deleted. -/
theorem rows_kept (w : World) (calls : List MirrorCall) (t : Res) (id : String) :
    (∀ row, w.db.row? t id = some row →
      ∃ row', (Run.exec MirrorCall.perform w calls).db.row? t id = some row' ∧
        row'.firstSeenAt = row.firstSeenAt ∧ (row.Consistent → row'.Consistent)) ∧
    (w.db.row? t id = none → ∀ row',
      (Run.exec MirrorCall.perform w calls).db.row? t id = some row' → row'.Consistent) := by
  have hgrows := (written_exec w calls).grows
  constructor
  · intro row hrow
    obtain ⟨row', hrow', hbecomes⟩ := hgrows.kept t id row hrow
    exact ⟨row', hrow', hbecomes.firstSeen, hbecomes.consistent⟩
  · exact fun hnone row' hrow' => hgrows.fresh t id row' hrow' hnone

/-! ## Documents -/

/-- A document stored in a table is one that was sent, but for its relationships: of these some
may have been left out, and the owner's may have been added. -/
structure StoredFrom (t : Res) (doc raw : Json) : Prop where
  members : ∀ key, key ≠ "relationships" → raw.member? key = doc.member? key
  relationships : ∀ name v, raw.at? ["relationships", name] = some v →
    t.info.ownerRel = some name ∨ doc.at? ["relationships", name] = some v

theorem storedFrom_refl (t : Res) (doc : Json) : StoredFrom t doc doc :=
  ⟨fun _ _ => rfl, fun _ _ h => .inr h⟩

theorem StoredFrom.trans {t : Res} {doc mid raw : Json} (h : StoredFrom t doc mid)
    (h' : StoredFrom t mid raw) : StoredFrom t doc raw where
  members key hkey := (h'.members key hkey).trans (h.members key hkey)
  relationships name v hv := (h'.relationships name v hv).elim .inl (h.relationships name v)

/-- A record whose relationships are assigned anew, each the owner's or one it had. -/
theorem storedFrom_assign {t : Res} {members rels : List (String × Json)}
    (h : ∀ name v, rels.lookup name = some v → t.info.ownerRel = some name ∨
      (Json.obj members).at? ["relationships", name] = some v) :
    StoredFrom t (.obj members) (.obj (Json.assign "relationships" (.obj rels) members)) where
  members key hkey := Json.lookup_assign_of_ne hkey _ members
  relationships name v hv := by
    refine h name v ?_
    simpa [Json.at?, Json.member?, Json.lookup_assign] using hv

theorem storedFrom_withOwner {t : Res} {ownerRel : String} {hint resource stored : Json}
    (howner : t.info.ownerRel = some ownerRel) (h : withOwner ownerRel hint resource = .ok stored) :
    StoredFrom t resource stored := by
  cases resource with
  | obj members =>
      have hassigned {rels : List (String × Json)}
          (hrels : (members.lookup "relationships").getD (.obj []) = .obj rels) :
          StoredFrom t (.obj members) (.obj (Json.assign "relationships"
            (.obj (Json.assign ownerRel (.obj [("data", hint)]) rels)) members)) := by
        refine storedFrom_assign fun name v hv => ?_
        by_cases hname : name = ownerRel
        · exact .inl (hname ▸ howner)
        · rw [Json.lookup_assign_of_ne hname] at hv
          cases hmember : members.lookup "relationships" with
          | none =>
              rw [hmember] at hrels
              cases hrels
              cases hv
          | some held =>
              rw [hmember] at hrels
              cases hrels
              exact .inr (by simpa [Json.at?, Json.member?, hmember] using hv)
      have hheld (held : Option Json) {rels : List (String × Json)}
          (hrels : (members.lookup "relationships").getD (.obj []) = .obj rels)
          (hstored : (if held.any Json.truthy then Except.ok (.obj members) else
            Except.ok (.obj (Json.assign "relationships"
              (.obj (Json.assign ownerRel (.obj [("data", hint)]) rels)) members)) :
            Except PyError Json) = .ok stored) : StoredFrom t (.obj members) stored := by
        split_ifs at hstored
        · cases hstored
          exact storedFrom_refl t _
        · cases hstored
          exact hassigned hrels
      simp only [withOwner] at h
      split at h
      · rename_i rels hrels
        cases hrel : rels.lookup ownerRel with
        | none =>
            rw [hrel] at h
            exact hheld none hrels h
        | some rel =>
            rw [hrel] at h
            obtain ⟨held, -, hstored⟩ := except_bind_eq_ok.mp h
            exact hheld held hrels hstored
      · cases h
  | _ => cases h

theorem lookup_filter_some {p : String × Json → Bool} {rels : List (String × Json)} {name : String}
    {v : Json} (hp : ∀ e e' : String × Json, e.1 = e'.1 → p e = p e')
    (h : (rels.filter p).lookup name = some v) : rels.lookup name = some v := by
  induction rels with
  | nil => cases h
  | cons e rels ih =>
      cases hkeep : p e with
      | true =>
          rw [List.filter_cons_of_pos hkeep, List.lookup_cons] at h
          rw [List.lookup_cons]
          split
          · simp_all
          · simp_all
      | false =>
          have hne : (name == e.1) = false := by
            by_contra hself
            have hname : name = e.1 := by simpa using hself
            rw [List.filter_cons_of_neg (by simpa using hkeep)] at h
            have hmem := List.lookup_eq_some_iff.mp h
            obtain ⟨pre, post, hsplit, -⟩ := hmem
            have hin : (name, v) ∈ rels.filter p := by rw [hsplit]; simp
            have hkept := (List.mem_filter.mp hin).2
            rw [hp (name, v) e hname, hkeep] at hkept
            cases hkept
          rw [List.filter_cons_of_neg (by simpa using hkeep)] at h
          rw [List.lookup_cons, hne]
          exact ih h

theorem storedFrom_withoutSynthesized (t : Res) (synthesized : List String) (resource : Json) :
    StoredFrom t resource (withoutSynthesized t synthesized resource) := by
  unfold withoutSynthesized
  split
  · split
    · rename_i members rels hrels
      dsimp only
      split_ifs
      · refine storedFrom_assign fun name v hv => .inr ?_
        have hheld := lookup_filter_some (fun e e' he => by rw [he]) hv
        simpa [Json.at?, Json.member?, hrels] using hheld
      · exact storedFrom_refl t _
    · exact storedFrom_refl t _
  · exact storedFrom_refl t _

/-- What the router stores is the document with its owner named and without what was made up
of it. -/
theorem routeTarget_inv {resource stored : Json} {hint : Option Json} {synthesized : List String}
    {t : Res} {id : String}
    (h : routeTarget resource hint synthesized = .ok (some (t, id, stored))) :
    ∃ owned, ownedDocument t hint resource = .ok owned ∧
      stored = withoutSynthesized t synthesized owned := by
  cases hresource : resourceOf resource with
  | error e =>
      rw [routeTarget, hresource] at h
      cases h
  | ok found =>
      cases found with
      | none =>
          rw [routeTarget, hresource] at h
          cases h
      | some r =>
          let rest (thin : Bool) : Except PyError (Option (Res × String × Json)) :=
            if thin then .ok none
            else ownedDocument r hint resource >>= fun owned =>
              idOf (withoutSynthesized r synthesized owned) >>= fun id =>
                .ok (some (r, id, withoutSynthesized r synthesized owned))
          have hroute : routeTarget resource hint synthesized =
              if r.info.timestamped = true then lacksUpdatedAt resource >>= rest
              else rest false := by
            unfold routeTarget
            rw [hresource]
            simp only [rest, ownedDocument, bind, Except.bind]
            cases r.info.ownerRel with
            | none => rfl
            | some ownerRel => cases hint <;> rfl
          have hstored : ∃ thin, rest thin = .ok (some (t, id, stored)) := by
            rw [hroute] at h
            split_ifs at h
            · obtain ⟨thin, -, h⟩ := except_bind_eq_ok.mp h
              exact ⟨thin, h⟩
            · exact ⟨false, h⟩
          obtain ⟨thin, hthin⟩ := hstored
          simp only [rest] at hthin
          split_ifs at hthin
          · cases hthin
          · obtain ⟨owned, howned, hthin⟩ := except_bind_eq_ok.mp hthin
            obtain ⟨k, -, hthin⟩ := except_bind_eq_ok.mp hthin
            cases hthin
            exact ⟨owned, howned, rfl⟩

theorem storedFrom_of_routeTarget {resource stored : Json} {hint : Option Json}
    {synthesized : List String} {t : Res} {id : String}
    (h : routeTarget resource hint synthesized = .ok (some (t, id, stored))) :
    StoredFrom t resource stored := by
  obtain ⟨owned, howned, rfl⟩ := routeTarget_inv h
  refine StoredFrom.trans ?_ (storedFrom_withoutSynthesized t synthesized owned)
  unfold ownedDocument at howned
  split at howned
  · exact storedFrom_withOwner ‹_› howned
  · cases howned
    exact storedFrom_refl t _

/-- The row holds a document that stood in its place before, or one that was stored from a known
one. -/
def Db.Attested (known : Json → Prop) (base db : Db) : Prop :=
  ∀ t id row, db.row? t id = some row →
    (∃ held, base.row? t id = some held ∧ row.raw = held.raw) ∨
      ∃ doc, known doc ∧ StoredFrom t doc row.raw

theorem raw_of_reprojectFieldData {id : String} {u : Res} {k : String} {found : Row}
    (h : (reprojectFieldData id db).row? u k = some found) :
    ∃ held, db.row? u k = some held ∧ found.raw = held.raw := by
  have hfold : ∀ (ids : List String) (db : Db),
      (ids.foldl (fun db id => projectFieldDatum id db) db).row? u k = some found →
        ∃ held, db.row? u k = some held ∧ found.raw = held.raw := by
    intro ids
    induction ids with
    | nil => exact fun db h => ⟨found, h, rfl⟩
    | cons id ids ih =>
        intro db h
        obtain ⟨held, hheld, hraw⟩ := ih _ h
        obtain ⟨value, hvalue⟩ := row?_projectFieldDatum id db u k
        rw [hvalue] at hheld
        obtain ⟨before, hbefore, rfl⟩ := Option.map_eq_some_iff.mp hheld
        exact ⟨before, hbefore, hraw⟩
  exact hfold _ db h

theorem Db.Written.attested {known : Json → Prop} (h : Db.Written known base db) :
    Db.Attested known base db := by
  induction h with
  | start => exact fun t id row hrow => .inl ⟨row, hrow, rfl⟩
  | @write db _ x hdoc _ ih =>
      have hold {t : Res} {id : String} {row : Row}
          (hheld : ∃ held, db.row? t id = some held ∧ row.raw = held.raw) :
          (∃ held, base.row? t id = some held ∧ row.raw = held.raw) ∨
            ∃ doc, known doc ∧ StoredFrom t doc row.raw := by
        obtain ⟨held, hheld, hraw⟩ := hheld
        rw [hraw]
        exact ih t id held hheld
      have hconfirm {t u : Res} {id k : String} {raw : Json} {stamp : Stamp} {row : Row}
          (hknown : known raw) (hrow : (confirmLive t id raw stamp db).row? u k = some row) :
          (∃ held, base.row? u k = some held ∧ row.raw = held.raw) ∨
            ∃ doc, known doc ∧ StoredFrom u doc row.raw := by
        rcases raw_of_confirmLive hrow with ⟨rfl, rfl, hraw⟩ | hheld
        · rw [hraw]
          exact .inr ⟨raw, hknown, storedFrom_refl u raw⟩
        · exact hold hheld
      intro u k row hrow
      cases x with
      | route resource stamp ownerHint synthesized =>
          simp only [TableWrite.apply, routed] at hrow
          split at hrow
          · rename_i t id stored htarget
            rcases raw_of_write hrow with ⟨rfl, rfl, hraw⟩ | hheld
            · rw [hraw]
              exact .inr ⟨resource, hdoc resource rfl, storedFrom_of_routeTarget htarget⟩
            · exact hold hheld
          · exact ih u k row hrow
      | confirmLive t id raw stamp => exact hconfirm (hdoc raw rfl) hrow
      | refresh t id raw stamp =>
          simp only [TableWrite.apply] at hrow
          split_ifs at hrow
          · obtain ⟨held, hheld, hraw⟩ := raw_of_reprojectFieldData hrow
            rw [hraw]
            exact hconfirm (hdoc raw rfl) hheld
          · exact hconfirm (hdoc raw rfl) hrow
      | tombstone t id evidence reason mergedInto now => exact hold (raw_of_tombstone hrow)
      | recordMerger id raw stamp =>
          simp only [TableWrite.apply, Db.row?_put] at hrow
          split_ifs at hrow with hself
          · cases hrow
            exact .inr ⟨raw, hdoc raw rfl, storedFrom_refl u raw⟩
          · exact ih u k row hrow

/-- After any run of the mirror's operations every stored document is one that stood in its row
before, or one that PCO sent: in an answer to the mirror, in the answer to a request it forwarded or
in a delivery. Nothing of it is the mirror's own but the relationship to the owner. -/
theorem stored_from_sent (w : World) (calls : List MirrorCall) :
    Db.Attested (Sent w (Run.exec MirrorCall.perform w calls) calls) w.db
      (Run.exec MirrorCall.perform w calls).db :=
  (written_exec w calls).attested

end PcoMirror
