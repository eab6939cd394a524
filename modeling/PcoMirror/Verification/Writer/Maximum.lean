import Mathlib.Data.List.Perm.Subperm
import Mathlib.Data.Prod.Lex
import Mathlib.Order.WithBot
import PcoMirror.Lib.Run
import PcoMirror.Verification.Writer.Operations

/-! Upserts of one record keep the greatest of its documents: the newest, and of several as
new the one with the most relationships. -/

namespace PcoMirror

/-! ## The order on documents -/

/-- How good a copy a document is: its timestamp, then how many relationships it has. -/
def rank (raw : Json) : WithBot (String ×ₗ ℕ) :=
  (pcoUpdatedAt raw).map fun uat => toLex (uat, (relationshipKeys raw).length)

/-- The rank of what is stored, the least of all where nothing is. -/
def storedRank (row : Option Row) : WithBot (String ×ₗ ℕ) :=
  row.elim ⊥ fun row => rank row.raw

/-- A document with a text timestamp, and each relationship once. -/
structure Dated (raw : Json) : Prop where
  time : ∃ uat, raw.at? ["attributes", "updated_at"] = some (.str uat)
  distinct : (relationshipKeys raw).Nodup

/-- An object of relationships, as a dictionary decodes, or none at all. -/
def HasRelationships (raw : Json) : Prop :=
  raw.at? ["relationships"] = none ∨
    ∃ members, raw.at? ["relationships"] = some (.obj members) ∧ (members.map (·.1)).Nodup

theorem Dated.uat {raw : Json} (h : Dated raw) : ∃ uat, pcoUpdatedAt raw = some uat := by
  obtain ⟨uat, huat⟩ := h.time
  exact ⟨uat, by simp [pcoUpdatedAt, Json.textAt, huat, Json.text?]⟩

theorem HasRelationships.distinct {raw : Json} (h : HasRelationships raw) :
    (relationshipKeys raw).Nodup := by
  rcases h with hnone | ⟨members, hmembers, hnodup⟩
  · simp [relationshipKeys, Json.eachKeys, hnone]
  · have hkeys : relationshipKeys raw = (members.map (·.1)).map Json.EachKey.label := by
      simp [relationshipKeys, Json.eachKeys, hmembers]
    rw [hkeys]
    exact hnodup.map fun _ _ hlabel => by cases hlabel; rfl

/-- With every relationship of the stored copy, the incoming one has no fewer. -/
theorem length_le_of_covers {held incoming : Json} (hdistinct : (relationshipKeys held).Nodup)
    (h : (relationshipKeys held).all ((relationshipKeys incoming).contains ·) = true) :
    (relationshipKeys held).length ≤ (relationshipKeys incoming).length := by
  refine (List.subperm_of_subset hdistinct fun key hkey => ?_).length_le
  have hall := List.all_eq_true.mp h key hkey
  simpa using hall

theorem rank_of_uat {raw : Json} {uat : String} (h : pcoUpdatedAt raw = some uat) :
    rank raw = ((toLex (uat, (relationshipKeys raw).length) : String ×ₗ ℕ) : WithBot _) := by
  rw [rank, h]
  rfl

/-- The four branches of an upsert take the greater of two documents. -/
theorem rank_upsertRaw {held incoming : Json} (hheld : Dated held) (hincoming : Dated incoming) :
    rank (upsertRaw held incoming) = max (rank held) (rank incoming) := by
  obtain ⟨old, hold⟩ := hheld.uat
  obtain ⟨new, hnew⟩ := hincoming.uat
  have hle : rank held ≤ rank incoming ↔ old < new ∨ old = new ∧
      (relationshipKeys held).length ≤ (relationshipKeys incoming).length := by
    rw [rank_of_uat hold, rank_of_uat hnew, WithBot.coe_le_coe, Prod.Lex.toLex_le_toLex]
  have hge : rank incoming ≤ rank held ↔ new < old ∨ new = old ∧
      (relationshipKeys incoming).length ≤ (relationshipKeys held).length := by
    rw [rank_of_uat hold, rank_of_uat hnew, WithBot.coe_le_coe, Prod.Lex.toLex_le_toLex]
  simp only [upsertRaw, hold, hnew, Sql.gt_some]
  split_ifs with hnewer holder hcovers hmore
  · exact (max_eq_right (hle.mpr (.inl hnewer))).symm
  · exact (max_eq_left (hge.mpr (.inl holder))).symm
  · have hsame : old = new := le_antisymm (not_lt.mp holder) (not_lt.mp hnewer)
    exact (max_eq_right (hle.mpr (.inr ⟨hsame, length_le_of_covers hheld.distinct hcovers⟩))).symm
  · have hsame : old = new := le_antisymm (not_lt.mp holder) (not_lt.mp hnewer)
    exact (max_eq_right (hle.mpr (.inr ⟨hsame, hmore.le⟩))).symm
  · have hsame : new = old := le_antisymm (not_lt.mp hnewer) (not_lt.mp holder)
    exact (max_eq_left (hge.mpr (.inr ⟨hsame, not_lt.mp hmore⟩))).symm

/-! ## Runs of upserts -/

/-- Every document of an upsert is dated, and a dictionary. -/
def Upserts (payloads : List (Json × Stamp)) : Prop :=
  ∀ p ∈ payloads, (∃ uat, p.1.at? ["attributes", "updated_at"] = some (.str uat)) ∧
    HasRelationships p.1

/-- The row of one record after an upsert of it. -/
def upsertOnto (t : Res) (id : String) (db : Db) (p : Json × Stamp) : Db :=
  upsert t id p.1 p.2 db

def Db.rankAt (db : Db) (t : Res) (id : String) : WithBot (String ×ₗ ℕ) :=
  storedRank (db.row? t id)

/-- What is stored under a key, if anything, is dated. -/
def Db.DatedAt (db : Db) (t : Res) (id : String) : Prop :=
  ∀ row, db.row? t id = some row → Dated row.raw

theorem upsertRaw_dated {held incoming : Json} (hheld : Dated held) (hincoming : Dated incoming) :
    Dated (upsertRaw held incoming) := by
  rcases upsertRaw_eq_or held incoming with h | h <;> rwa [h]

/-- One upsert leaves the greater of what is stored and what it brings. -/
theorem rankAt_upsert {t : Res} {id : String} {db : Db} {p : Json × Stamp} (hdb : db.DatedAt t id)
    (hp : Dated p.1) : (upsertOnto t id db p).DatedAt t id ∧
      (upsertOnto t id db p).rankAt t id = max (db.rankAt t id) (rank p.1) := by
  obtain ⟨value, hvalue⟩ := row?_upsert_self t id p.1 p.2 db
  rw [Db.DatedAt, Db.rankAt, Db.rankAt, upsertOnto, hvalue]
  cases hrow : db.row? t id with
  | none =>
      refine ⟨fun row hrow' => ?_, ?_⟩
      · cases hrow'
        exact hp
      · exact (max_bot_left _).symm
  | some row =>
      refine ⟨fun row' hrow' => ?_, ?_⟩
      · cases hrow'
        exact upsertRaw_dated (hdb row hrow) hp
      · exact rank_upsertRaw (hdb row hrow) hp

theorem Upserts.dated {payloads : List (Json × Stamp)} (h : Upserts payloads) :
    ∀ p ∈ payloads, Dated p.1 :=
  fun p hp => ⟨(h p hp).1, (h p hp).2.distinct⟩

/-- However the documents of one record arrive and however often, the stored copy only gets
better, and ends up the greatest of them and of what was there. -/
theorem upsert_maximum (t : Res) (id : String) (db : Db) (hdb : db.DatedAt t id)
    (payloads : List (Json × Stamp)) (hpayloads : Upserts payloads) :
    (∀ n, (Run.exec (upsertOnto t id) db (payloads.take n)).rankAt t id ≤
      (Run.exec (upsertOnto t id) db (payloads.take (n + 1))).rankAt t id) ∧
    IsGreatest {a | a = db.rankAt t id ∨ ∃ p ∈ payloads, a = rank p.1}
      ((Run.exec (upsertOnto t id) db payloads).rankAt t id) ∧
    ∀ payloads' : List (Json × Stamp), (∀ p, p ∈ payloads' ↔ p ∈ payloads) →
      (Run.exec (upsertOnto t id) db payloads').rankAt t id =
        (Run.exec (upsertOnto t id) db payloads).rankAt t id := by
  have hgreatest : ∀ payloads : List (Json × Stamp), (∀ p ∈ payloads, Dated p.1) →
      IsGreatest {a | a = db.rankAt t id ∨ ∃ p ∈ payloads, a = rank p.1}
        ((Run.exec (upsertOnto t id) db payloads).rankAt t id) := fun payloads hall =>
    Run.exec_isGreatest (I := fun db => db.DatedAt t id) (fun db : Db => db.rankAt t id)
      (fun p => rank p.1) hall hdb fun _ _ h hp => rankAt_upsert h hp
  have hdated := hpayloads.dated
  refine ⟨fun n => ?_, hgreatest payloads hdated, fun payloads' hsame => ?_⟩
  · have hfront : (Run.exec (upsertOnto t id) db (payloads.take n)).DatedAt t id :=
      (Run.each_of_mem fun p hp => hdated p (List.mem_of_mem_take hp)).invariant
        (I := (Db.DatedAt · t id)) hdb fun _ _ h hp => (rankAt_upsert h hp).1
    rw [List.take_add_one, Run.exec_append]
    cases hp : payloads[n]? with
    | none => exact le_rfl
    | some p =>
        change _ ≤ (upsertOnto t id _ p).rankAt t id
        rw [(rankAt_upsert hfront (hdated p (List.mem_of_getElem? hp))).2]
        exact le_max_left _ _
  · have hgreatest' := hgreatest payloads' fun p hp => hdated p ((hsame p).mp hp)
    simp only [hsame] at hgreatest'
    exact hgreatest'.unique (hgreatest payloads hdated)

/-- Two copies of a person at one timestamp, the second without the first's relationship. -/
theorem upsert_maximum_thin :
    IsGreatest {a | a = Db.empty.rankAt .person "1" ∨
        ∃ p ∈ [(document "Person" "1" "2024-03-01T00:00:00Z" [("emails", .null)],
            (⟨.backfill, "2024-01-31", "2024-03-01T00:00:05Z"⟩ : Stamp)),
          (document "Person" "1" "2024-03-01T00:00:00Z" [],
            ⟨.reconcile, "2024-01-31", "2024-03-01T00:00:06Z"⟩)], a = rank p.1}
      ((Run.exec (upsertOnto .person "1") Db.empty
        [(document "Person" "1" "2024-03-01T00:00:00Z" [("emails", .null)],
            ⟨.backfill, "2024-01-31", "2024-03-01T00:00:05Z"⟩),
          (document "Person" "1" "2024-03-01T00:00:00Z" [],
            ⟨.reconcile, "2024-01-31", "2024-03-01T00:00:06Z"⟩)]).rankAt .person "1") := by
  refine (upsert_maximum .person "1" .empty (fun _ hrow => by cases hrow) _ fun p hp => ?_).2.1
  simp only [List.mem_cons, List.not_mem_nil, or_false] at hp
  rcases hp with rfl | rfl
  · exact ⟨⟨_, rfl⟩, .inr ⟨_, rfl, by decide⟩⟩
  · exact ⟨⟨_, rfl⟩, .inr ⟨_, rfl, by decide⟩⟩

end PcoMirror
