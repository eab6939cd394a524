import PcoMirror.Verification.Writer.Operations

/-! Merges are terminal: a person folded into another does not come back. -/

namespace PcoMirror

open Program

/-! ## Rows the cascade does not reach -/

theorem ownedFk_personMerger (t : Res) : ownedFk t .personMerger = none := by
  cases t <;> decide

theorem row?_tombstone_unowned {u : Res} (hu : ∀ t, ownedFk t u = none) (t : Res) (id : String)
    (evidence : Option Json) (reason : Reason) (mergedInto : Option String) (now : String)
    (db : Db) (k : String) :
    (tombstone t id evidence reason mergedInto now db).row? u k =
      if u = t ∧ k = id then
        (db.row? u k).map fun row => row.tombstoned (stableTs evidence) reason mergedInto now
      else db.row? u k := by
  rw [row?_tombstone, hu, ite_self]

/-- Tombstoned as merged, out of reach of any document. -/
def Row.MergedAway (row : Row) : Prop :=
  row.deletedAt.isSome = true ∧ row.tombstoneReason = some .merged

def Db.MergedAway (gone : String) (db : Db) : Prop :=
  ∃ row, db.row? .person gone = some row ∧ row.MergedAway

/-- A merge that removes the person has been applied, or the merger log holds it. -/
def MergeKnown (gone : String) (w : World) : Prop :=
  (.person, gone, .merged) ∈ w.tombstones ∨
    ∃ id row, w.db.row? .personMerger id = some row ∧ removedPerson row.raw = some gone

/-- A merge once known is in force. -/
def MergeInForce (gone : String) (w : World) : Prop :=
  MergeKnown gone w → w.db.MergedAway gone

theorem Row.MergedAway.not_revivedBy {row : Row} (h : row.MergedAway) (raw : Json) :
    row.revivedBy raw = false := by
  simp [Row.revivedBy, h.2]

theorem Row.MergedAway.upsert {row : Row} (h : row.MergedAway) (raw : Json) (w : Stamp) :
    (row.upsert raw w).MergedAway := by
  simpa [Row.MergedAway, Row.upsert, h.not_revivedBy raw] using h

/-- What the steps from one state to another keep: a known merge is in force, a person
merged away stays so, and no person or merger row disappears. -/
structure Onward (gone : String) (w₀ w : World) : Prop where
  inForce : MergeInForce gone w
  away : w₀.db.MergedAway gone → w.db.MergedAway gone
  present : (w₀.db.row? .person gone).isSome = true → (w.db.row? .person gone).isSome = true
  recorded : ∀ id, w.db.row? .personMerger id = none → w₀.db.row? .personMerger id = none

theorem Onward.refl {gone : String} {w : World} (h : MergeInForce gone w) :
    Onward gone w w :=
  ⟨h, fun h => h, fun h => h, fun _ h => h⟩

theorem Onward.trans {gone : String} {w₀ w₁ w₂ : World} (h₁ : Onward gone w₀ w₁)
    (h₂ : Onward gone w₁ w₂) : Onward gone w₀ w₂ where
  inForce := h₂.inForce
  away := fun h => h₂.away (h₁.away h)
  present := fun h => h₂.present (h₁.present h)
  recorded := fun id h => h₁.recorded id (h₂.recorded id h)

theorem Onward.ofTables (gone : String) (w₀ : World) : OfTables (Onward gone w₀) := by
  intro w w' hdb hlog h
  have hknown : MergeKnown gone w' → MergeKnown gone w := by
    rw [MergeKnown, MergeKnown, hdb, hlog]
    exact id
  exact ⟨fun hw => hdb ▸ h.inForce (hknown hw), fun hw => hdb ▸ h.away hw,
    fun hw => hdb ▸ h.present hw, fun k hk => h.recorded k (hdb ▸ hk)⟩

/-! ## One operation -/

end PcoMirror
