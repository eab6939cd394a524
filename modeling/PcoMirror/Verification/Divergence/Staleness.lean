import Mathlib.Data.List.Dedup
import PcoMirror.Model.Divergence.Rules
import PcoMirror.Verification.Writer.Operations

/-! What a verdict of staleness says of the differences it is given. -/

namespace PcoMirror.Divergence

open Program

variable {mirrorBody pcoBody : Json} {w : World} {d : Difference} {key : Key}
  {these those : List (Key × Json)}

/-! ## Records on both sides and on one -/

theorem lookup_isSome_of_mem {kv : Key × Json} {items : List (Key × Json)} (h : kv ∈ items) :
    (items.lookup kv.1).isSome = true := by
  rw [List.lookup_isSome_iff]
  exact ⟨kv, h, beq_self_eq_true kv.1⟩

theorem mem_sortKeys {keys : List Key} : key ∈ sortKeys keys ↔ key ∈ keys := by
  rw [sortKeys, List.mem_mergeSort, List.mem_dedup]

theorem mem_keys_iff {α : Type*} [BEq α] [LawfulBEq α] {name : α} {members : List (α × Json)} :
    name ∈ members.map (·.1) ↔ ∃ v, members.lookup name = some v := by
  rw [← Option.isSome_iff_exists, List.lookup_isSome_iff, List.mem_map]
  constructor
  · rintro ⟨kv, hkv, rfl⟩
    exact ⟨kv, hkv, beq_self_eq_true kv.1⟩
  · rintro ⟨kv, hkv, heq⟩
    exact ⟨kv, hkv, (eq_of_beq heq).symm⟩

theorem mem_sharedKeys :
    key ∈ sharedKeys these those ↔
      ∃ mine theirs, these.lookup key = some mine ∧ those.lookup key = some theirs := by
  rw [sharedKeys, List.mem_filter, mem_sortKeys, mem_keys_iff, Option.isSome_iff_exists]
  tauto

theorem mem_onlyIn :
    key ∈ onlyIn these those ↔ (∃ v, these.lookup key = some v) ∧ those.lookup key = none := by
  rw [onlyIn, List.mem_filter, mem_sortKeys, mem_keys_iff, Option.isNone_iff_eq_none]

/-- The records that PCO returned and the mirror did not, within the mirror's page. -/
def missing (mirrorBody pcoBody : Json) : List OneSided :=
  ((oneSided mirrorBody pcoBody).filter (!·.windowed)).filter (·.side = .pco)

/-- The record a difference is about. -/
def Pointer.record? : Pointer → Option Key
  | .attribute key _ | .relationship key _ | .member key | .sideload key => some key
  | .status | .data | .metaKey _ => none

/-- The mirror keeps the record's type, and what it holds of the record is older than PCO's copy
or nothing at all. -/
def Outdated (w : World) (one : OneSided) : Prop :=
  ∃ r, one.key.1.bind byType = some r ∧ ∀ row stored, w.db.row? r one.key.2 = some row →
    row.uat = some stored → ∃ uat, updatedAt one.resource = some (.str uat) ∧ stored < uat

/-- PCO's copy of the record is newer than the mirror's, or no write has brought it yet. -/
def Behind (w : World) (mirrorBody pcoBody : Json) (key : Key) : Prop :=
  (∃ mine theirs, (resources mirrorBody).lookup key = some mine ∧
    (resources pcoBody).lookup key = some theirs ∧ lags mine theirs = .ok true) ∨
  ∃ one ∈ missing mirrorBody pcoBody, one.key = key ∧ Outdated w one

/-- Lag explains the difference: the record it is about lags, or, where it is about none, some
record does. -/
def Explained (w : World) (mirrorBody pcoBody : Json) (d : Difference) : Prop :=
  match d.pointer.record? with
  | some key => Behind w mirrorBody pcoBody key
  | none => ∃ key, Behind w mirrorBody pcoBody key

theorem Explained.behind (h : Explained w mirrorBody pcoBody d)
    (hkey : d.pointer.record? = some key) : Behind w mirrorBody pcoBody key := by
  simpa only [Explained, hkey] using h

/-- An email, as either side sends it. -/
def emailAt (id time : String) (primary : Bool) : Json :=
  .obj [("type", .str "Email"), ("id", .str id),
    ("attributes", .obj [("primary", .bool primary), ("updated_at", .str time)])]

end PcoMirror.Divergence
