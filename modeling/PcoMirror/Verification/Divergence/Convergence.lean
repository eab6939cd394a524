import PcoMirror.Model.Divergence.Rules
import PcoMirror.Model.Ingest.Sweep
import PcoMirror.Verification.Ingest.Listing
import PcoMirror.Verification.Ingest.SweepUpdates
import PcoMirror.Verification.Webhooks.Events
import PcoMirror.Verification.Writer.Merge

/-! The checker's promise that a sweep will mend a record, against the sweep that runs. -/

namespace PcoMirror

open Program Divergence

variable {r : Res} {id uat : String} {d : Json} {env : Env} {w w' : World}

/-! ## A collection of one record -/

/-- A query that the record meets. -/
def Query.meets (q : Query) (uat : String) : Bool :=
  q.offset.getD 0 = 0 && q.gte.all fun f => decide (f.2 ≤ uat)

/-- PCO lists this record alone, wherever a query asks for it, and sideloads nothing. -/
def Offers (env : Env) (r : Res) (uat : String) (d : Json) : Prop :=
  ∀ tick q, ∃ status body, env.respond tick (.collection r q) = .ok ⟨status, .json body⟩ ∧
    body.member? "data" = some (.arr (if q.meets uat then [d] else [])) ∧
    pageIncluded body = .ok []

/-- The sweep of the resource hands the record to the writer. -/
def sweepRoutes (r : Res) (wm uat : String) : Prop :=
  wm = "" ∨ if r.info.supportsUatFilter then wm ≤ uat else wm < uat

theorem Offers.asked (h : Offers env r uat d) {q : Query} {resp : Response}
    (hget : (clientGet env (.collection r q)).run w = .ok resp w') :
    w'.db = w.db ∧ ∃ body, resp.document = .ok body ∧
      body.member? "data" = some (.arr (if q.meets uat then [d] else [])) ∧
      pageIncluded body = .ok [] := by
  obtain ⟨status, body, hanswer, hdata, hincluded⟩ := h w.tick q
  rw [clientGet_run, hanswer] at hget
  cases hget
  exact ⟨rfl, body, document_of_member? hdata status, hdata, hincluded⟩

theorem IsRecord.truthy (hd : IsRecord r id uat d) : d.truthy = true := by
  have htype := hd.type_eq
  cases d with
  | obj members =>
      cases members with
      | nil => cases htype
      | cons m ms => rfl
  | _ => cases htype

/-- The record's row is live and holds PCO's document. -/
def Db.Shows (db : Db) (r : Res) (id : String) (d : Json) : Prop :=
  ∃ row, db.row? r id = some row ∧ row.live = true ∧ row.raw = d

theorem IsRecord.updatedAt (hd : IsRecord r id uat d) : updatedAt d = some (.str uat) := by
  obtain ⟨attributes, hattributes, huat⟩ := Option.bind_eq_some_iff.mp hd.uat_eq
  obtain ⟨v, hv, hvalue⟩ := Option.bind_eq_some_iff.mp huat
  obtain rfl : v = .str uat := Option.some.inj hvalue
  rw [Divergence.updatedAt, objectAt, hattributes]
  cases attributes with
  | obj members => exact hv
  | _ => cases hv

theorem not_past_of_routes {wm : String} (h : sweepRoutes r wm uat) :
    ¬ (wm ≠ "" ∧ uat < wm) := by
  rintro ⟨hwm, hlt⟩
  have hroutes := h.resolve_left hwm
  split_ifs at hroutes
  · exact absurd hlt (not_lt.mpr hroutes)
  · exact absurd (hlt.trans hroutes) (lt_irrefl _)

end PcoMirror
