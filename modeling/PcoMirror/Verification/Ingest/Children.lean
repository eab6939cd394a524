import PcoMirror.Verification.Ingest.Rereads

/-! Which children of a person are live after the person has been re-read: the sideloaded ones
and those still claimed, where no guard and no revival stands against it. -/

namespace PcoMirror

open Program

variable {env : Env} {id : String} {asked : List String} {resp : Response} {record : Json}
  {included : List Json} {child : Res} {k : String} {db : Db} {w : World}

/-! ## The condition -/

/-- A child tombstoned with its person comes back with them. -/
def Db.Returns (db : Db) (id : String) (record : Json) (child : Res) (k : String) : Prop :=
  db.comesOut id record = true ∧ ∃ row, db.row? child k = some row ∧ row.live = false ∧
    row.tombstoneReason = some .ownerDeleted ∧ child.column "person_pco_id" row.raw = some id

/-- A sideloaded document, as it would be stored, makes a live row that names the person: the
row is live already, or comes back with the person, or the document is newer than its tombstone,
and whichever document the guard keeps names the person. -/
def Db.Lands (db : Db) (id : String) (record : Json) (child : Res) (k : String) (stored : Json) :
    Prop :=
  match db.row? child k with
  | none => child.column "person_pco_id" stored = some id
  | some row => (row.live = true ∨ db.Returns id record child k ∨ row.revivedBy stored = true) ∧
      child.column "person_pco_id" (upsertRaw row.raw stored) = some id

/-- A sideloaded child is taken up: its document lands, or it is too thin to be stored and the
child needs no document. -/
def Db.TakesUp (db : Db) (id : String) (record : Json) (child : Res) (k : String) (d : Json) :
    Prop :=
  match routeTarget d (some (ownerHint .person id)) [] with
  | .ok (some (_, _, stored)) => db.Lands id record child k stored
  | _ => db.childOf child id k ∨ db.Returns id record child k

/-! ## Rows -/

theorem Db.Returns.not_childOf (h : db.Returns id record child k) : ¬ db.childOf child id k := by
  obtain ⟨-, row, hrow, hdead, -⟩ := h
  rintro ⟨row', hrow', hlive, -⟩
  cases hrow.symm.trans hrow'
  rw [hdead] at hlive
  cases hlive

/-- A child's row once the person's record has been routed: revived, or as it was. -/
theorem row_of_upsert_person (id : String) (record : Json) (stamp : Stamp)
    (hchild : child.info.ownerRel = some "person")
    {row : Row} (hrow : db.row? child k = some row) :
    ∃ row₁, (upsert .person id record stamp db).row? child k = some row₁ ∧ row₁.raw = row.raw ∧
      (db.Returns id record child k ∧ row₁.live = true ∨
        ¬ db.Returns id record child k ∧ row₁.live = row.live ∧ (row.live = false → row₁ = row)) := by
  rw [row?_upsert_person hchild, hrow, Option.map_some]
  refine ⟨_, rfl, ?_, ?_⟩
  · split_ifs
    · unfold Row.uncascade
      split_ifs <;> rfl
    · rfl
  · by_cases hreturns : db.Returns id record child k
    · obtain ⟨hout, row', hrow', hdead, hreason, hcolumn⟩ := hreturns
      cases hrow.symm.trans hrow'
      refine .inl ⟨⟨hout, row, hrow, hdead, hreason, hcolumn⟩, ?_⟩
      simp [hout, Row.uncascade, hreason, hcolumn, Row.live]
    · refine .inr ⟨hreturns, ?_⟩
      split_ifs with hout
      · unfold Row.uncascade
        split_ifs with howned
        · have hlive : row.live = true := by
            by_contra hdead
            exact hreturns ⟨hout, row, hrow, by simpa using hdead, howned.2, howned.1⟩
          refine ⟨?_, fun hdead => ?_⟩
          · rw [hlive]
            rfl
          · rw [hdead] at hlive
            cases hlive
        · exact ⟨rfl, fun _ => rfl⟩
      · exact ⟨rfl, fun _ => rfl⟩

theorem childOf_upsert_person (hchild : child.info.ownerRel = some "person") (stamp : Stamp) :
    (upsert .person id record stamp db).childOf child id k ↔
      db.childOf child id k ∨ db.Returns id record child k := by
  cases hrow : db.row? child k with
  | none =>
      have hnone : (upsert .person id record stamp db).row? child k = none := by
        rw [row?_upsert_person hchild, hrow]
        rfl
      constructor
      · rintro ⟨row, hheld, -⟩
        cases hnone.symm.trans hheld
      · rintro (⟨row, hheld, -⟩ | ⟨-, row, hheld, -⟩) <;> cases hrow.symm.trans hheld
  | some row =>
      obtain ⟨row₁, hrow₁, hraw, hcases⟩ :=
        row_of_upsert_person id record stamp hchild hrow
      have hafter : (upsert .person id record stamp db).childOf child id k ↔
          row₁.live = true ∧ child.column "person_pco_id" row.raw = some id := by
        simp [Db.childOf, hrow₁, hraw]
      have hbefore : db.childOf child id k ↔
          row.live = true ∧ child.column "person_pco_id" row.raw = some id := by
        simp [Db.childOf, hrow]
      rw [hafter, hbefore]
      rcases hcases with ⟨hreturns, hlive⟩ | ⟨hreturns, hlive, -⟩
      · have hreturned := hreturns
        obtain ⟨-, row', hrow', -, -, hcolumn⟩ := hreturned
        cases hrow.symm.trans hrow'
        exact iff_of_true ⟨hlive, hcolumn⟩ (.inr hreturns)
      · rw [hlive]
        exact ⟨.inl, fun h => h.resolve_right hreturns⟩

/-- What an upsert leaves of a child's row is a live row of the person exactly where the
document lands. -/
theorem lands_iff (hchild : child.info.ownerRel = some "person") {stored : Json}
    (stamp stamp' : Stamp) :
    (upserted stored stamp' ((upsert .person id record stamp db).row? child k)).live = true ∧
      child.column "person_pco_id"
        (upserted stored stamp' ((upsert .person id record stamp db).row? child k)).raw = some id ↔
    db.Lands id record child k stored := by
  rw [Db.Lands]
  cases hrow : db.row? child k with
  | none =>
      have hnone : (upsert .person id record stamp db).row? child k = none := by
        rw [row?_upsert_person hchild, hrow]
        rfl
      rw [hnone, upserted_none]
      exact ⟨fun h => h.2, fun h => ⟨rfl, h⟩⟩
  | some row =>
      obtain ⟨row₁, hrow₁, hraw, hcases⟩ :=
        row_of_upsert_person id record stamp hchild hrow
      have hupserted : (upserted stored stamp' (some row₁)).raw = upsertRaw row.raw stored := by
        rw [upserted_some, ← hraw]
        rfl
      rw [hrow₁, hupserted, live_upserted, Option.all_some, Bool.or_eq_true]
      rcases hcases with ⟨hreturns, hlive⟩ | ⟨hreturns, hlive, hsame⟩
      · simp [hlive, hreturns]
      · cases hdead : row.live with
        | true => simp [hlive, hdead]
        | false => simp [hreturns, hsame hdead, hdead]

/-! ## The re-read -/

theorem IsResource.unique {d : Json} {type type' k k' : String} (h : IsResource d type k)
    (h' : IsResource d type' k') : type = type' ∧ k = k' := by
  have htype := h.type_eq.symm.trans h'.type_eq
  have hid := h.id_eq.symm.trans h'.id_eq
  cases htype
  cases hid
  exact ⟨rfl, rfl⟩

/-- Documents none of which is stored in the child's row leave it alone. -/
theorem IsPersonAnswer.unrouted (h : IsPersonAnswer id asked resp record included)
    (hchild : child.info.ownerRel = some "person") {ds : List Json} (hds : ds ⊆ included)
    (hother : ∀ d ∈ ds, IsResource d child.info.type k → ∀ stored,
      routeTarget d (some (ownerHint .person id)) [] ≠ .ok (some (child, k, stored))) :
    Unrouted (some (ownerHint .person id)) ds child k := by
  intro d hd t k' stored htarget
  obtain ⟨type, k₀, hdoc, hled⟩ := h.resource d (hds hd)
  obtain ⟨rfl, rfl⟩ := hdoc.of_routeTarget htarget
  refine ⟨?_, ?_⟩
  · rw [ownedFk_of_ownerRel hchild, if_neg]
    rintro rfl
    exact not_ledTo_person hled
  · rintro ⟨rfl, rfl⟩
    exact hother d hd hdoc stored htarget

/-- A resource is sideloaded once. -/
theorem IsPersonAnswer.once (h : IsPersonAnswer id asked resp record included) {type : String}
    {d d' : Json} (hd : d ∈ included) (hd' : d' ∈ included) (hdoc : IsResource d type k)
    (hdoc' : IsResource d' type k) : d = d' := by
  refine List.inj_on_of_nodup_map h.nodup hd hd' ?_
  rw [hdoc.type_eq, hdoc.id_eq, hdoc'.type_eq, hdoc'.id_eq]

/-- The children live after the sideloads. -/
theorem childOf_sideloads (h : IsPersonAnswer id asked resp record included)
    (hchild : child.info.ownerRel = some "person") {w₁ w₂ : World} {stamp : Stamp}
    (hw₁ : w₁.db = upsert .person id record stamp w.db)
    (hrun : (forEach (routeOne env .reconcile (some (ownerHint .person id)) []) included).run w₁ =
      .ok () w₂) :
    (∀ d ∈ included, IsResource d child.info.type k →
      (w₂.db.childOf child id k ↔ w.db.TakesUp id record child k d)) ∧
    (¬ Sideloads included child k →
      (w₂.db.childOf child id k ↔ w.db.childOf child id k ∨ w.db.Returns id record child k)) := by
  have hfirst : w₁.db.childOf child id k ↔
      w.db.childOf child id k ∨ w.db.Returns id record child k := by
    rw [hw₁]
    exact childOf_upsert_person hchild stamp
  have hkept : Unrouted (some (ownerHint .person id)) included child k →
      (w₂.db.childOf child id k ↔ w.db.childOf child id k ∨ w.db.Returns id record child k) := by
    intro hunrouted
    obtain ⟨w', hrun', hrows⟩ := run_sideloads env .reconcile h.routable w₁
    cases hrun.symm.trans hrun'
    rw [Db.childOf_congr (hrows child k hunrouted), hfirst]
  refine ⟨fun d hd hdoc => ?_, fun hnot => hkept (h.unrouted hchild (List.Subset.refl _)
    fun d hd hdoc => absurd ⟨d, hd, hdoc⟩ hnot)⟩
  obtain ⟨target, htarget⟩ := h.routable d hd
  cases target with
  | none =>
      rw [Db.TakesUp, htarget]
      refine hkept (h.unrouted hchild (List.Subset.refl _) fun d' hd' hdoc' stored hstored => ?_)
      rw [h.once hd' hd hdoc' hdoc, htarget] at hstored
      cases hstored
  | some target =>
      obtain ⟨t, k', stored⟩ := target
      obtain ⟨htype, rfl⟩ := hdoc.of_routeTarget htarget
      obtain rfl : t = child := by
        have hfound := byType_type t
        rw [htype, byType_type] at hfound
        exact (Option.some.inj hfound).symm
      obtain ⟨pre, post, rfl⟩ := List.append_of_mem hd
      have hnodup : (pre ++ d :: post).Nodup := h.nodup.of_map _
      have hapart : ∀ ds, ds ⊆ pre ++ d :: post → d ∉ ds →
          Unrouted (some (ownerHint .person id)) ds t k' := by
        intro ds hds hnot
        refine h.unrouted hchild hds fun d' hd' hdoc' => ?_
        exact absurd (h.once (hds hd') hd hdoc' hdoc ▸ hd') hnot
      obtain ⟨w', stamp', value, hrun', hrow⟩ := run_sideloads_row env .reconcile
        hchild h.routable htarget
        (hapart pre (by simp) fun hpre => (List.disjoint_of_nodup_append hnodup) hpre (by simp))
        (hapart post (by simp) (List.nodup_cons.mp (List.nodup_append.mp hnodup).2.1).1) w₁
      cases hrun.symm.trans hrun'
      rw [Db.TakesUp, htarget]
      simp only
      rw [← lands_iff hchild stamp stamp', ← hw₁]
      simp [Db.childOf, hrow, Row.live]

/-- After a re-read the live children of each kind asked for are the sideloaded ones and those
that were live and are still claimed, exactly where every sideloaded child is taken up and no
child that comes back with its person is claimed without being sideloaded. -/
theorem children_settled_iff (h : IsPersonAnswer id asked resp record included)
    (hresp : env.respond w.tick (.record .person id asked) = .ok resp)
    (hchild : child ∈ askedChildren asked) :
    ∃ w', (hydrate env .person id asked).run w = .ok () w' ∧
      ((∀ k, w'.db.childOf child id k ↔
          Sideloads included child k ∨ w.db.childOf child id k ∧ Claims record child k) ↔
        ∀ k, (∀ d ∈ included, IsResource d child.info.type k → w.db.TakesUp id record child k d) ∧
          (w.db.Returns id record child k → Claims record child k →
            Sideloads included child k)) := by
  have howner := ownerRel_of_mem_askedChildren hchild
  obtain ⟨claimed, hclaimed⟩ := h.relations
  obtain ⟨uat, hrecord⟩ := h.person
  obtain ⟨w₂, hrun₂, -⟩ := run_sideloads env .reconcile h.routable
    (w.personStored env id asked resp record)
  obtain ⟨w', hrun', -, hdiff⟩ := run_includeDiff env asked hrecord.id_eq hclaimed
    (fun d hd => (h.resource d hd).imp fun type ⟨k, hdoc, _⟩ => ⟨k, hdoc⟩) w₂
  refine ⟨w', run_hydrate_person h hresp ?_, forall_congr' fun k => ?_⟩
  · rw [run_bind_of_ok hrun₂, hrun']
  · obtain ⟨hsideloaded, hleft⟩ := childOf_sideloads (k := k) h howner (personStored_db h w) hrun₂
    rw [hdiff child hchild k]
    by_cases hside : Sideloads included child k
    · obtain ⟨d, hd, hdoc⟩ := hside
      have hall : (∀ d' ∈ included, IsResource d' child.info.type k →
          w.db.TakesUp id record child k d') ↔ w.db.TakesUp id record child k d := by
        refine ⟨fun htakes => htakes d hd hdoc, fun htakes d' hd' hdoc' => ?_⟩
        rwa [h.once hd' hd hdoc' hdoc]
      have hside : Sideloads included child k := ⟨d, hd, hdoc⟩
      rw [hall, hsideloaded d hd hdoc]
      simp [hside]
    · have hnone : ∀ d ∈ included, ¬ IsResource d child.info.type k :=
        fun d hd hdoc => hside ⟨d, hd, hdoc⟩
      rw [hleft hside]
      have hapart : w.db.Returns id record child k → ¬ w.db.childOf child id k :=
        Db.Returns.not_childOf
      simp only [hside, false_or, imp_false]
      constructor
      · refine fun hiff => ⟨fun d hd hdoc => absurd hdoc (hnone d hd), fun hreturns hclaims => ?_⟩
        exact hapart hreturns (hiff.mp ⟨.inr hreturns, hclaims⟩).1
      · rintro ⟨-, hnot⟩
        constructor
        · rintro ⟨hlive | hreturns, hclaims⟩
          · exact ⟨hlive, hclaims⟩
          · exact absurd hclaims (hnot hreturns)
        · exact fun hlive => ⟨.inl hlive.1, hlive.2⟩

/-! ## An email that is back -/

/-- A person with the relationships of a whole copy, as of March. -/
def marchRecord : Json :=
  document "Person" "1" "2024-03-01T00:00:00Z"
    [("emails", .obj [("data", .arr [.obj [("type", .str "Email"), ("id", .str "2")]])])]

def marchEmail : Json :=
  document "Email" "2" "2024-03-01T00:00:00Z" [("person", linkage "Person" "1")]

/-- PCO has the person and their email. -/
def marchAnswer : Response :=
  ⟨200, .json (.obj [("data", marchRecord), ("included", .arr [marchEmail])])⟩

def marchEnv : Env :=
  { quietEnv with respond := fun _ _ => .ok marchAnswer }

theorem marchAnswer_isPersonAnswer :
    IsPersonAnswer "1" ["emails"] marchAnswer marchRecord [marchEmail] where
  ok := by decide
  record_eq := by decide +kernel
  included_eq := by decide +kernel
  person := ⟨"2024-03-01T00:00:00Z", by decide +kernel, by decide +kernel, by decide +kernel,
    by decide⟩
  relations := ⟨_, rfl⟩
  resource := by
    intro d hd
    obtain rfl := List.mem_singleton.mp hd
    exact ⟨"Email", "2", ⟨by decide +kernel, by decide +kernel⟩, "emails", by decide,
      { target := .email, kind := .many, childFk := some "person_pco_id" }, rfl, by decide⟩
  routable := by
    intro d hd
    obtain rfl := List.mem_singleton.mp hd
    exact ⟨some (.email, "2", marchEmail), by decide +kernel⟩
  nodup := by decide

/-- An empty mirror takes the person and the email up. -/
theorem children_settled_iff_empty :
    ∃ w', (hydrate marchEnv .person "1" ["emails"]).run {} = .ok () w' ∧
      ∀ k, w'.db.childOf .email "1" k ↔ Sideloads [marchEmail] .email k ∨
        Db.empty.childOf .email "1" k ∧ Claims marchRecord .email k := by
  have hresp : marchEnv.respond 0 (.record .person "1" ["emails"]) = .ok marchAnswer := rfl
  have hemail : Res.email ∈ askedChildren ["emails"] := by decide
  obtain ⟨w', hrun, hiff⟩ := children_settled_iff (w := {}) marchAnswer_isPersonAnswer hresp hemail
  refine ⟨w', hrun, hiff.mpr fun k => ⟨fun d hd hdoc => ?_, fun hreturns => ?_⟩⟩
  · obtain rfl := List.mem_singleton.mp hd
    have hid := hdoc.id_eq
    have hemail : marchEmail.member? "id" = some (.str "2") := by decide +kernel
    rw [hemail] at hid
    cases hid
    have htarget : routeTarget marchEmail (some (ownerHint .person "1")) [] =
        .ok (some (.email, "2", marchEmail)) := by decide +kernel
    rw [Db.TakesUp, htarget]
    change Res.email.column "person_pco_id" marchEmail = some "1"
    decide +kernel
  · obtain ⟨-, row, hrow, -⟩ := hreturns
    have hnone : (none : Option Row) = some row := hrow
    cases hnone

/-- The email was once left out of an answer. -/
def buriedEmail : World :=
  { db := (Db.empty.put .person "1" (Row.fresh marchRecord ⟨.reconcile, "2024-01-31", "2024-03-02T00:00:00Z"⟩)).put
      .email "2" ((Row.fresh marchEmail ⟨.reconcile, "2024-01-31", "2024-03-02T00:00:00Z"⟩).tombstone
        none .absent none "2024-03-02T01:00:00Z") }

/-- Included again, at the timestamp it had, it stays tombstoned. -/
theorem children_not_settled :
    ¬ ∀ (env : Env) (id : String) (asked : List String) (resp : Response) (record : Json)
      (included : List Json) (child : Res) (w : World),
      IsPersonAnswer id asked resp record included →
      env.respond w.tick (.record .person id asked) = .ok resp → child ∈ askedChildren asked →
      ∃ w', (hydrate env .person id asked).run w = .ok () w' ∧
        ∀ k, w'.db.childOf child id k ↔
          Sideloads included child k ∨ w.db.childOf child id k ∧ Claims record child k := by
  intro h
  obtain ⟨w', hrun, hiff⟩ := h marchEnv "1" ["emails"] marchAnswer marchRecord [marchEmail] .email
    buriedEmail marchAnswer_isPersonAnswer rfl (by decide)
  obtain ⟨row, hrow, hlive, -⟩ :=
    (hiff "2").mpr (.inl ⟨marchEmail, by simp, by decide +kernel, by decide +kernel⟩)
  have hdead : (buriedEmail.after (hydrate marchEnv .person "1" ["emails"])).db.isLive .email "2" =
      false := by
    decide +kernel
  rw [World.after_of_run hrun, Db.isLive, hrow, Option.any_some, hlive] at hdead
  cases hdead

end PcoMirror
