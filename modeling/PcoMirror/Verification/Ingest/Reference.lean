import PcoMirror.Model.Ingest.Sweep
import PcoMirror.Verification.Audit.Rows

/-! Reference lists: what a refresh takes for absent. -/

namespace PcoMirror

open Program

/-! ## Pages -/

/-- A page of a reference list: the answer and the documents read from it. -/
structure ListPage where
  resp : Response
  items : List Json

/-- What PCO answers a request for the list at an offset, where the page can be stored. -/
structure Env.Answered (env : Env) (r : Res) (tick off : ℕ) (page : ListPage) : Prop where
  answer : env.respond tick (.collection r { offset := some off }) = .ok page.resp
  items : (page.resp.document >>= dataOf >>= pyItems) = .ok page.items
  stored : ∀ d ∈ page.items, ∃ id, idOf d = .ok id

/-- The pages of a list from an offset on, up to the first short one; the clock is read
once for each document. -/
inductive Env.Reads (env : Env) (r : Res) : ℕ → ℕ → List ListPage → Prop
  | last {tick off : ℕ} {page : ListPage} (answered : env.Answered r tick off page)
      (short : page.items.length < 100) : Reads env r tick off [page]
  | more {tick off : ℕ} {page : ListPage} {pages : List ListPage}
      (answered : env.Answered r tick off page) (full : ¬ page.items.length < 100)
      (rest : Reads env r (tick + 1 + page.items.length) (off + 100) pages) :
      Reads env r tick off (page :: pages)

theorem Env.Answered.unique {env : Env} {r : Res} {tick off : ℕ} {page page' : ListPage}
    (h : env.Answered r tick off page) (h' : env.Answered r tick off page') : page = page' := by
  obtain ⟨resp, items⟩ := page
  obtain ⟨resp', items'⟩ := page'
  obtain rfl : resp = resp' := Except.ok.inj (h.answer.symm.trans h'.answer)
  obtain rfl : items = items' := Except.ok.inj (h.items.symm.trans h'.items)
  rfl

/-- PCO's answers determine the pages read. -/
theorem Env.Reads.unique {env : Env} {r : Res} {tick off : ℕ} {pages pages' : List ListPage}
    (h : env.Reads r tick off pages) (h' : env.Reads r tick off pages') : pages = pages' := by
  induction h generalizing pages' with
  | last answered short =>
      cases h' with
      | last answered' short' => rw [answered.unique answered']
      | more answered' full' rest' => exact absurd (answered.unique answered' ▸ short) full'
  | more answered full rest ih =>
      cases h' with
      | last answered' short' => exact absurd short' (answered.unique answered' ▸ full)
      | more answered' full' rest' =>
          obtain rfl := answered.unique answered'
          rw [ih rest']

/-- A document of the pages is stored under this id. -/
def ListsId (pages : List ListPage) (id : String) : Prop :=
  ∃ page ∈ pages, ∃ d ∈ page.items, idOf d = .ok id

/-- A document of the pages gives this id as text. -/
def NamesId (pages : List ListPage) (id : String) : Prop :=
  ∃ page ∈ pages, ∃ d ∈ page.items, d.member? "id" = some (.str id)

/-- The member an id is read from. -/
def idMember (d : Json) : Json :=
  (d.member? "id").getD .null

theorem itemId_of_idOf {d : Json} {id : String} (h : idOf d = .ok id) :
    d.member? "id" = some (idMember d) ∧ itemId d = .ok (idMember d) := by
  unfold idOf at h
  cases hmember : d.member? "id" with
  | none => simp [hmember] at h
  | some v =>
      have hitem : pyItem d "id" = .ok v := by
        cases d with
        | obj members =>
            have hlookup : members.lookup "id" = some v := hmember
            simp [pyItem, hlookup]
        | _ => cases hmember
      simp only [idMember, hmember, Option.getD_some, true_and]
      simp only [itemId, hitem, bind, Except.bind]
      cases v <;> simp_all [pure, Except.pure]

/-! ## Records -/

/-- The answers in the record. -/
def World.answers (w : World) : List (Except PyError Response) :=
  w.log.filterMap fun
    | .exchange _ answer => some answer
    | _ => none

/-- What reading and storing some pages has done. -/
structure Refreshed (r : Res) (answers : List Response) (docs : List Json) (w w' : World) :
    Prop where
  tick : w'.tick = w.tick + answers.length + docs.length
  live : ∀ id, w'.db.isLive r id = true ↔ w.db.isLive r id = true ∨ ∃ d ∈ docs, idOf d = .ok id
  kept : ∀ t id, w.db.isLive t id = true → w'.db.isLive t id = true
  tombstones : w'.tombstones = w.tombstones
  answers : w'.answers = (answers.map .ok).reverse ++ w.answers

variable {env : Env} {r : Res}

theorem Refreshed.refl (w : World) : Refreshed r [] [] w w :=
  ⟨rfl, by simp, fun _ _ h => h, rfl, rfl⟩

theorem Refreshed.trans {answers answers' : List Response} {docs docs' : List Json}
    {w w' w'' : World} (h : Refreshed r answers docs w w')
    (h' : Refreshed r answers' docs' w' w'') :
    Refreshed r (answers ++ answers') (docs ++ docs') w w'' where
  tick := by
    rw [h'.tick, h.tick, List.length_append, List.length_append]
    omega
  live := by
    intro id
    rw [h'.live, h.live, or_assoc]
    simp only [List.mem_append, or_and_right, exists_or]
  kept := fun t id hlive => h'.kept t id (h.kept t id hlive)
  tombstones := h'.tombstones.trans h.tombstones
  answers := by
    rw [h'.answers, h.answers, List.map_append, List.reverse_append, List.append_assoc]

/-! ## Single documents -/

/-- A confirmation brings its own row to life and buries none. -/
theorem isLive_confirmLive_of_isLive {db : Db} {t : Res} {id : String}
    (h : db.isLive t id = true) (u : Res) (k : String) (raw : Json) (stamp : Stamp) :
    (confirmLive u k raw stamp db).isLive t id = true := by
  by_cases hself : t = u ∧ id = k
  · obtain ⟨rfl, rfl⟩ := hself
    exact isLive_confirmLive t id raw stamp db
  · obtain ⟨held, hheld, hlive⟩ := Db.isLive_iff.mp h
    obtain ⟨value, hvalue⟩ := row?_settle_put u k stamp.now
      (confirmed raw stamp (db.row? u k)) db t id
    rw [← confirmLive_eq, if_neg hself, hheld] at hvalue
    refine Db.isLive_iff.mpr ?_
    split at hvalue
    · exact ⟨_, hvalue, hlive⟩
    · refine ⟨_, hvalue, ?_⟩
      simp only [Row.withTyped_deletedAt, Row.uncascade]
      split_ifs
      · rfl
      · exact hlive

theorem isLive_confirmLive_iff (t : Res) (id k : String) (raw : Json) (stamp : Stamp) (db : Db) :
    (confirmLive t k raw stamp db).isLive t id = true ↔ db.isLive t id = true ∨ k = id := by
  by_cases hself : id = k
  · subst hself
    simp [isLive_confirmLive]
  · have hrow := row?_confirmLive_ne (t := t) hself raw stamp db
    rw [Db.isLive, hrow, ← Db.isLive]
    simp [Ne.symm hself]

/-- Typed columns have no part in what is live. -/
theorem isLive_projectFieldDatum (id : String) (db : Db) (t : Res) (k : String) :
    (projectFieldDatum id db).isLive t k = db.isLive t k := by
  obtain ⟨value, hvalue⟩ := row?_projectFieldDatum id db t k
  rw [Db.isLive, hvalue, Db.isLive]
  cases db.row? t k <;> rfl

theorem isLive_reprojectFieldData (definitionId : String) (db : Db) (t : Res) (k : String) :
    (reprojectFieldData definitionId db).isLive t k = db.isLive t k := by
  have hfold : ∀ (ids : List String) (db : Db),
      (ids.foldl (fun db id => projectFieldDatum id db) db).isLive t k = db.isLive t k := by
    intro ids
    induction ids with
    | nil => exact fun _ => rfl
    | cons id ids ih =>
        intro db
        rw [List.foldl_cons, ih, isLive_projectFieldDatum]
  exact hfold _ db

variable (env r) in
theorem refreshOne_run {d : Json} {id : String} (h : idOf d = .ok id) (w : World) :
    ∃ w', (refreshOne env r d).run w = .ok () w' ∧ Refreshed r [] [d] w w' := by
  obtain ⟨hmember, -⟩ := itemId_of_idOf h
  have hitem : (pyItem d "id" >>= fun _ => idOf d) = .ok id := by
    cases d with
    | obj members =>
        have hlookup : members.lookup "id" = some (idMember (.obj members)) := hmember
        simp [pyItem, hlookup, bind, Except.bind, h]
    | _ => cases hmember
  have hlive : ∀ k, (confirmLive r id d ⟨.reconcile, env.apiVersion, env.now w.tick⟩ w.db).isLive r k =
      true ↔ w.db.isLive r k = true ∨ ∃ d' ∈ [d], idOf d' = .ok k := by
    intro k
    rw [isLive_confirmLive_iff]
    simp [h]
  have hkept : ∀ t k, w.db.isLive t k = true →
      (confirmLive r id d ⟨.reconcile, env.apiVersion, env.now w.tick⟩ w.db).isLive t k = true :=
    fun t k hk => isLive_confirmLive_of_isLive hk ..
  simp only [refreshOne, hitem, ofPy, pure_bind]
  by_cases hdefinition : r = .fieldDefinition
  · rw [if_pos hdefinition]
    refine ⟨_, rfl, rfl, fun k => ?_, fun t k hk => ?_, rfl, rfl⟩
    · exact (isLive_reprojectFieldData ..).symm ▸ hlive k
    · exact (isLive_reprojectFieldData ..).symm ▸ hkept t k hk
  · rw [if_neg hdefinition]
    exact ⟨_, rfl, rfl, hlive, hkept, rfl, rfl⟩

variable (env r) in
theorem refreshItems_run {docs : List Json} (h : ∀ d ∈ docs, ∃ id, idOf d = .ok id) (w : World) :
    ∃ w', (forEach (refreshOne env r) docs).run w = .ok () w' ∧ Refreshed r [] docs w w' := by
  induction docs generalizing w with
  | nil => exact ⟨w, rfl, Refreshed.refl w⟩
  | cons d docs ih =>
      obtain ⟨id, hid⟩ := h d (by simp)
      obtain ⟨w₁, hrun₁, hw₁⟩ := refreshOne_run env r hid w
      obtain ⟨w₂, hrun₂, hw₂⟩ := ih (fun d' hd' => h d' (by simp [hd'])) w₁
      refine ⟨w₂, ?_, hw₁.trans hw₂⟩
      rw [forEach, EStateM.run_bind, hrun₁]
      exact hrun₂

/-! ## Pages of a refresh -/

/-- The ids a page adds to what has been fetched. -/
def ListPage.names (page : ListPage) : List Json :=
  page.items.map idMember

theorem mapM_itemId_stored {docs : List Json} (h : ∀ d ∈ docs, ∃ id, idOf d = .ok id) :
    docs.mapM itemId = .ok (docs.map idMember) := by
  have hread : (docs.map id).mapM itemId = .ok (docs.map idMember) :=
    mapM_map_ok fun d hd => (itemId_of_idOf (h d hd).choose_spec).2
  rwa [List.map_id] at hread

/-- How a round of the listing ends. -/
def ListPage.pass (page : ListPage) (p : ReferencePass) : Pass ReferencePass (List Json) :=
  if page.items.length < 100 then .leave (p.fetched ++ page.names)
  else .again ⟨p.off + 100, p.fetched ++ page.names⟩

theorem Env.Answered.run {p : ReferencePass} {w : World} {page : ListPage}
    (h : env.Answered r w.tick p.off page) :
    ∃ w', (referencePage env r p).run w = .ok (page.pass p) w' ∧
      Refreshed r [page.resp] page.items w w' := by
  have hasked : Refreshed r [page.resp] [] w
      (w.asked env (.collection r { offset := some p.off })) := by
    refine ⟨rfl, by simp [World.asked], fun _ _ h => h, rfl, ?_⟩
    simp [World.answers, World.asked, h.answer]
  obtain ⟨w', hrun, hw'⟩ := refreshItems_run env r h.stored
    (w.asked env (.collection r { offset := some p.off }))
  refine ⟨w', ?_, hasked.trans hw'⟩
  obtain ⟨data, hread, hitems⟩ := except_bind_eq_ok.mp h.items
  obtain ⟨body, hbody, hdata⟩ := except_bind_eq_ok.mp hread
  simp only [referencePage]
  rw [clientGet_bind_run h.answer]
  simp only [hbody, hdata, hitems, ofPy, pure_bind]
  rw [EStateM.run_bind, hrun]
  simp only [mapM_itemId_stored h.stored, pure_bind, ListPage.pass, ListPage.names]
  split_ifs <;> rfl

/-- A listing read to its end leaves every document of it stored and fetched. -/
theorem Env.Reads.run {pages : List ListPage} {tick off : ℕ} (h : env.Reads r tick off pages)
    {fuel : ℕ} (hfuel : pages.length ≤ fuel) (fetched : List Json) {w : World}
    (htick : w.tick = tick) :
    ∃ w', (whileTrue .stopped (referencePage env r) fuel ⟨off, fetched⟩).run w =
        .ok (fetched ++ pages.flatMap ListPage.names) w' ∧
      Refreshed r (pages.map ListPage.resp) (pages.flatMap ListPage.items) w w' := by
  induction h generalizing fuel fetched w with
  | @last tick off page answered short =>
      subst htick
      obtain ⟨fuel, rfl⟩ := Nat.exists_eq_add_of_le hfuel
      obtain ⟨w', hrun, hw'⟩ := Env.Answered.run (p := ⟨off, fetched⟩) answered
      refine ⟨w', ?_, by simpa using hw'⟩
      rw [List.length_singleton, Nat.add_comm, whileTrue, EStateM.run_bind, hrun]
      simp [ListPage.pass, short]
  | @more tick off page pages answered full rest ih =>
      subst htick
      obtain ⟨fuel, rfl⟩ : ∃ n, fuel = n + 1 := ⟨fuel - 1, by simp at hfuel; omega⟩
      obtain ⟨w₁, hrun₁, hw₁⟩ := Env.Answered.run (p := ⟨off, fetched⟩) answered
      obtain ⟨w₂, hrun₂, hw₂⟩ := ih (show pages.length ≤ fuel by simpa using hfuel)
        (fetched ++ page.names) (w := w₁) (by simpa using hw₁.tick)
      refine ⟨w₂, ?_, by simpa using hw₁.trans hw₂⟩
      rw [whileTrue, EStateM.run_bind, hrun₁]
      simp only [ListPage.pass, full, if_false]
      rw [hrun₂, List.flatMap_cons, List.append_assoc]

/-- Nothing has been tombstoned. -/
structure Unharmed (w w' : World) : Prop where
  kept : ∀ t id, w.db.isLive t id = true → w'.db.isLive t id = true
  tombstones : w'.tombstones = w.tombstones
  answers : w.answers <:+ w'.answers

theorem Unharmed.trans {w w' w'' : World} (h : Unharmed w w') (h' : Unharmed w' w'') :
    Unharmed w w'' :=
  ⟨fun t id hlive => h'.kept t id (h.kept t id hlive), h'.tombstones.trans h.tombstones,
    h.answers.trans h'.answers⟩

variable (env r) in
/-- The replace half enters a tombstone for each id, and asks PCO nothing. -/
theorem run_tombstones (ids : List String) (w : World) :
    ∃ w', (forEach (fun id => tombstoneOne env r id none .absent) ids).run w = .ok () w' ∧
      w'.tombstones = (ids.map fun id => (r, id, Reason.absent)).reverse ++ w.tombstones ∧
      w'.answers = w.answers := by
  induction ids generalizing w with
  | nil => exact ⟨w, rfl, rfl, rfl⟩
  | cons id ids ih =>
      obtain ⟨w', hrun, htombstones, hanswers⟩ := ih
        (World.bury { w with tick := w.tick + 1 } r id none .absent none (env.now w.tick))
      refine ⟨w', ?_, ?_, hanswers⟩
      · rw [forEach, EStateM.run_bind, tombstoneOne_run]
        exact hrun
      · rw [htombstones]
        simp [World.bury, World.tombstones]

theorem idMember_eq_str {d : Json} {id : String} :
    idMember d = .str id ↔ d.member? "id" = some (.str id) := by
  unfold idMember
  cases d.member? "id" <;> simp

theorem mem_names {pages : List ListPage} {id : String} :
    .str id ∈ pages.flatMap ListPage.names ↔ NamesId pages id := by
  simp only [NamesId, ListPage.names, List.mem_flatMap, List.mem_map, idMember_eq_str]

theorem mem_items {pages : List ListPage} {id : String} :
    (∃ d ∈ pages.flatMap ListPage.items, idOf d = .ok id) ↔ ListsId pages id := by
  simp only [ListsId, List.mem_flatMap]
  exact ⟨fun ⟨d, ⟨page, hpage, hd⟩, hid⟩ => ⟨page, hpage, d, hd, hid⟩,
    fun ⟨page, hpage, d, hd, hid⟩ => ⟨d, ⟨page, hpage, hd⟩, hid⟩⟩

/-- What a refresh that has read its whole list tombstones: the rows live after it that no
document of the list names. -/
theorem Env.Reads.refresh {pages : List ListPage} {w : World} (h : env.Reads r w.tick 0 pages)
    {fuel : ℕ} (hfuel : pages.length ≤ fuel) :
    ∃ taken, (w.after (referenceRefresh env r fuel)).tombstones = taken ++ w.tombstones ∧
      (w.after (referenceRefresh env r fuel)).answers =
        ((pages.map ListPage.resp).map .ok).reverse ++ w.answers ∧
      (∀ e, e ∈ taken ↔ ∃ id, e = (r, id, .absent) ∧ ¬ NamesId pages id ∧
        (w.db.isLive r id = true ∨ ListsId pages id)) ∧
      (taken = [] → ∀ t id, w.db.isLive t id = true →
        (w.after (referenceRefresh env r fuel)).db.isLive t id = true) := by
  obtain ⟨w₁, hrun₁, hw₁⟩ := h.run hfuel [] rfl
  rw [List.nil_append] at hrun₁
  let ids := (w₁.db.select r fun _ row => row.live).filter
    fun id => !(pages.flatMap ListPage.names).contains (.str id)
  obtain ⟨w₂, hrun₂, htombstones, hanswers⟩ := run_tombstones env r ids w₁
  have hafter : w.after (referenceRefresh env r fuel) = w₂ := by
    refine World.after_of_run (a := (pages.flatMap ListPage.names).dedup.length) ?_
    rw [referenceRefresh, EStateM.run_bind, hrun₁]
    change (forEach (fun id => tombstoneOne env r id none .absent) ids >>= _).run w₁ = _
    rw [EStateM.run_bind, hrun₂]
    rfl
  have hids : ∀ id, id ∈ ids ↔ ¬ NamesId pages id ∧ (w.db.isLive r id = true ∨ ListsId pages id) := by
    intro id
    rw [← mem_names, ← mem_items, ← hw₁.live]
    simp only [ids, List.mem_filter, Db.mem_select, Db.isLive_iff]
    simp [Row.live, and_comm]
  refine ⟨(ids.map fun id => (r, id, Reason.absent)).reverse, ?_, ?_, fun e => ?_, fun hnone => ?_⟩
  · rw [hafter, htombstones, hw₁.tombstones]
  · rw [hafter, hanswers, hw₁.answers]
  · simp only [List.mem_reverse, List.mem_map, hids]
    exact exists_congr fun id => ⟨fun h => ⟨h.2.symm, h.1⟩, fun h => ⟨h.2, h.1.symm⟩⟩
  · have hempty : ids = [] := by simpa using hnone
    rw [hempty] at hrun₂
    cases hrun₂
    rw [hafter]
    exact hw₁.kept

end PcoMirror
