import PcoMirror.Model.Ingest.Repair
import PcoMirror.Verification.Ingest.Copies
import PcoMirror.Verification.Ingest.Queueing

/-! The far ends of edges: what the declared includes lead to, which of those rows re-reads
leave settled, and where the documents stored come from. -/

namespace PcoMirror

open Program

variable {env : Env} {id : String} {w : World} {t : Res} {k : String} {db db' : Db} {raw : Json}

/-! ## Edges -/

/-- The ids a copy names under a relationship: those it lists, or the one there is. -/
def namedIds (rel : Rel) (raw : Json) (name : String) : List String :=
  if rel.kind = .one then (raw.textAt ["relationships", name, "data", "id"]).toList
  else linkedIds raw name

/-- A declared include that is a relationship. -/
def Includes (r : Res) (name : String) (rel : Rel) : Prop :=
  name ∈ r.info.includes ∧ r.info.relationships.lookup name = some rel

/-- Every id that a live record names under a declared include has a live row; the children
only a walk reaches are left aside. -/
def Db.Resolves (db : Db) : Prop :=
  ∀ r id row, db.row? r id = some row → row.live = true → ∀ name rel, Includes r name rel →
    rel.target.info.method ≠ .nestedWalk → ∀ k ∈ namedIds rel row.raw name,
      db.isLive rel.target k = true

/-- What the declared includes lead to. -/
def linkTargets : List Res :=
  [.email, .phoneNumber, .address, .fieldDatum, .household, .campus, .maritalStatus,
    .fieldDefinition]

theorem Includes.target {r : Res} {name : String} {rel : Rel} (h : Includes r name rel) :
    rel.target ∈ linkTargets := by
  obtain ⟨hname, hrel⟩ := h
  have hall : ∀ r : Res, ∀ name ∈ r.info.includes,
      ((r.info.relationships.lookup name).all fun rel => decide (rel.target ∈ linkTargets)) = true := by
    intro r
    cases r <;> decide
  simpa [hrel] using hall r name hname

theorem Includes.mem_danglingEdges {r : Res} {name : String} {rel : Rel} (h : Includes r name rel)
    (hkind : rel.kind ≠ .one) : (name, rel) ∈ danglingEdges r := by
  obtain ⟨hname, hrel⟩ := h
  refine List.mem_filterMap.mpr ⟨name, hname, ?_⟩
  rw [hrel, Option.bind_some, if_pos]
  cases hrel : rel.kind with
  | many => exact .inl rfl
  | json => exact .inr rfl
  | one => exact absurd hrel hkind

theorem includes_of_mem_danglingEdges {r : Res} {e : String × Rel} (h : e ∈ danglingEdges r) :
    Includes r e.1 e.2 ∧ e.2.kind ≠ .one := by
  obtain ⟨name, hname, hkept⟩ := List.mem_filterMap.mp h
  obtain ⟨rel, hrel, hkept⟩ := Option.bind_eq_some_iff.mp hkept
  split_ifs at hkept with hkind
  cases hkept
  refine ⟨⟨hname, hrel⟩, ?_⟩
  rcases hkind with hkind | hkind <;> simp [hkind]

/-- Only people have includes whose ids are kept as arrays. -/
theorem eq_person_of_mem_danglingEdges {r : Res} {e : String × Rel} (h : e ∈ danglingEdges r) :
    r = .person := by
  by_contra hne
  have hnone : danglingEdges r = [] := by
    revert hne
    cases r <;> decide
  rw [hnone] at h
  cases h

/-- Each of them leads to records with addresses of their own. -/
theorem fetchable_of_mem_danglingEdges {r : Res} {e : String × Rel} (h : e ∈ danglingEdges r) :
    ¬ (e.2.target.info.method = .nestedWalk ∨ e.2.target.info.method = .passthroughOnly) := by
  obtain ⟨htarget, -⟩ := includes_of_mem_danglingEdges h
  have hall : ∀ t ∈ linkTargets,
      ¬ (t.info.method = .nestedWalk ∨ t.info.method = .passthroughOnly) := by
    decide
  exact hall _ htarget.target

theorem ne_person_of_mem_linkTargets (h : t ∈ linkTargets) : t ≠ .person := by
  rintro rfl
  revert h
  decide

/-- What owns a target is a person, and then it is a child of people. -/
theorem owner_of_mem_linkTargets (h : t ∈ linkTargets) {u : Res} {fk : String}
    (howned : ownedFk u t = some fk) :
    u = .person ∧ fk = "person_pco_id" ∧ t.info.ownerRel = some "person" := by
  have hunowned : ∀ t ∈ linkTargets, t.info.ownerRel ≠ some "person" →
      ∀ u ∈ Res.all, ownedFk u t = none := by
    decide
  by_cases hchild : t.info.ownerRel = some "person"
  · rw [ownedFk_of_ownerRel hchild] at howned
    split_ifs at howned with hu
    cases howned
    exact ⟨hu, rfl, hchild⟩
  · rw [hunowned t h hchild u (by cases u <;> decide)] at howned
    cases howned

/-! ## What PCO holds -/

/-- The ids a copy of a person lists are of records PCO holds. -/
def NamesHeld (held : Res → String → Prop) (raw : Json) : Prop :=
  ∀ e ∈ danglingEdges .person, ∀ k ∈ linkedIds raw e.1, held e.2.target k

/-- The ids a copy of a person lists are found in it by the pass and by its query alike. -/
def ReadAlike (raw : Json) : Prop :=
  ∀ e ∈ danglingEdges .person, danglingIds raw e.1 = .ok (linkedIds raw e.1)

/-- PCO answers of the records it holds, and of no others, and what it says of them agrees:
the relationships lead to what it holds, and who a child names as its person has the child. -/
structure Env.Serves (env : Env) (held : Res → String → Prop)
    (owns : String → Res → String → Prop) : Prop where
  answers : env.Answers
  ticks : env.Ticks
  lacks : ∀ r id, env.Lacks r id → ¬ held r id
  names : ∀ r id raw name rel, env.Offers r id raw → Includes r name rel →
    ∀ k ∈ namedIds rel raw name, held rel.target k
  readAlike : ∀ id raw, env.Offers .person id raw → ReadAlike raw
  child : ∀ t k raw p, t.info.ownerRel = some "person" → env.Offers t k raw →
    t.column "person_pco_id" raw = some p → owns p t k
  owner : ∀ p t k, owns p t k → held .person p
  claimed : ∀ p t k, owns p t k → ¬ env.LeavesOut p t k

variable {held : Res → String → Prop} {owns : String → Res → String → Prop}

theorem Env.Serves.namesHeld (h : env.Serves held owns) (hoffers : env.Offers .person id raw) :
    NamesHeld held raw := by
  intro e he k hk
  obtain ⟨hincludes, hkind⟩ := includes_of_mem_danglingEdges he
  refine h.names .person id raw e.1 e.2 hoffers hincludes k ?_
  rwa [namedIds, if_neg hkind]

/-! ## Targets that stay -/

/-- A target has a live row, and the person it names, if any, has it. -/
def Db.Settled (owns : String → Res → String → Prop) (db : Db) (t : Res) (k : String) : Prop :=
  ∃ row, db.row? t k = some row ∧ row.live = true ∧ (t.info.ownerRel = some "person" →
    ∀ p, t.column "person_pco_id" row.raw = some p → owns p t k)

theorem Db.Settled.isLive (h : db.Settled owns t k) : db.isLive t k = true := by
  obtain ⟨row, hrow, hlive, -⟩ := h
  rwa [Db.isLive, hrow, Option.any_some]

/-- A row that stays live keeps its target settled, whether it keeps its document or takes one
PCO offers. -/
theorem Db.Settled.of_row (h : db.Settled owns t k) (hserves : env.Serves held owns)
    (hstays : ∀ row, db.row? t k = some row → row.live = true → ∃ row', db'.row? t k = some row' ∧
      row'.live = true ∧ (row'.raw = row.raw ∨ env.Offers t k row'.raw)) :
    db'.Settled owns t k := by
  obtain ⟨row, hrow, hlive, howned⟩ := h
  obtain ⟨row', hrow', hlive', hraw⟩ := hstays row hrow hlive
  refine ⟨row', hrow', hlive', fun hchild p hp => ?_⟩
  rcases hraw with hraw | hoffers
  · rw [hraw] at hp
    exact howned hchild p hp
  · exact hserves.child t k row'.raw p hchild hoffers hp

theorem Db.Settled.write (h : db.Settled owns t k) (hserves : env.Serves held owns) {u : Res}
    {stored : Json} (hoffers : env.Offers u id stored) (stamp : Stamp) :
    (PcoMirror.write u id stored stamp db).Settled owns t k := by
  refine h.of_row hserves fun row hrow hlive => ?_
  obtain ⟨row', hrow', hraw, hstays⟩ := row_after_write u id stored stamp hrow
  refine ⟨row', hrow', hstays hlive, hraw.imp_right ?_⟩
  rintro ⟨rfl, rfl, htaken⟩
  rwa [htaken]

/-- A tombstone leaves a target settled that it is not of, nor of the person it names. -/
theorem Db.Settled.tombstone (h : db.Settled owns t k) (hserves : env.Serves held owns)
    (ht : t ∈ linkTargets) {u : Res} (reason : Reason) (now : String)
    (hself : ¬ (t = u ∧ k = id))
    (howner : u = .person → ¬ owns id t k) :
    (PcoMirror.tombstone u id none reason none now db).Settled owns t k := by
  have hsettled := h
  obtain ⟨held, hheld, -, howned⟩ := hsettled
  refine h.of_row hserves fun row hrow hlive => ?_
  obtain ⟨row', hrow', hraw, hstays⟩ := row_after_tombstone u id none reason none now hrow
  refine ⟨row', hrow', ?_, .inl hraw⟩
  rcases hstays hlive with hlive | hgone | ⟨fk, hfk, hnames⟩
  · exact hlive
  · exact absurd hgone hself
  · obtain ⟨hperson, rfl, hchild⟩ := owner_of_mem_linkTargets ht hfk
    cases hrow.symm.trans hheld
    exact absurd (howned hchild id hnames) (howner hperson)

theorem Db.Settled.stores (h : db.Settled owns t k) (hserves : env.Serves held owns)
    (ht : t ∈ linkTargets) (hheld : held t k) {r : Res} (hstores : env.Stores r id db db') :
    db'.Settled owns t k := by
  cases hstores with
  | routed _ hoffers => exact h.write hserves hoffers _
  | confirmed tick _ hoffers =>
      refine h.of_row hserves fun row hrow hlive => ?_
      obtain ⟨row', hrow', hraw, hstays⟩ := row_after_confirmLive r id _ (env.stamp tick) hrow
      refine ⟨row', hrow', hstays hlive, hraw.imp_right ?_⟩
      rintro ⟨rfl, rfl, htaken⟩
      rwa [htaken]
  | absent tick hlacks =>
      have hgone := hserves.lacks _ _ hlacks
      refine h.tombstone hserves ht .auditAbsent _ ?_ ?_
      · rintro ⟨rfl, rfl⟩
        exact hgone hheld
      · rintro rfl howns
        exact hgone (hserves.owner _ _ _ howns)

theorem Db.Settled.follows (h : db.Settled owns t k) (hserves : env.Serves held owns)
    (ht : t ∈ linkTargets) (hfollows : env.Follows db db') : db'.Settled owns t k := by
  cases hfollows with
  | sideloaded _ hoffers => exact h.write hserves hoffers _
  | leftOut _ hchild hrow hnames hleft =>
      refine h.tombstone hserves ht .absent _ ?_ ?_
      · rintro ⟨rfl, rfl⟩
        obtain ⟨row, hheld, -, howned⟩ := h
        cases hrow.symm.trans hheld
        exact hserves.claimed _ _ _ (howned hchild _ hnames) hleft
      · rintro rfl
        cases hchild

/-- A target that PCO holds and that is re-read is settled. -/
theorem settled_of_stores (hserves : env.Serves held owns) (ht : t ∈ linkTargets)
    (hheld : held t k) (hstores : env.Stores t k db db') : db'.Settled owns t k := by
  cases hstores with
  | routed => exact absurd rfl (ne_person_of_mem_linkTargets ht)
  | @confirmed _ _ raw _ tick _ hoffers =>
      obtain ⟨value, hvalue⟩ := row?_confirmLive_self t k raw (env.stamp tick) db
      have hraw : ((confirmed raw (env.stamp tick) (db.row? t k)).withTyped value).raw = raw ∧
          ((confirmed raw (env.stamp tick) (db.row? t k)).withTyped value).live = true := by
        cases db.row? t k <;> exact ⟨rfl, rfl⟩
      refine ⟨_, hvalue, hraw.2, fun hchild p hp => ?_⟩
      rw [hraw.1] at hp
      exact hserves.child t k raw p hchild hoffers hp
  | absent _ hlacks => exact absurd hheld (hserves.lacks _ _ hlacks)

theorem Db.Settled.reread (h : db.Settled owns t k) (hserves : env.Serves held owns)
    (ht : t ∈ linkTargets) (hfollows : Relation.ReflTransGen env.Follows db db') :
    db'.Settled owns t k := by
  induction hfollows with
  | refl => exact h
  | tail _ hlast ih => exact ih.follows hserves ht hlast

theorem Db.Settled.rereadsAll (h : db.Settled owns t k) (hserves : env.Serves held owns)
    (ht : t ∈ linkTargets) (hheld : held t k) {keys : List (Res × String)}
    (hrereads : env.RereadsAll keys db db') : db'.Settled owns t k := by
  induction hrereads with
  | nil => exact h
  | cons hfirst _ ih =>
      obtain ⟨db₁, hstores, hfollows⟩ := hfirst
      exact ih ((h.stores hserves ht hheld hstores).reread hserves ht hfollows)

/-- After some re-reads every target read that PCO holds is settled. -/
theorem settled_of_rereadsAll (hserves : env.Serves held owns) (ht : t ∈ linkTargets)
    (hheld : held t k) {keys : List (Res × String)} (hkey : (t, k) ∈ keys)
    (hrereads : env.RereadsAll keys db db') : db'.Settled owns t k := by
  induction hrereads with
  | nil => cases hkey
  | cons hfirst hrest ih =>
      rcases List.mem_cons.mp hkey with rfl | hkey
      · obtain ⟨db₁, hstores, hfollows⟩ := hfirst
        exact ((settled_of_stores hserves ht hheld hstores).reread hserves ht hfollows).rereadsAll
          hserves ht hheld hrest
      · exact ih hkey

/-! ## Where documents come from -/

/-- Every document stored was stored before, or is one PCO offers. -/
def Db.From (env : Env) (db₀ db : Db) : Prop :=
  ∀ t k row, db.row? t k = some row →
    (∃ row₀, db₀.row? t k = some row₀ ∧ row.raw = row₀.raw) ∨ env.Offers t k row.raw

theorem Db.From.refl (db : Db) : Db.From env db db :=
  fun _ _ row hrow => .inl ⟨row, hrow, rfl⟩

theorem Db.From.trans {db₀ : Db} (h : Db.From env db₀ db) (h' : Db.From env db db') :
    Db.From env db₀ db' := by
  intro t k row hrow
  rcases h' t k row hrow with ⟨row₁, hrow₁, hraw⟩ | hoffers
  · rw [hraw]
    exact h t k row₁ hrow₁
  · exact .inr hoffers

theorem from_write {u : Res} {stored : Json} (hoffers : env.Offers u id stored) (stamp : Stamp)
    (db : Db) : Db.From env db (write u id stored stamp db) := by
  intro t k row hrow
  rcases raw_of_write hrow with ⟨rfl, rfl, hraw⟩ | hheld
  · exact .inr (hraw ▸ hoffers)
  · exact .inl hheld

theorem from_stores {r : Res} (hstores : env.Stores r id db db') : Db.From env db db' := by
  cases hstores with
  | routed _ hoffers => exact from_write hoffers _ db
  | confirmed _ _ hoffers =>
      intro t k row hrow
      rcases raw_of_confirmLive hrow with ⟨rfl, rfl, hraw⟩ | hheld
      · exact .inr (hraw ▸ hoffers)
      · exact .inl hheld
  | absent => exact fun t k row hrow => .inl (raw_of_tombstone hrow)

theorem from_follows (hfollows : env.Follows db db') : Db.From env db db' := by
  cases hfollows with
  | sideloaded _ hoffers => exact from_write hoffers _ db
  | leftOut => exact fun t k row hrow => .inl (raw_of_tombstone hrow)

theorem from_reread {db₀ : Db} (h : Db.From env db₀ db)
    (hfollows : Relation.ReflTransGen env.Follows db db') : Db.From env db₀ db' := by
  induction hfollows with
  | refl => exact h
  | tail _ hlast ih => exact ih.trans (from_follows hlast)

theorem from_rereadsAll {keys : List (Res × String)} (hrereads : env.RereadsAll keys db db') :
    Db.From env db db' := by
  induction hrereads with
  | nil => exact .refl _
  | cons hfirst _ ih =>
      obtain ⟨db₁, hstores, hfollows⟩ := hfirst
      exact .trans (from_reread (from_stores hstores) hfollows) ih

/-! ## When documents were stored -/

/-- Every row was last written when it was before, or at a reading of the clock. -/
def Db.Since (env : Env) (db₀ db : Db) : Prop :=
  ∀ t k row, db.row? t k = some row →
    (∃ row₀, db₀.row? t k = some row₀ ∧ row.lastSyncedAt = row₀.lastSyncedAt) ∨
      ∃ tick, row.lastSyncedAt = env.now tick

theorem Db.Since.trans {db₀ : Db} (h : Db.Since env db₀ db) (h' : Db.Since env db db') :
    Db.Since env db₀ db' := by
  intro t k row hrow
  rcases h' t k row hrow with ⟨row₁, hrow₁, hsynced⟩ | hread
  · rw [hsynced]
    exact h t k row₁ hrow₁
  · exact .inr hread

theorem since_stores {r : Res} (hstores : env.Stores r id db db') : Db.Since env db db' := by
  intro t k row hrow
  cases hstores with
  | routed tick => exact (synced_of_write hrow).symm.imp_right fun heq => ⟨tick, heq⟩
  | confirmed tick => exact (synced_of_confirmLive hrow).symm.imp_right fun heq => ⟨tick, heq⟩
  | absent tick => exact (synced_of_tombstone hrow).symm.imp_right fun heq => ⟨tick, heq⟩

theorem since_follows (hfollows : env.Follows db db') : Db.Since env db db' := by
  intro t k row hrow
  cases hfollows with
  | sideloaded tick => exact (synced_of_write hrow).symm.imp_right fun heq => ⟨tick, heq⟩
  | leftOut tick => exact (synced_of_tombstone hrow).symm.imp_right fun heq => ⟨tick, heq⟩

theorem since_reread {db₀ : Db} (h : Db.Since env db₀ db)
    (hfollows : Relation.ReflTransGen env.Follows db db') : Db.Since env db₀ db' := by
  induction hfollows with
  | refl => exact h
  | tail _ hlast ih => exact ih.trans (since_follows hlast)

theorem since_rereadsAll {keys : List (Res × String)} (hrereads : env.RereadsAll keys db db') :
    Db.Since env db db' := by
  induction hrereads with
  | nil => exact fun _ _ row hrow => .inl ⟨row, hrow, rfl⟩
  | cons hfirst _ ih =>
      obtain ⟨db₁, hstores, hfollows⟩ := hfirst
      exact .trans (since_reread (since_stores hstores) hfollows) ih

end PcoMirror
