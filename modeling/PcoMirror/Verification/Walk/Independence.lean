import PcoMirror.Lib.Agreement
import PcoMirror.Model.Ingest.Walk
import PcoMirror.Verification.Writer.Operations

/-! Tables a walk decides on their own: two mirrors that hold the same in some tables, and in those
that decide about them, hold the same there after a walk. -/

namespace PcoMirror

open Program

/-! ## Tables -/

/-- The types whose rows have a say in what a write leaves of this type: its owners, and for field
data the definitions. -/
def Res.deciders (t : Res) : List Res :=
  (ownerEdges t).map (·.1) ++ if t = .fieldDatum then [.fieldDefinition] else []

/-- Types among which are all that have a say in them. -/
def Closed (types : Res → Prop) : Prop :=
  ∀ t, types t → ∀ u ∈ t.deciders, types u

/-- Two mirrors that hold the same rows of these types. -/
def Db.AgreeOn (types : Res → Prop) (db db' : Db) : Prop :=
  ∀ t, types t → db.tables t = db'.tables t

/-- Two states that differ in the rows of other types alone. -/
def World.AgreeOn (types : Res → Prop) (w w' : World) : Prop :=
  ∃ db', w' = { w with db := db' } ∧ w.db.AgreeOn types db'

variable {types : Res → Prop} {db db' : Db} {t u : Res}

namespace Db.AgreeOn

theorem row? (h : db.AgreeOn types db') (ht : types t) (id : String) :
    db.row? t id = db'.row? t id := by
  rw [Db.row?, Db.row?, h t ht]

theorem isLive (h : db.AgreeOn types db') (ht : types t) (id : String) :
    db.isLive t id = db'.isLive t id := by
  rw [Db.isLive, Db.isLive, h.row? ht]

theorem select (h : db.AgreeOn types db') (ht : types t) (p : String → Row → Bool) :
    db.select t p = db'.select t p := by
  rw [Db.select, Db.select, h t ht]

/-! ## Writes -/

theorem put (h : db.AgreeOn types db') (id : String) {row row' : Row}
    (hrow : types t → row = row') : (db.put t id row).AgreeOn types (db'.put t id row') := by
  intro u hu
  unfold Db.put
  by_cases hut : u = t
  · subst hut
    simp only [if_true, h u hu, hrow hu]
  · simp only [if_neg hut, h u hu]

theorem updateAll (h : db.AgreeOn types db') (t : Res) (f : Row → Row) :
    (db.updateAll t f).AgreeOn types (db'.updateAll t f) := by
  intro u hu
  simp only [Db.updateAll, h u hu]

/-- An update of one table, made or left out alike where that table is one of them. -/
theorem updateAll_ite {c c' : Prop} [Decidable c] [Decidable c'] (h : db.AgreeOn types db')
    (hc : types t → (c ↔ c')) (f : Row → Row) :
    (if c then db.updateAll t f else db).AgreeOn types (if c' then db'.updateAll t f else db') := by
  intro u hu
  by_cases hut : u = t
  · subst hut
    by_cases hpos : c
    · rw [if_pos hpos, if_pos ((hc hu).mp hpos)]
      exact h.updateAll u f u hu
    · rw [if_neg hpos, if_neg (mt (hc hu).mpr hpos)]
      exact h u hu
  · have hother : ∀ db : Db, (db.updateAll t f).tables u = db.tables u := fun _ => if_neg hut
    split_ifs <;> simp only [hother, h u hu]

theorem updateRow (h : db.AgreeOn types db') (id : String) {f f' : Row → Row}
    (hf : types t → f = f') : (db.updateRow t id f).AgreeOn types (db'.updateRow t id f') := by
  unfold Db.updateRow
  by_cases ht : types t
  · rw [h.row? ht, hf ht]
    cases db'.row? t id with
    | none => exact h
    | some row => exact h.put id fun _ => rfl
  · have hother : ∀ (db : Db) (row : Row) (u : Res), types u →
        (db.put t id row).tables u = db.tables u :=
      fun db row u hu => if_neg fun hut : u = t => ht (hut ▸ hu)
    intro u hu
    cases db.row? t id <;> cases db'.row? t id <;> simp only [hother _ _ u hu, h u hu]

theorem foldl {α : Type} {f f' : Db → α → Db} (xs : List α)
    (hf : ∀ db db' : Db, db.AgreeOn types db' → ∀ x ∈ xs, (f db x).AgreeOn types (f' db' x))
    (h : db.AgreeOn types db') : (xs.foldl f db).AgreeOn types (xs.foldl f' db') := by
  induction xs generalizing db db' with
  | nil => exact h
  | cons x xs ih =>
      exact ih (fun db db' h y hy => hf db db' h y (.tail _ hy)) (hf db db' h x (.head xs))

theorem tombstone (h : db.AgreeOn types db') (t : Res) (id : String) (evidence : Option Json)
    (reason : Reason) (mergedInto : Option String) (now : String) :
    (PcoMirror.tombstone t id evidence reason mergedInto now db).AgreeOn types
      (PcoMirror.tombstone t id evidence reason mergedInto now db') := by
  unfold PcoMirror.tombstone
  have hrow := h.updateRow (t := t) id (f := fun row =>
    if row.tombstoneGuard (stableTs evidence) reason then
      row.tombstone (stableTs evidence) reason mergedInto now else row) fun _ => rfl
  simp only
  split_ifs
  · exact foldl _ (fun _ _ h e _ => h.updateAll e.1 _) hrow
  · exact hrow

end Db.AgreeOn

theorem mem_deciders_of_ownedChildren {e : Res × String} (he : e ∈ ownedChildren t) :
    t ∈ e.1.deciders := by
  obtain ⟨c, -, hc⟩ := List.mem_flatMap.mp he
  obtain ⟨owner, howner, hpair⟩ := List.mem_filterMap.mp hc
  split_ifs at hpair with hown
  cases hpair
  exact List.mem_append_left _ (List.mem_map.mpr ⟨owner, howner, hown⟩)

namespace Closed

variable (hclosed : Closed types) (h : db.AgreeOn types db')

include hclosed h

theorem uncascade (t : Res) (id now : String) :
    (uncascade t id now db).AgreeOn types (PcoMirror.uncascade t id now db') := by
  refine Db.AgreeOn.foldl _ (fun db db' h e he => h.updateAll_ite (fun hchild => ?_) _) h
  rw [h.isLive (hclosed _ hchild t (mem_deciders_of_ownedChildren he))]

theorem projectFieldDatum (id : String) :
    (projectFieldDatum id db).AgreeOn types (PcoMirror.projectFieldDatum id db') := by
  refine h.updateRow id fun hdatum => ?_
  have hdefinition : types .fieldDefinition := hclosed _ hdatum _ (by decide)
  have hrow : db.row? .fieldDefinition = db'.row? .fieldDefinition :=
    funext (h.row? hdefinition)
  simp only [hrow]

theorem settle (t : Res) (id now : String) :
    (settle t id now db).AgreeOn types (PcoMirror.settle t id now db') := by
  have hrevived := hclosed.uncascade h t id now
  unfold PcoMirror.settle
  simp only
  split_ifs
  · exact hclosed.projectFieldDatum hrevived id
  · exact hrevived

theorem write (r : Res) (id : String) (stored : Json) (stamp : Stamp) :
    (write r id stored stamp db).AgreeOn types (PcoMirror.write r id stored stamp db') := by
  have hheld : ∀ f : Option Row → Row, types r → f (db.row? r id) = f (db'.row? r id) :=
    fun f hr => by rw [h.row? hr]
  rw [PcoMirror.write, PcoMirror.write]
  split_ifs
  · rw [upsert_eq, upsert_eq]
    exact hclosed.settle (h.put id (hheld (upserted stored stamp))) r id stamp.now
  · rw [upsertUntimed_eq, upsertUntimed_eq]
    exact h.put id (hheld (upsertedUntimed stored stamp))

end Closed

/-! ## Programs -/

namespace World.AgreeOn

theorem withDb {w w' : World} (h : w.AgreeOn types w') {f f' : Db → Db}
    (hf : w.db.AgreeOn types w'.db → (f w.db).AgreeOn types (f' w'.db)) :
    World.AgreeOn types { w with db := f w.db } { w' with db := f' w'.db } := by
  obtain ⟨db', rfl, hdb⟩ := h
  exact ⟨f' db', rfl, hf hdb⟩

end World.AgreeOn

section

variable (hclosed : Closed types)

theorem same_ofPy {α : Type} (e : Except PyError α) :
    Agree (World.AgreeOn types) (ofPy e) (ofPy e) := by
  cases e with
  | ok a => exact Agree.pure a
  | error e => exact Agree.throw _

theorem same_clientGet (env : Env) (request : Request) :
    Agree (World.AgreeOn types) (clientGet env request) (clientGet env request) := by
  rintro w _ ⟨db', rfl, hdb⟩
  rw [clientGet_run, clientGet_run]
  simp only
  cases env.respond w.tick request with
  | ok resp => exact .ok resp ⟨db', rfl, hdb⟩
  | error e => exact .error _ ⟨db', rfl, hdb⟩

theorem same_nowIso (env : Env) : Agree (World.AgreeOn types) (nowIso env) (nowIso env) := by
  rintro w _ ⟨db', rfl, hdb⟩
  exact .ok _ ⟨db', rfl, hdb⟩

theorem same_tombstoneOne (env : Env) (t : Res) (id : String) (evidence : Option Json)
    (reason : Reason) (mergedInto : Option String) :
    Agree (World.AgreeOn types) (tombstoneOne env t id evidence reason mergedInto)
      (tombstoneOne env t id evidence reason mergedInto) := by
  refine Agree.bind (same_nowIso env) fun now => Agree.bind (Agree.modify ?_) fun _ =>
    Agree.modify fun w w' h => h.withDb fun hdb => hdb.tombstone t id evidence reason mergedInto now
  rintro w _ ⟨db', rfl, hdb⟩
  exact ⟨db', rfl, hdb⟩

theorem same_attempt {α : Type} {m : Proc α} (h : Agree (World.AgreeOn types) m m) :
    Agree (World.AgreeOn types) (PcoMirror.attempt m) (PcoMirror.attempt m) := by
  intro w w' hw
  have hm := h w w' hw
  rw [run_attempt, run_attempt]
  generalize m.run w = x, m.run w' = y at hm
  cases hm with
  | ok a hw => exact .ok _ hw
  | error e hw =>
      cases e with
      | raised e => exact .ok _ hw
      | stopped => exact .error _ hw

include hclosed

theorem same_routeOne (env : Env) (source : Source) (ownerHint : Option Json)
    (synthesized : List String) (resource : Json) :
    Agree (World.AgreeOn types) (routeOne env source ownerHint synthesized resource)
      (routeOne env source ownerHint synthesized resource) := by
  rintro w _ ⟨db', rfl, hdb⟩
  cases htarget : routeTarget resource ownerHint synthesized with
  | error e =>
      rw [routeOne_raises htarget, routeOne_raises htarget]
      exact .error _ ⟨db', rfl, hdb⟩
  | ok target =>
      rw [routeOne_run htarget, routeOne_run htarget]
      refine .ok () ⟨_, rfl, ?_⟩
      simp only [World.routedOne, routed, htarget]
      cases target with
      | none => exact hdb
      | some target => exact hclosed.write hdb target.1 target.2.1 target.2.2 _

theorem same_routePage (env : Env) (status : ℕ) (body : Json) (source : Source)
    (synthesized : List String) (dataOwnerHint : Option Json) :
    Agree (World.AgreeOn types) (routePage env status body source synthesized dataOwnerHint)
      (routePage env status body source synthesized dataOwnerHint) := by
  refine Agree.bind (same_ofPy _) fun items => Agree.bind (Agree.modify ?_) fun _ =>
    Agree.bind (same_ofPy _) fun included => ?_
  · rintro w _ ⟨db', rfl, hdb⟩
    exact ⟨db', rfl, hdb⟩
  · refine Agree.bind (Agree.forEach (same_routeOne hclosed env source none synthesized) included)
      fun _ => ?_
    exact Agree.bind (Agree.forEach (same_routeOne hclosed env source dataOwnerHint synthesized)
      items) fun _ => Agree.pure _

/-! ## Walks -/

omit hclosed in
theorem same_tombstoneIfAbsent (env : Env) (r : Res) (id : String) :
    Agree (World.AgreeOn types) (tombstoneIfAbsent env r id) (tombstoneIfAbsent env r id) := by
  refine Agree.bind (same_attempt (same_clientGet env _)) fun answer => ?_
  cases answer with
  | error e => exact Agree.pure _
  | ok resp => exact Agree.ite (fun _ => same_tombstoneOne env r id _ _ _) fun _ => Agree.pure _

theorem same_walkPage (env : Env) (r parent : Res) (parentId : String) (source : Source)
    (p : WalkPass) :
    Agree (World.AgreeOn types) (walkPage env r parent parentId source p)
      (walkPage env r parent parentId source p) := by
  refine Agree.bind (same_clientGet env _) fun resp => ?_
  have hrest : Agree (World.AgreeOn types)
      (do
        let body ← ofPy resp.document
        let data ← ofPy (dataOf body)
        let _ ← routePage env resp.status body source
        let items ← ofPy (pyItems data)
        let ids ← ofPy (items.mapM itemId)
        if items.length < 100 then return .leave (some (p.seen ++ ids))
        return .again ⟨p.offset + 100, p.seen ++ ids⟩ :
          Proc (Pass WalkPass (Option (List Json)))) _ :=
    Agree.bind (same_ofPy _) fun body => Agree.bind (same_ofPy _) fun data =>
      Agree.bind (same_routePage hclosed env resp.status body source [] none) fun _ =>
        Agree.bind (same_ofPy _) fun items => Agree.bind (same_ofPy _) fun ids =>
          Agree.ite (fun _ => Agree.pure _) fun _ => Agree.pure _
  refine Agree.ite (fun _ => Agree.bind (same_tombstoneIfAbsent env parent parentId) fun _ =>
    Agree.pure _) fun _ => ?_
  cases resp.ok with
  | true => exact hrest
  | false => exact Agree.throw _

theorem same_walkOne (env : Env) {r : Res} (hr : types r) (parent : Res) (parentId : String)
    (source : Source) (fuel : ℕ) :
    Agree (World.AgreeOn types) (walkOne env r parent parentId source fuel)
      (walkOne env r parent parentId source fuel) := by
  refine Agree.bind (Agree.whileTrue (same_walkPage hclosed env r parent parentId source) fuel _)
    fun seen => ?_
  cases seen with
  | none => exact Agree.pure _
  | some seen =>
      refine Leads.get fun w w' hw => ?_
      have hstale : w.db.childrenOf r parentId = w'.db.childrenOf r parentId := by
        obtain ⟨db', rfl, hdb⟩ := hw
        exact hdb.select hr _
      simp only [hstale]
      exact Agree.bind (Agree.forEach (fun id => same_tombstoneOne env r id _ _ _) _) fun _ =>
        Agree.pure _

theorem same_ensureParentWalked (env : Env) {r : Res} (hr : types r) (parent : Res)
    (parentId : String) (fuel : ℕ) :
    Agree (World.AgreeOn types) (ensureParentWalked env r parent parentId fuel)
      (ensureParentWalked env r parent parentId fuel) := by
  refine Leads.get fun w w' hw => ?_
  have hwalked : w.parentWalked r parentId = w'.parentWalked r parentId := by
    obtain ⟨db', rfl, -⟩ := hw
    rfl
  rw [hwalked]
  refine Agree.ite (fun _ => Agree.pure _) fun _ => Agree.bind ?_ fun _ => Agree.pure _
  refine Agree.bind (same_walkOne hclosed env hr parent parentId .passthrough fuel) fun n =>
    Agree.bind (same_nowIso env) fun now => Agree.bind (Agree.modify ?_) fun _ => Agree.pure _
  rintro w _ ⟨db', rfl, hdb⟩
  exact ⟨db', rfl, hdb⟩

end

end PcoMirror
