import PcoMirror.Model.Transaction
import PcoMirror.Verification.Writer.Merge
import PcoMirror.Verification.Writer.Frame

/-! # What a transaction around a page holds together -/

namespace PcoMirror

open Program

/-- The tables and the commits are as they were. -/
structure Conn.Untouched (c c' : Conn) : Prop where
  working : c'.working = c.working
  durable : c'.durable = c.durable
  commits : c'.commits = c.commits

/-- Nothing was issued either. -/
structure Conn.Unused (c c' : Conn) : Prop extends c.Untouched c' where
  issued : c'.issued = c.issued

theorem Conn.Unused.refl (c : Conn) : c.Unused c := ⟨⟨rfl, rfl, rfl⟩, rfl⟩

theorem Conn.Unused.trans_untouched {c c₁ c' : Conn} (h₁ : c.Unused c₁) (h₂ : c₁.Untouched c') :
    c.Untouched c' :=
  ⟨h₂.working.trans h₁.working, h₂.durable.trans h₁.durable, h₂.commits.trans h₁.commits⟩

theorem Conn.Unused.trans {c c₁ c' : Conn} (h₁ : c.Unused c₁) (h₂ : c₁.Unused c') :
    c.Unused c' :=
  ⟨h₁.trans_untouched h₂.toUntouched, h₂.issued.trans h₁.issued⟩

/-- The first of two openings that is not nothing. -/
def andThen : Except PyError Bool → Except PyError Bool → Except PyError Bool
  | .ok false, v => v
  | v, _ => v

variable {α β : Type} {faults : Faults}

/-- What a program that returned has done, by what it does first. -/
def ReturnedAfter (faults : Faults) (c : Conn) : Except PyError Bool → Conn → Prop
  | .ok false, c' => c.Unused c'
  | .ok true, c' => faults c.issued = none ∧ c.commits < c'.commits
  | .error _, _ => False

/-- What a program that raised has done, by what it does first. -/
def RaisedAfter (faults : Faults) (c : Conn) : Except PyError Bool → Conn → Prop
  | .ok false, _ => False
  | .ok true, c' => if faults c.issued = none then c.commits < c'.commits else c.Untouched c'
  | .error _, c' => c.Unused c'

/-- What a program does first: raises, issues a statement, or neither to its end. -/
def Opens (faults : Faults) (v : Except PyError Bool) (m : ConnM α) : Prop :=
  ∀ c, Spec (fun s => s = c) m (fun _ => ReturnedAfter faults c v) fun _ => RaisedAfter faults c v

/-- A program that never takes a commit back. -/
def Accrues (m : ConnM α) : Prop :=
  ∀ n, Keeps (fun c => n < c.commits) m

theorem Opens.bind_issued {m : ConnM α} {f : α → ConnM β} (hm : Opens faults (.ok true) m)
    (hgrows : ∀ a, Accrues (f a)) : Opens faults (.ok true) (m >>= f) := by
  intro c
  refine Spec.bind (hm c) fun a s hs => ?_
  have hs' : faults c.issued = none ∧ c.commits < s.commits := hs
  have h := hgrows a c.commits s hs'.2
  cases hrun : (f a).run s with
  | ok b s' =>
      simp only [hrun] at h
      exact ⟨hs'.1, h⟩
  | error e s' =>
      simp only [hrun] at h
      simpa only [RaisedAfter, hs'.1, if_true] using h

/-- After what did nothing, a program opens as it would have before. -/
theorem Opens.of_unused {v : Except PyError Bool} {m : ConnM α} (hm : Opens faults v m)
    (c : Conn) :
    Spec (fun s => c.Unused s) m (fun _ => ReturnedAfter faults c v)
      fun _ => RaisedAfter faults c v := by
  intro s hs
  refine (hm s).conseq (fun _ h => h) ?_ ?_ s rfl
  · intro _ s' h
    match v with
    | .error _ => exact h
    | .ok false => exact hs.trans h
    | .ok true => exact ⟨hs.issued ▸ h.1, hs.commits ▸ h.2⟩
  · intro _ s' h
    match v with
    | .error _ => exact hs.trans h
    | .ok false => exact h
    | .ok true =>
        simp only [RaisedAfter, hs.issued] at h ⊢
        split_ifs at h ⊢ with hfault
        · exact hs.commits ▸ h
        · exact hs.trans_untouched h

theorem Opens.bind {v u : Except PyError Bool} {m : ConnM α} {f : α → ConnM β}
    (hm : Opens faults v m) (hf : ∀ a, Opens faults u (f a)) (hgrows : ∀ a, Accrues (f a)) :
    Opens faults (andThen v u) (m >>= f) := by
  match v with
  | .error e => exact fun c => Spec.bind (R := fun _ _ => False) (hm c) fun a s hs => hs.elim
  | .ok true => exact hm.bind_issued hgrows
  | .ok false =>
      intro c
      refine Spec.bind (R := fun _ s => c.Unused s) ?_ fun a => (hf a).of_unused c
      exact (hm c).conseq (fun _ h => h) (fun _ _ h => h) fun _ _ h => h.elim

theorem Opens.pure (a : α) : Opens faults (.ok false) (pure a : ConnM α) :=
  fun c => Spec.pure fun s hs => by subst hs; exact .refl s

theorem Opens.ofPy (e : Except PyError α) : Opens faults (e.map fun _ => false) (Statements.ofPy e) := by
  cases e with
  | ok a => exact Opens.pure a
  | error e => exact fun c => Spec.throw fun s hs => by subst hs; exact .refl s

theorem Accrues.pure (a : α) : Accrues (Pure.pure a : ConnM α) := fun _ => Keeps.pure a

theorem Accrues.bind {m : ConnM α} {f : α → ConnM β} (hm : Accrues m) (hf : ∀ a, Accrues (f a)) :
    Accrues (m >>= f) :=
  fun n => Keeps.bind (hm n) fun a => hf a n

theorem Accrues.forEach {action : β → ConnM Unit} (xs : List β) (h : ∀ x, Accrues (action x)) :
    Accrues (Program.forEach action xs) :=
  fun n => Keeps.forEach xs fun x _ => h x n

theorem Accrues.ofPy (e : Except PyError α) : Accrues (Statements.ofPy e) := by
  cases e with
  | ok a => exact Accrues.pure a
  | error e => exact fun _ => Keeps.throw e

theorem Accrues.get : Accrues (MonadState.get : ConnM Conn) := fun _ => Keeps.get

/-- A loop opens as the first of its rounds that does anything. -/
theorem Opens.forEach {action : β → ConnM Unit} {first : β → Except PyError Bool}
    (h : ∀ x, Opens faults (first x) (action x)) (hgrows : ∀ x, Accrues (action x)) :
    ∀ xs, Opens faults ((xs.map first).foldr andThen (.ok false)) (Program.forEach action xs) := by
  intro xs
  induction xs with
  | nil => exact Opens.pure ()
  | cons x xs ih => exact (h x).bind (fun _ => ih) fun _ => Accrues.forEach xs hgrows

/-! ## The statements -/

theorem run_get {c : Conn} : (get : ConnM Conn).run c = .ok c c := rfl

theorem run_set {c c' : Conn} : (set c' : ConnM PUnit).run c = .ok ⟨⟩ c' := rfl

theorem run_execute_of_none {c : Conn} (hfault : faults c.issued = none) (statement : Db → Db) :
    (execute faults statement).run c = .ok ()
      (Conn.commit { c with issued := c.issued + 1, working := statement c.working }) := by
  rw [execute, run_bind_of_ok run_get, run_bind_of_ok run_set, hfault]
  rfl

theorem run_execute_of_some {c : Conn} {e : PyError} (hfault : faults c.issued = some e)
    (statement : Db → Db) :
    (execute faults statement).run c = .error e { c with issued := c.issued + 1 } := by
  rw [execute, run_bind_of_ok run_get, run_bind_of_ok run_set, hfault]
  rfl

theorem Opens.execute (statement : Db → Db) :
    Opens faults (.ok true) (execute faults statement) := by
  intro c s hs
  subst hs
  cases hfault : faults s.issued with
  | none =>
      rw [run_execute_of_none hfault]
      exact ⟨hfault, Nat.lt_succ_self _⟩
  | some e =>
      rw [run_execute_of_some hfault]
      simp only [RaisedAfter, hfault]
      exact ⟨rfl, rfl, rfl⟩

theorem Accrues.execute (statement : Db → Db) : Accrues (execute faults statement) := by
  intro n c (hc : n < c.commits)
  cases hfault : faults c.issued with
  | none =>
      rw [run_execute_of_none hfault]
      exact Nat.lt_succ_of_lt hc
  | some e =>
      rw [run_execute_of_some hfault]
      exact hc

theorem Accrues.settle (t : Res) (id now : String) :
    Accrues (do
      Statements.uncascade faults t id now
      if t = .fieldDatum then Statements.projectFieldDatum faults id) := by
  refine (Accrues.forEach _ fun e => Accrues.execute _).bind fun _ => ?_
  split_ifs
  · refine Accrues.get.bind fun c => ?_
    split_ifs
    · exact Accrues.execute _
    · exact Accrues.pure _
  · exact Accrues.pure _

theorem Accrues.store (t : Res) (id now : String) (write : Db → Db) :
    Accrues (Statements.store faults t id now write) :=
  (Accrues.execute write).bind fun _ => Accrues.settle t id now

theorem Opens.store (t : Res) (id now : String) (write : Db → Db) :
    Opens faults (.ok true) (Statements.store faults t id now write) :=
  (Opens.execute write).bind_issued fun _ => Accrues.settle t id now

/-- What routing a resource does first. -/
def routeFirst (ownerHint : Option Json) (synthesized : List String) (resource : Json) :
    Except PyError Bool :=
  (routeTarget resource ownerHint synthesized).map Option.isSome

theorem Opens.stampNow (env : Env) (source : Source) :
    Opens faults (.ok false) (Statements.stampNow env source) :=
  fun _ s hs => by subst hs; exact ⟨⟨rfl, rfl, rfl⟩, rfl⟩

theorem Accrues.stampNow (env : Env) (source : Source) : Accrues (Statements.stampNow env source) :=
  fun _ _ hs => hs

theorem Accrues.write (r : Res) (id : String) (stored : Json) (w : Stamp) :
    Accrues (if r.info.timestamped then Statements.upsert faults r id stored w
      else Statements.upsertUntimed faults r id stored w) := by
  split_ifs
  · exact Accrues.store r id w.now _
  · exact Accrues.execute _

theorem Opens.write (r : Res) (id : String) (stored : Json) (w : Stamp) :
    Opens faults (.ok true) (if r.info.timestamped then Statements.upsert faults r id stored w
      else Statements.upsertUntimed faults r id stored w) := by
  split_ifs
  · exact Opens.store r id w.now _
  · exact Opens.execute _

theorem Accrues.routeStamped (w : Stamp) (ownerHint : Option Json) (synthesized : List String)
    (resource : Json) :
    Accrues (do match ← Statements.ofPy (routeTarget resource ownerHint synthesized) with
      | none => Pure.pure ()
      | some (r, id, stored) =>
        if r.info.timestamped then Statements.upsert faults r id stored w
        else Statements.upsertUntimed faults r id stored w) := by
  refine (Accrues.ofPy _).bind fun target => ?_
  match target with
  | none => exact Accrues.pure ()
  | some (r, id, stored) => exact Accrues.write r id stored w

theorem Accrues.route (env : Env) (source : Source) (ownerHint : Option Json)
    (synthesized : List String) (resource : Json) :
    Accrues (Statements.route env faults source ownerHint synthesized resource) :=
  (Accrues.stampNow env source).bind fun w => Accrues.routeStamped w ownerHint synthesized resource

theorem Opens.route (env : Env) (source : Source) (ownerHint : Option Json)
    (synthesized : List String) (resource : Json) :
    Opens faults (routeFirst ownerHint synthesized resource)
      (Statements.route env faults source ownerHint synthesized resource) := by
  refine (Opens.stampNow env source).bind (u := routeFirst ownerHint synthesized resource) ?_
    fun w => Accrues.routeStamped w ownerHint synthesized resource
  intro w
  simp only [routeFirst]
  match routeTarget resource ownerHint synthesized with
  | .error e => exact fun c => Spec.throw fun s hs => by subst hs; exact .refl s
  | .ok none => exact Opens.pure ()
  | .ok (some (r, id, stored)) => exact Opens.write r id stored w

/-! ## Blocks -/

/-- What routing a list of resources does first. -/
def routesFirst (resources : Except PyError (List Json)) : Except PyError Bool := do
  ((← resources).map (routeFirst none [])).foldr andThen (.ok false)

/-- What a page does first: its sideload's doing, then its primary resources'. -/
def pageFirst (document : Json) : Except PyError Bool :=
  andThen (routesFirst (pageIncluded document)) (routesFirst (pageData document))

def Block.first : Block → Except PyError Bool
  | .page document => pageFirst document
  | .restore _ _ _ included => andThen (pageFirst (sideloadPage included)) (.ok true)

theorem andThen_nothing (v : Except PyError Bool) : andThen v (.ok false) = v := by
  match v with
  | .error _ => rfl
  | .ok true => rfl
  | .ok false => rfl

theorem Accrues.routes (env : Env) (source : Source) (resources : List Json) :
    Accrues (Program.forEach (Statements.route env faults source none []) resources) :=
  Accrues.forEach resources fun x => Accrues.route env source none [] x

theorem Opens.routes (env : Env) (source : Source) (resources : List Json) :
    Opens faults (routesFirst (.ok resources))
      (Program.forEach (Statements.route env faults source none []) resources) :=
  Opens.forEach (fun x => Opens.route env source none [] x)
    (fun x => Accrues.route env source none [] x) resources

theorem Accrues.routePage (env : Env) (document : Json) (source : Source) :
    Accrues (Statements.routePage env faults document source) :=
  (Accrues.ofPy _).bind fun included => (Accrues.routes env source included).bind fun _ =>
    (Accrues.ofPy _).bind fun items => (Accrues.routes env source items).bind fun _ => Accrues.pure _

theorem Opens.routePage (env : Env) (document : Json) (source : Source) :
    Opens faults (pageFirst document) (Statements.routePage env faults document source) := by
  have hthrow : ∀ (e : PyError) {γ : Type}, Opens faults (.error e) (throw e : ConnM γ) :=
    fun e _ c => Spec.throw fun s hs => by subst hs; exact .refl s
  have hprimary : Opens faults (routesFirst (pageData document)) (do
      let items ← Statements.ofPy (pageData document)
      Program.forEach (Statements.route env faults source none []) items
      return items.length) := by
    match pageData document with
    | .error e => exact hthrow e
    | .ok items =>
        rw [← andThen_nothing (routesFirst (.ok items))]
        exact (Opens.routes env source items).bind (fun _ => Opens.pure _) fun _ => Accrues.pure _
  simp only [pageFirst]
  unfold Statements.routePage
  match pageIncluded document with
  | .error e => exact hthrow e
  | .ok included =>
      exact (Opens.routes env source included).bind (fun _ => hprimary) fun _ =>
        (Accrues.ofPy _).bind fun items => (Accrues.routes env source items).bind fun _ => Accrues.pure _

/-- No statement fails. -/
def noFaults : Faults := fun _ => none

/-- Returns, having rewritten the tables as `f` does, with the clock where it was. -/
def Rewrites (m : ConnM Unit) (f : Db → Db) : Prop :=
  ∀ c, ∃ c', m.run c = .ok () c' ∧ c'.working = f c.working ∧ c'.tick = c.tick

theorem Rewrites.bind {m m' : ConnM Unit} {f g : Db → Db} (h : Rewrites m f)
    (h' : Rewrites m' g) : Rewrites (m >>= fun _ => m') fun db => g (f db) := by
  intro c
  obtain ⟨c₁, hrun₁, hdb₁, htick₁⟩ := h c
  obtain ⟨c₂, hrun₂, hdb₂, htick₂⟩ := h' c₁
  exact ⟨c₂, run_bind_eq_ok.mpr ⟨(), c₁, hrun₁, hrun₂⟩, by rw [hdb₂, hdb₁], htick₂.trans htick₁⟩

theorem Rewrites.pure : Rewrites (Pure.pure ()) fun db => db := fun c => ⟨c, rfl, rfl, rfl⟩

theorem Rewrites.execute (statement : Db → Db) : Rewrites (execute noFaults statement) statement :=
  fun c => ⟨_, run_execute_of_none (rfl : noFaults c.issued = none) statement, rfl, rfl⟩

theorem Rewrites.forEach {action : β → ConnM Unit} {f : β → Db → Db}
    (h : ∀ x, Rewrites (action x) (f x)) (xs : List β) :
    Rewrites (Program.forEach action xs) fun db => xs.foldl (fun db x => f x db) db := by
  induction xs with
  | nil => exact Rewrites.pure
  | cons x xs ih => exact (h x).bind ih

theorem rewrites_uncascade (t : Res) (id now : String) :
    Rewrites (Statements.uncascade noFaults t id now) (uncascade t id now) :=
  Rewrites.forEach (fun _ => Rewrites.execute _) _

theorem rewrites_projectFieldDatum (id : String) :
    Rewrites (Statements.projectFieldDatum noFaults id) (projectFieldDatum id) := by
  intro c
  cases hrow : c.working.row? .fieldDatum id with
  | some row =>
      obtain ⟨c', hrun, hkept⟩ := Rewrites.execute (PcoMirror.projectFieldDatum id) c
      refine ⟨c', ?_, hkept⟩
      rw [← hrun]
      simp only [Statements.projectFieldDatum, EStateM.run_bind, EStateM.run_get, hrow]
      rfl
  | none =>
      refine ⟨c, ?_, by simp [projectFieldDatum, Db.updateRow, hrow], rfl⟩
      simp only [Statements.projectFieldDatum, EStateM.run_bind, EStateM.run_get, hrow]
      rfl

theorem rewrites_store (t : Res) (id now : String) (write : Db → Db) :
    Rewrites (Statements.store noFaults t id now write) fun db => settle t id now (write db) := by
  refine (Rewrites.execute write).bind ((rewrites_uncascade t id now).bind
    (g := fun db => if t = .fieldDatum then projectFieldDatum id db else db) ?_)
  split_ifs
  · exact rewrites_projectFieldDatum id
  · exact Rewrites.pure

/-- The connection holds the tables and the clock of the process around it. -/
structure Conn.Holds (c : Conn) (w : World) : Prop where
  working : c.working = w.db
  tick : c.tick = w.tick

/-- The statements and the writer's call end alike, with the same tables. -/
def Simulates (m : ConnM α) (p : Proc α) : Prop :=
  ∀ c w, c.Holds w → match m.run c, p.run w with
    | .ok a c', .ok b w' => a = b ∧ c'.Holds w'
    | .error e c', .error h w' => h = .raised e ∧ c'.Holds w'
    | _, _ => False

theorem Simulates.bind {m : ConnM α} {p : Proc α} {f : α → ConnM β} {g : α → Proc β}
    (h : Simulates m p) (hf : ∀ a, Simulates (f a) (g a)) :
    Simulates (m >>= f) (p >>= g) := by
  intro c w hheld
  have hm := h c w hheld
  rw [EStateM.run_bind, EStateM.run_bind]
  cases hrun : m.run c <;> cases hrun' : p.run w <;> simp only [hrun, hrun'] at hm ⊢
  · obtain ⟨rfl, hheld'⟩ := hm
    exact hf _ _ _ hheld'
  · exact hm

theorem Simulates.pure (a : α) : Simulates (Pure.pure a) (Pure.pure a) :=
  fun _ _ h => ⟨rfl, h⟩

theorem Simulates.ofPy (e : Except PyError α) : Simulates (Statements.ofPy e) (ofPy e) := by
  cases e with
  | ok a => exact Simulates.pure a
  | error e => exact fun _ _ h => ⟨rfl, h⟩

theorem Simulates.forEach {action : β → ConnM Unit} {action' : β → Proc Unit}
    (h : ∀ x, Simulates (action x) (action' x)) (xs : List β) :
    Simulates (Program.forEach action xs) (Program.forEach action' xs) := by
  induction xs with
  | nil => exact Simulates.pure ()
  | cons x xs ih => exact (h x).bind fun _ => ih

theorem rewrites_write (r : Res) (id : String) (stored : Json) (w : Stamp) :
    Rewrites (if r.info.timestamped then Statements.upsert noFaults r id stored w
      else Statements.upsertUntimed noFaults r id stored w) (write r id stored w) := by
  unfold write
  split_ifs
  · exact rewrites_store r id w.now _
  · exact Rewrites.execute _

theorem simulates_route (env : Env) (source : Source) (ownerHint : Option Json)
    (synthesized : List String) (resource : Json) :
    Simulates (Statements.route env noFaults source ownerHint synthesized resource)
      (routeOne env source ownerHint synthesized resource) := by
  intro c w hheld
  have hstamp : (Statements.stampNow env source).run c =
      .ok ⟨source, env.apiVersion, env.now w.tick⟩ { c with tick := c.tick + 1 } := by
    rw [← hheld.tick]
    rfl
  have hroute : ∀ {target}, routeTarget resource ownerHint synthesized = target →
      (Statements.route env noFaults source ownerHint synthesized resource).run c =
        (do match ← Statements.ofPy target with
          | none => Pure.pure ()
          | some (r, id, stored) =>
            if r.info.timestamped then
              Statements.upsert noFaults r id stored ⟨source, env.apiVersion, env.now w.tick⟩
            else
              Statements.upsertUntimed noFaults r id stored
                ⟨source, env.apiVersion, env.now w.tick⟩ : ConnM Unit).run
            { c with tick := c.tick + 1 } := by
    intro target heq
    subst heq
    exact run_bind_of_ok hstamp _
  have htick : c.tick + 1 = w.tick + 1 := congrArg (· + 1) hheld.tick
  match htarget : routeTarget resource ownerHint synthesized with
  | .error e =>
      rw [hroute htarget, routeOne_raises htarget]
      exact ⟨rfl, hheld.working, htick⟩
  | .ok none =>
      rw [hroute htarget, routeOne_run htarget]
      refine ⟨rfl, ?_, htick⟩
      simpa only [World.routedOne, routed, htarget] using hheld.working
  | .ok (some (r, id, stored)) =>
      obtain ⟨c', hrun, hdb, hkept⟩ := rewrites_write r id stored
        ⟨source, env.apiVersion, env.now w.tick⟩ { c with tick := c.tick + 1 }
      rw [hroute htarget, routeOne_run htarget]
      simp only [Statements.ofPy, pure_bind]
      rw [hrun]
      refine ⟨trivial, ?_, hkept.trans htick⟩
      simp only [World.routedOne, routed, htarget, hdb, hheld.working]

/-- A page stored statement by statement leaves what the writer's call leaves. -/
theorem simulates_routePage (env : Env) (status : ℕ) (document : Json) (source : Source) :
    Simulates (Statements.routePage env noFaults document source)
      (routePage env status document source) := by
  have hroute := simulates_route env source none []
  have hafter : ∀ items : List Json, pageData document = .ok items →
      Simulates (Statements.routePage env noFaults document source) (do
        forEach (routeOne env source none []) (← ofPy (pageIncluded document))
        forEach (routeOne env source none []) items
        return items.length) := by
    intro items hitems
    refine (Simulates.ofPy _).bind fun included => (Simulates.forEach hroute included).bind fun _ => ?_
    rw [hitems]
    exact (Simulates.forEach hroute items).bind fun _ => Simulates.pure _
  cases document with
  | obj members =>
      -- The call reads the primary resources before it stores the sideload.
      have hitems : ∃ items, pageData (.obj members) = .ok items := by
        unfold pageData
        simp only [pyGet]
        match members.lookup "data" with
        | none => exact ⟨_, rfl⟩
        | some (.arr items) => exact ⟨_, rfl⟩
        | some .null | some (.bool _) | some (.int _) | some (.real _) | some (.str _)
        | some (.obj _) => exact ⟨_, rfl⟩
      obtain ⟨items, hitems⟩ := hitems
      intro c w hheld
      have h := hafter items hitems c { w with log := items.map (.handed status) ++ w.log }
        ⟨hheld.working, hheld.tick⟩
      unfold routePage
      rw [hitems]
      exact h
  | null => exact fun _ _ h => ⟨rfl, h⟩
  | bool b => exact fun _ _ h => ⟨rfl, h⟩
  | int n => exact fun _ _ h => ⟨rfl, h⟩
  | real x => exact fun _ _ h => ⟨rfl, h⟩
  | str s => exact fun _ _ h => ⟨rfl, h⟩
  | arr items => exact fun _ _ h => ⟨rfl, h⟩

/-! ## The transaction around a block -/

end PcoMirror
