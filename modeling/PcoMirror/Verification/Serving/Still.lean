import PcoMirror.Verification.Serving.Reads
import PcoMirror.Verification.Walk.Frame

/-! Reads that leave the mirror as they find it: a read writes only through the walks it asks for,
and a walk it asks for goes on record. -/

namespace PcoMirror

open Program

/-- Some collection is on record that was not known. -/
def World.Learned (known : Res → String → Bool) (w : World) : Prop :=
  ∃ c parentId, w.parentWalked c parentId = true ∧ known c parentId = false

/-- The mirror is as it was found, or has learned something. -/
def World.Still (P : World → Prop) (known : Res → String → Bool) (w : World) : Prop :=
  (P w ∧ w.parentWalked = known) ∨ w.Learned known

variable {env : Env} {fuel : ℕ} {P : World → Prop} {known : Res → String → Bool} {α : Type}

theorem Writes.learned {w w' : World} (h : Writes w w') (hw : w.Learned known) :
    w'.Learned known := by
  rwa [World.Learned, h.parentWalked]

theorem World.Learned.withWalk {w : World} {c : Res} {parentId : String}
    (h : w.Learned known ∨ known c parentId = false) (walk : WalkState) :
    (w.withWalk c parentId walk).Learned known := by
  rcases h with ⟨c', id, hwalked, hknown⟩ | hknown
  · exact ⟨c', id, by rw [parentWalked_withWalk, hwalked, Bool.or_true], hknown⟩
  · exact ⟨c, parentId, by simp [parentWalked_withWalk], hknown⟩

theorem spec_ensureParentWalked (env : Env) (fuel : ℕ) (known : Res → String → Bool)
    (c parent : Res) (parentId : String) :
    Spec (fun w => w.Learned known ∨ known c parentId = false)
      (ensureParentWalked env c parent parentId fuel) (fun _ w => w.Learned known)
      fun _ _ => True := by
  have hI : ∀ w w' : World, Writes w w' → w.Learned known ∨ known c parentId = false →
      w'.Learned known ∨ known c parentId = false :=
    fun w w' hw h => h.imp_left hw.learned
  refine Spec.bind (R := fun w₀ w => w₀ = w ∧ (w.Learned known ∨ known c parentId = false))
    (fun w hw => ⟨rfl, hw⟩) fun w₀ => Spec.ite (fun hwalked => Spec.pure ?_) fun _ => ?_
  · rintro _ ⟨rfl, hlearned | hknown⟩
    · exact hlearned
    · exact ⟨c, parentId, hwalked, hknown⟩
  · refine Spec.bind (((walkParent_recorded hI .passthrough fuel).conseq (fun _ h => h.2)
      (fun _ _ h => h) fun _ _ _ => trivial)) fun _ => Spec.pure ?_
    rintro _ ⟨w', walk, hw', rfl⟩
    exact .withWalk hw' walk

/-! ## Steps of a read -/

/-- What a program of the mirror does holds of it while a read is served; it ends in no answer of
its own. -/
theorem spec_onMirror_faults {m : Proc α} {P : World → Prop} {Q : α → World → Prop}
    (h : Spec P m Q fun _ _ => True) :
    Spec (fun x : Reading => P x.world) (onExchange (onMirror m)) (fun a x => Q a x.world)
      fun fault _ => ∀ status detail info, fault ≠ .http status detail info := by
  intro x hx
  have hq := h x.world hx
  rw [run_onExchange, run_onMirror]
  cases hm : m.run x.world with
  | ok a w' => simpa only [hm] using hq
  | error halt w' =>
      cases halt
      all_goals
        intro status detail info hfault
        cases hfault

theorem spec_onMirror_of {m : Proc α} {P : World → Prop} {Q : α → World → Prop}
    (h : Spec P m Q fun _ _ => True) :
    Spec (fun x : Reading => P x.world) (onExchange (onMirror m)) (fun a x => Q a x.world)
      fun _ _ => True :=
  (spec_onMirror_faults h).mono_halt fun _ _ _ => trivial

theorem spec_tried {m : Proc α} {P : World → Prop} {Q : α → World → Prop}
    (h : Spec P m Q fun _ _ => True) :
    Spec P (PcoMirror.attempt m) (fun tried w => ∀ a, tried = .ok a → Q a w) fun _ _ => True := by
  intro w hw
  have hq := h w hw
  rw [run_attempt]
  match hrun : m.run w with
  | .ok a w' =>
      rintro b hb
      cases hb
      simpa only [hrun] using hq
  | .error (.raised e) w' => exact nofun
  | .error .stopped w' => trivial

/-- A read finds the mirror as it was, or what it asked for has been learned. -/
def Reading.Still (P : World → Prop) (known : Res → String → Bool) (x : Reading) : Prop :=
  x.world.Still P known

theorem still_present (collections : Db → List (Res × String)) :
    Keeps (Reading.Still P known) (present collections) :=
  Keeps.modify fun _ h => h

theorem still_fillParent (c parent : Res) (budget : ℕ) (parentId : String) :
    Spec (Reading.Still P known) (fillParent env fuel c parent budget parentId)
      (fun _ => Reading.Still P known) fun _ _ => True := by
  have hnote : Spec (Reading.Still P known) (noteEnsured c parentId)
      (fun _ => Reading.Still P known) fun _ _ => True := Spec.modify fun _ h => h
  refine Spec.bind (R := fun x₀ x => x₀ = x ∧ x.Still P known) (fun x hx => ⟨rfl, hx⟩)
    fun x₀ => Spec.ite (fun _ => ?_) fun hunwalked => ?_
  · exact (Spec.bind hnote fun _ => Spec.pure fun _ h => h).conseq (fun _ h => h.2)
      (fun _ _ h => h) fun _ _ h => h
  · refine Spec.ite (fun _ => Spec.pure fun _ h => h.2) fun _ =>
      Spec.ite (fun _ => Spec.throw fun _ _ => trivial) fun _ => ?_
    have hunknown : ∀ x : Reading, x₀ = x ∧ x.Still P known →
        x.world.Learned known ∨ known c parentId = false := by
      rintro _ ⟨rfl, ⟨-, hknown⟩ | hlearned⟩
      · exact .inr (by rw [← hknown]; simpa using hunwalked)
      · exact .inl hlearned
    have hfill := spec_onMirror_of
      (spec_tried (spec_ensureParentWalked env fuel known c parent parentId))
    refine Spec.bind (hfill.conseq hunknown (fun _ _ h => h) fun _ _ h => h) fun tried => ?_
    cases tried with
    | ok _ =>
        exact (Spec.bind hnote fun _ => Spec.pure fun _ h => h).conseq
          (fun x h => .inr (h _ rfl)) (fun _ _ h => h) fun _ _ h => h
    | error e => exact Spec.throw fun _ _ => trivial

theorem still_fillRow (r c parent : Res) (budget : ℕ) (held : Held) :
    Spec (Reading.Still P known) (fillRow env fuel r c parent budget held)
      (fun _ => Reading.Still P known) fun _ _ => True := by
  refine Spec.bind (R := fun _ => Reading.Still P known) (fun _ hx => hx) fun db => ?_
  exact Spec.bind ((spec_readPy _).conseq (fun _ h => h) (fun _ _ h => h.2) fun _ _ h => h)
    fun ids => Spec.foldlM ids (fun budget id _ => still_fillParent c parent budget id) budget

theorem still_ensureWalked (r : Res) (rel : Rel) (rows : List Held) :
    Spec (Reading.Still P known) (ensureWalked env fuel r rel rows)
      (fun _ => Reading.Still P known) fun _ _ => True := by
  unfold ensureWalked
  cases rel.walkedUnder with
  | none => exact Spec.pure fun _ h => h
  | some parent =>
      exact Spec.bind (Spec.foldlM rows (fun budget held _ =>
        still_fillRow r rel.target parent budget held) 25) fun _ => Spec.pure fun _ h => h

theorem still_readRelated (r : Res) (rel : Rel) (rows : List Held) :
    Spec (Reading.Still P known) (readRelated r rel rows) (fun _ => Reading.Still P known)
      fun _ _ => True := by
  refine Spec.bind ((still_present _).mono_halt fun _ _ _ => trivial) fun _ =>
    Spec.bind (R := fun _ => Reading.Still P known) (fun _ hx => hx) fun db => ?_
  exact (spec_readPy _).conseq (fun _ h => h) (fun _ _ h => h.2) fun _ _ h => h

theorem World.Still.imp {Q : World → Prop} {w : World} (h : w.Still P known)
    (himp : P w → Q w) : w.Still Q known :=
  h.imp_left fun h => ⟨himp h.1, h.2⟩

theorem still_database :
    Spec (Reading.Still P known) database
      (fun db => Reading.Still (fun w => P w ∧ w.db = db) known) fun _ _ => True :=
  fun _ hx => hx.imp fun hP => ⟨hP, rfl⟩

theorem still_ofFault (e : Except Fault α) :
    Spec (Reading.Still P known) (ofFault e)
      (fun a => Reading.Still (fun w => P w ∧ e = .ok a) known) fun _ _ => True := by
  cases e with
  | ok a => exact Spec.pure fun _ hx => hx.imp fun hP => ⟨hP, rfl⟩
  | error e => exact Spec.throw fun _ _ => trivial

theorem still_readPy (e : Except PyError α) :
    Spec (Reading.Still P known) (readPy e)
      (fun a => Reading.Still (fun w => P w ∧ e = .ok a) known) fun _ _ => True := by
  cases e with
  | ok a => exact Spec.pure fun _ hx => hx.imp fun hP => ⟨hP, rfl⟩
  | error e => exact Spec.throw fun _ _ => trivial

theorem still_readSql (e : Except SqlError α) :
    Spec (Reading.Still P known) (readSql e)
      (fun a => Reading.Still (fun w => P w ∧ e = .ok a) known) fun _ _ => True := by
  cases e with
  | ok a => exact Spec.pure fun _ hx => hx.imp fun hP => ⟨hP, rfl⟩
  | error e => exact Spec.throw fun _ _ => trivial

/-! ## Includes -/

section

variable {I : Reading → Prop} {E : Fault → Reading → Prop} {site : Site} {u : Unicode}
  (hfail : ∀ fault x, I x → E fault x)
  (hwalked : ∀ (r : Res) (rel : Rel) (rows : List Held),
    Spec I (ensureWalked env fuel r rel rows) (fun _ => I) E)
  (hrelated : ∀ (r : Res) (rel : Rel) (rows : List Held),
    Spec I (readRelated r rel rows) (fun _ => I) E)

include hfail in
theorem readPy_keeps (e : Except PyError α) : Spec I (readPy e) (fun _ => I) E := by
  cases e with
  | ok a => exact Spec.pure fun _ h => h
  | error e => exact Spec.throw fun x h => hfail _ x h

include hrelated in
theorem echoRow_keeps (r : Res) (rel rel2 : Rel) (second : String) (g : Gathered) (held : Held) :
    Spec I (echoRow r rel rel2 second g held) (fun _ => I) E := by
  have hids : ∀ own, Spec I (echoIds rel rel2 own) (fun _ => I) E := fun own =>
    Spec.foldlM (I := fun _ => I) own (fun ids one _ =>
      Spec.bind (hrelated rel.target rel2 [one]) fun hop => Spec.pure fun _ h => h) []
  exact Spec.bind (hrelated r rel [held]) fun own => Spec.ite (fun _ => Spec.pure fun _ h => h)
    fun _ => Spec.bind (hids own) fun ids => Spec.pure fun _ h => h

include hfail hwalked hrelated in
theorem includeToken_keeps (fields : List (String × List String)) (r : Res) (rows : List Held)
    (g : Gathered) (token : String) :
    Spec I (includeToken env site u fuel fields r rows g token) (fun _ => I) E := by
  unfold includeToken
  simp only
  split
  · exact Spec.throw fun x h => hfail _ x h
  · rename_i rel _
    refine Spec.bind (hwalked r rel rows) fun _ => Spec.bind (hrelated r rel rows) fun level1 =>
      Spec.bind (readPy_keeps hfail _) fun g => Spec.ite (fun _ => Spec.pure fun _ h => h)
        fun _ => ?_
    split
    · exact Spec.pure fun _ h => h
    · rename_i rel2 _
      refine Spec.bind (hwalked rel.target rel2 level1) fun _ =>
        Spec.bind (hrelated rel.target rel2 level1) fun level2 =>
          Spec.bind (readPy_keeps hfail _) fun g => ?_
      exact Spec.foldlM (I := fun _ => I) rows
        (fun g held _ => echoRow_keeps hrelated r rel rel2 _ g held) g

include hfail hwalked hrelated in
/-- What every walk and every lookup keeps, an include keeps. -/
theorem buildIncludes_keeps (r : Res) (rows : List Held) (qs : Qs) :
    Spec I (buildIncludes env site u fuel r rows qs) (fun _ => I) E := by
  unfold buildIncludes
  split
  · exact Spec.pure fun _ h => h
  · exact Spec.pure fun _ h => h
  · exact Spec.foldlM (I := fun _ => I) _
      (fun g token _ => includeToken_keeps hfail hwalked hrelated _ r rows g token) {}

end

theorem still_buildIncludes {site : Site} {u : Unicode} (r : Res) (rows : List Held) (qs : Qs) :
    Spec (Reading.Still P known) (buildIncludes env site u fuel r rows qs)
      (fun _ => Reading.Still P known) fun _ _ => True :=
  buildIncludes_keeps (fun _ _ _ => trivial) still_ensureWalked still_readRelated r rows qs

end PcoMirror
