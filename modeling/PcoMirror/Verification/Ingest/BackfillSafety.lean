import PcoMirror.Verification.Ingest.Cursors

/-! A backfill keeps its cursors safe where no page it asks for by offset fails unseen. -/

namespace PcoMirror

open Program

variable {r : Res} {c : Collection r} {env : Env}

/-- A second whose successor cannot be named is not drained. -/
theorem spec_drainSecond_error {P : World → Prop} {second : String} {e : PyError}
    (hnext : plusOneSecond second = .error e) (fuel : ℕ) :
    Spec P (drainSecond env r second fuel) (fun _ _ => False) fun _ => P := by
  refine Spec.whileTrue (fun _ => P) (fun off => ?_) (fun _ _ hw => hw) fuel 0
  simp only [drainPage, hnext]
  exact Spec.throw fun _ hw => hw

theorem spec_saveBackfill {P : World → Prop} {E : Halt → World → Prop}
    (huat : r.info.supportsUatFilter = true) (next : BackfillCursor)
    (h : ∀ w, P w → Safely c (Below c next.ts) w) :
    Spec P (saveBackfill r next) (fun _ => Safely c (Below c next.ts)) E := by
  refine spec_setState (grows_below c next.ts) fun w hw => ?_
  obtain ⟨hsafe, hbelow⟩ := h w hw
  have hphase := hsafe.backfilling
  refine ⟨⟨hphase.complete, fun _ => ⟨hbelow, (hsafe.keyset huat).2⟩, hphase.offset⟩, hbelow⟩

/-- Marking a resource complete is safe once everything has been delivered. -/
theorem keeps_finishing {f : String → SyncState → SyncState} {E : Halt → World → Prop} :
    Spec (Safely c (Complete c)) (do
        let now ← nowIso env
        setState r (f now)) (fun _ => Safely c (Complete c)) E := by
  have hnow : Spec (Safely c (Complete c)) (nowIso env) (fun _ => Safely c (Complete c)) E :=
    fun w hw => persists_safely (grows_complete c) w _ ⟨rfl, List.suffix_rfl⟩ hw
  exact Spec.bind hnow fun now => spec_setState (grows_complete c) fun w hw => ⟨hw.2.safe _, hw.2⟩

/-- An offset that was saved is read back. -/
theorem digitsOrZero_toString (n : ℕ) : digitsOrZero (toString n) = n := by
  have hdigits : ∀ c ∈ Nat.toDigits 10 n, c.isDigit = true :=
    fun c hc => Nat.isDigit_of_mem_toDigits (by decide) (by decide) hc
  have hne : n.repr ≠ "" := by
    intro h
    have hnil : Nat.toDigits 10 n = [] := by rw [← Nat.toList_repr, h]; rfl
    exact Nat.toDigits_ne_nil hnil
  change digitsOrZero n.repr = n
  rw [digitsOrZero, if_pos ⟨hne, by rw [Nat.toList_repr, List.all_eq_true]; exact hdigits⟩,
    Nat.toList_repr, Nat.ofDigitChars_ten_toDigits]

theorem digitsOrZero_empty : digitsOrZero "" = 0 := rfl

variable (hanswers : Answers env c)
  (hclean : ∀ tick q, q.forgiving = false → ∀ body,
    ¬ Misreports (env.respond tick (.collection r q)) body)

include hanswers hclean

/-! ## One second -/

theorem spec_drainPage {R : World → Prop} (hR : Grows R) {second next : String}
    (hnext : plusOneSecond second = .ok next) (off : ℕ) :
    Spec (Safely c fun w => R w ∧ Fronted c (secondQuery r second next) off w)
      (drainPage env r second off)
      (Pass.Holds (fun off => Safely c fun w => R w ∧ Fronted c (secondQuery r second next) off w)
        fun _ => Safely c fun w =>
          R w ∧ ∀ e ∈ c.selected (secondQuery r second next), w.delivered e.2)
      fun _ => Safely c R := by
  have hgrows := hR.and (grows_fronted c (secondQuery r second next) off)
  have hhalt : ∀ (e : Halt) w, Safely c (fun w => R w ∧
      Fronted c (secondQuery r second next) off w) w → Safely c R w :=
    fun _ _ hw => hw.mono fun _ h => h.1
  simp only [drainPage, hnext, ofPy, pure_bind]
  refine spec_clientGet_bind (persists_safely hgrows) hhalt fun tick resp hresp =>
    spec_ofPy_bind (fun body hbody => ?_) fun _ w _ hw => hhalt .stopped w hw
  have hlists := hanswers.lists_of_clean hresp (hclean tick _ rfl) hbody
  simp only [dataOf_of_member? hlists.data, pure_bind]
  refine Spec.bind ((hlists.spec_routePage (persists_safely hgrows) env .backfill).mono_halt hhalt) fun _ => ?_
  simp only [pyItems, Collection.mapM_itemId_page, pure_bind, List.length_map]
  refine Spec.ite (fun hshort => Spec.pure ?_) fun _ => Spec.pure ?_
  · rintro w ⟨⟨hsafe, hw, hfront⟩, hpage⟩
    exact ⟨hsafe, hw, (hfront.page hpage).short hshort⟩
  · rintro w ⟨⟨hsafe, hw, hfront⟩, hpage⟩
    exact ⟨hsafe, hw, hfront.page hpage⟩

/-- A drained second has been delivered to its last record. -/
theorem spec_drainSecond (hfilter : c.honours "updated_at" = true) {R : World → Prop}
    (hR : Grows R) {second next : String} (hnext : plusOneSecond second = .ok next) (fuel : ℕ) :
    Spec (Safely c R) (drainSecond env r second fuel)
      (fun _ => Safely c fun w => R w ∧ ∀ e, c.Has e → second ≤ stampOf "updated_at" e.2 →
        stampOf "updated_at" e.2 < next → w.delivered e.2)
      fun _ => Safely c R := by
  have hstart : ∀ w, Safely c R w →
      Safely c (fun w => R w ∧ Fronted c (secondQuery r second next) 0 w) w :=
    fun w hw => hw.mono fun _ h => ⟨h, fun e he => by simp at he⟩
  refine Spec.conseq (Spec.whileTrue
    (fun off => Safely c fun w => R w ∧ Fronted c (secondQuery r second next) off w)
    (fun off => spec_drainPage hanswers hclean hR hnext off)
    (fun _ _ hw => hw.mono fun _ h => h.1) fuel 0) hstart ?_ fun _ _ hw => hw
  intro _ w hw
  refine hw.mono fun w hall => ⟨hall.1, fun e he hlow hhigh => ?_⟩
  exact hall.2 e ((mem_selected_second hfilter).mpr ⟨he, hlow, hhigh⟩)

/-- The cursor steps past a second once it has been drained. -/
theorem spec_drain_bind (hfilter : c.honours "updated_at" = true) {ts : String} {α : Type}
    {fuel : ℕ} {f : String → Proc α} {Q : α → World → Prop} {E : Halt → World → Prop}
    (hE : ∀ e w, CursorSafe c w → E e w)
    (hf : ∀ next, Spec (Safely c (Below c next)) (f next) Q E) :
    Spec (Safely c (Below c ts))
      (do
        drainSecond env r ts fuel
        let next ← ofPy (plusOneSecond ts)
        f next) Q E := by
  cases hnext : plusOneSecond ts with
  | error e =>
      refine Spec.bind ((spec_drainSecond_error hnext fuel).mono_halt fun e w hw => hE e w hw.1)
        fun _ => ?_
      exact Spec.throw fun _ hw => hw.elim
  | ok next =>
      have hdrained := spec_drainSecond hanswers hclean hfilter (grows_below c ts) hnext fuel
      refine Spec.bind (hdrained.conseq (fun _ hw => hw) (fun _ w hw => ?_)
        fun e w hw => hE e w hw.1) fun _ => hf next
      exact hw.mono fun _ h => h.1.second h.2

/-! ## The keyset -/

/-- A page of the keyset moves the cursor past nothing it has not delivered. -/
theorem spec_backfillStep (huat : r.info.supportsUatFilter = true) (fuel : ℕ)
    (cursor : BackfillCursor) :
    Spec (Safely c (Below c cursor.ts)) (backfillStep env r fuel cursor)
      (fun p => Pass.Holds (fun next => Safely c (Below c next.ts))
        (fun _ => Safely c (Complete c)) p.1)
      fun _ => CursorSafe c := by
  have hfilter := c.filtered huat
  have hbelow := grows_below c cursor.ts
  have hhalt : ∀ (R : World → Prop) (e : Halt) w, Safely c R w → CursorSafe c w :=
    fun _ _ _ hw => hw.1
  refine spec_clientGet_bind (persists_safely hbelow) (hhalt _) fun tick resp hresp => ?_
  cases hok : resp.ok with
  | false => exact Spec.throw fun w hw => hw.1
  | true =>
      simp only [Bool.not_true, Bool.false_eq_true, if_false]
      refine spec_ofPy_bind (fun body hbody => ?_) fun _ w _ hw => hw.1
      have hlists : Lists c (keysetQuery r cursor.ts) resp.status body :=
        hanswers.lists hresp hok hbody
      refine spec_quiet_bind (quiet_noteParent body) (persists_safely hbelow) (hhalt _) fun _ => ?_
      simp only [dataOf_of_member? hlists.data, ofPy, pure_bind]
      refine Spec.ite (fun hempty => Spec.pure fun w hw => ?_) fun _ => ?_
      · have hnil : c.page (keysetQuery r cursor.ts) = [] := by
          simpa [Json.truthy] using hempty
        refine ⟨hw.1, hw.2.complete hfilter ?_ ?_⟩ <;> simp [hnil]
      refine Spec.bind ((hlists.spec_routePage (persists_safely hbelow) env .backfill).mono_halt (hhalt _))
        fun _ => ?_
      simp only [pyItems, Collection.mapM_itemId_page, Collection.mapM_itemTime_page, pure_bind,
        List.length_map]
      refine Spec.ite (fun hfull => ?_) fun _ => Spec.ite (fun hlast => ?_) fun _ => ?_
      · have hnext : ∀ next, Spec (Safely c (Below c next)) (do
            saveBackfill r ⟨next, []⟩
            return (.again ⟨next, []⟩, (c.page (keysetQuery r cursor.ts)).map fun e => Json.str e.1))
            (fun p : Pass BackfillCursor String × List Json =>
              Pass.Holds (fun next => Safely c (Below c next.ts))
                (fun _ => Safely c (Complete c)) p.1)
            fun _ => CursorSafe c :=
          fun next => Spec.bind (spec_saveBackfill huat ⟨next, []⟩ fun _ hw => hw) fun _ =>
            Spec.pure fun _ hw => hw
        refine (spec_drain_bind hanswers hclean hfilter (fun _ _ hw => hw) hnext).conseq
          (fun _ hw => hw.1) (fun _ _ hw => hw) fun _ _ hw => hw
      · exact Spec.pure fun w hw => ⟨hw.1.1, hw.1.2.complete hfilter hw.2 hlast.2⟩
      · refine Spec.bind (spec_saveBackfill huat _ fun w hw => ?_) fun _ => Spec.pure fun _ hw => hw
        exact ⟨hw.1.1, hw.1.2.page hfilter hw.2⟩

/-- How a unit of the keyset ended: paused with safe cursors, or with all delivered. -/
def BackfillEnd.Holds (c : Collection r) : BackfillEnd → World → Prop
  | .unfinished _ => CursorSafe c
  | .finished _ _ => Safely c (Complete c)

theorem spec_backfillPage (huat : r.info.supportsUatFilter = true) (maxPages : Option ℕ)
    (fuel : ℕ) (p : BackfillPass) :
    Spec (Safely c (Below c p.cursor.ts)) (backfillPage env r maxPages fuel p)
      (Pass.Holds (fun p => Safely c (Below c p.cursor.ts)) (BackfillEnd.Holds c))
      fun _ => CursorSafe c := by
  refine Spec.ite (fun _ => ?_) fun _ => ?_
  · exact Spec.bind (spec_saveBackfill huat p.cursor fun _ hw => hw) fun _ =>
      Spec.pure fun _ hw => hw.1
  · refine Spec.bind (spec_backfillStep hanswers hclean huat fuel p.cursor) fun q => ?_
    obtain ⟨pass, ids⟩ := q
    cases pass with
    | again next => exact Spec.pure fun _ hw => hw
    | leave ts => exact Spec.pure fun _ hw => hw

theorem keeps_backfillKeyset (huat : r.info.supportsUatFilter = true) (maxPages : Option ℕ)
    (fuel : ℕ) : Keeps (CursorSafe c) (backfillKeyset env r maxPages fuel) := by
  refine spec_state_bind fun st => ?_
  refine Spec.bind (Spec.conseq (Spec.whileTrue
    (fun p : BackfillPass => Safely c (Below c p.cursor.ts))
    (spec_backfillPage hanswers hclean huat maxPages fuel) (fun _ _ hw => hw.1) fuel _)
    ?_ (fun _ _ hw => hw) fun _ _ hw => hw) fun e => ?_
  · rintro w ⟨hw, rfl⟩
    exact ⟨hw, (hw.keyset huat).1⟩
  · cases e with
    | unfinished applied => exact Spec.pure fun _ hw => hw
    | finished ts applied =>
        exact Spec.bind (keeps_finishing.conseq (fun _ hw => hw) (fun _ _ hw => hw.1)
          fun _ _ hw => hw) fun _ => Spec.pure fun _ hw => hw

/-! ## Offset paging -/

theorem spec_offsetStep (source : Source) (off : ℕ) :
    Spec (Safely c (Fronted c (plainQuery r) off)) (offsetStep env r source off)
      (fun p => Pass.Holds (fun off => Safely c (Fronted c (plainQuery r) off))
        (fun _ => Safely c (Complete c)) p.1)
      fun _ => CursorSafe c := by
  have hfront := grows_fronted c (plainQuery r) off
  have hhalt : ∀ (e : Halt) w, Safely c (Fronted c (plainQuery r) off) w → CursorSafe c w :=
    fun _ _ hw => hw.1
  refine spec_clientGet_bind (persists_safely hfront) hhalt fun tick resp hresp =>
    spec_ofPy_bind (fun body hbody => ?_) fun _ w _ hw => hw.1
  have hlists := hanswers.lists_of_clean hresp (hclean tick _ rfl) hbody
  simp only [dataOf_of_member? hlists.data, ofPy, pure_bind]
  refine Spec.bind ((hlists.spec_routePage (persists_safely hfront) env source).mono_halt hhalt) fun n => ?_
  simp only [pyItems, pure_bind, List.length_map]
  refine Spec.ite (fun hshort => ?_) fun _ => Spec.pure ?_
  · refine Spec.bind (spec_setState (grows_complete c) fun w hw => ?_) fun _ =>
      Spec.pure fun _ hw => hw
    have hall : Complete c w := fun e he =>
      (hw.1.2.page hw.2).short hshort e (mem_selected_plain.mpr he)
    exact ⟨hall.safe _, hall⟩
  · rintro w ⟨⟨hsafe, hw⟩, hpage⟩
    exact ⟨hsafe, hw.page hpage⟩

/-- What an offset walk returned: that it is complete only with all delivered. -/
def OffsetEnd (c : Collection r) (p : Bool × ℕ) : World → Prop :=
  if p.1 then Safely c (Complete c) else CursorSafe c

theorem spec_offsetPage (huat : r.info.supportsUatFilter = false) (source : Source)
    (maxPages : Option ℕ) (p : OffsetPass) :
    Spec (Safely c (Fronted c (plainQuery r) p.off)) (offsetPage env r source maxPages p)
      (Pass.Holds (fun p => Safely c (Fronted c (plainQuery r) p.off)) (OffsetEnd c))
      fun _ => CursorSafe c := by
  refine Spec.ite (fun _ => ?_) fun _ => ?_
  · refine Spec.bind (spec_setState (grows_fronted c (plainQuery r) p.off) fun w hw => ⟨?_, hw.2⟩)
      fun _ => Spec.pure fun _ hw => hw.1
    refine ⟨hw.1.complete, fun hyes => ?_, fun _ => ⟨(hw.1.offset huat).1, ?_⟩⟩
    · rw [huat] at hyes
      cases hyes
    · simp only [List.mem_cons, List.not_mem_nil, or_false, forall_eq_or_imp, forall_eq,
        digitsOrZero_toString]
      exact ⟨(hw.1.offset huat).2 _ (by simp), hw.2⟩
  · refine Spec.bind (spec_offsetStep hanswers hclean source p.off) fun q => ?_
    obtain ⟨pass, n⟩ := q
    cases pass with
    | again off => exact Spec.pure fun _ hw => hw
    | leave _ => exact Spec.pure fun _ hw => hw

theorem keeps_backfillOffset (huat : r.info.supportsUatFilter = false) (maxPages : Option ℕ)
    (fuel : ℕ) : Keeps (CursorSafe c) (backfillOffset env r maxPages fuel) := by
  have hall : Spec (CursorSafe c) (offsetPageAll env r .backfill maxPages fuel) (OffsetEnd c)
      fun _ => CursorSafe c := by
    refine spec_state_bind fun st => ?_
    refine Spec.conseq (Spec.whileTrue
      (fun p : OffsetPass => Safely c (Fronted c (plainQuery r) p.off))
      (spec_offsetPage hanswers hclean huat .backfill maxPages) (fun _ _ hw => hw.1) fuel _)
      ?_ (fun _ _ hw => hw) fun _ _ hw => hw
    rintro w ⟨hw, rfl⟩
    exact ⟨hw, (hw.offset huat).2 _ (by simp)⟩
  refine Spec.bind hall fun p => ?_
  obtain ⟨done, n⟩ := p
  cases done with
  | false =>
      have hpause : Spec (CursorSafe c) (setState r fun st => { st with phase := "backfilling" })
          (fun _ => Safely c fun _ => True) fun _ => CursorSafe c :=
        spec_setState (fun _ _ _ _ => trivial) fun w hw => ⟨Safe.backfilling hw, trivial⟩
      exact Spec.bind hpause fun _ => Spec.pure fun _ hw => hw.1
  | true =>
      have hfinish : Spec (Safely c (Complete c)) (finishOffset env r)
          (fun _ => Safely c (Complete c)) fun _ => CursorSafe c :=
        spec_quiet_bind (quiet_maxUat r) (persists_safely (grows_complete c))
          (fun _ _ hw => hw.1) fun hi => keeps_finishing
      exact Spec.bind hfinish fun _ => Spec.pure fun _ hw => hw.1

end PcoMirror
