import PcoMirror.Verification.Ingest.BackfillSafety

/-! What a sweep has delivered when it stores its watermark. -/

namespace PcoMirror

open Program

variable {r : Res} {c : Collection r} {env : Env} (hanswers : Answers env c)
  (hclean : ∀ tick q body, Misreports (env.respond tick (.collection r q)) body →
    q.forgiving = true ∧ ∀ data, dataOf body = .ok data → data.truthy = false)

/-! ## By keyset -/

theorem spec_saveSweep {P R : World → Prop} {E : Halt → World → Prop} (hP : Persists P)
    (hR : Grows R) (cursor : String)
    (h : ∀ w, P w → ∀ now, Safe c { w.sync r with
      reconcileWatermark := cursor
      reconcileCursor := cursor
      lastSweepCompletedAt := some now } w ∧ R w) :
    Spec P (saveSweep env r cursor) (fun _ => Safely c R) E := by
  have hnow : Spec P (nowIso env) (fun _ => P) E := fun w hw => hP w _ ⟨rfl, List.suffix_rfl⟩ hw
  exact Spec.bind hnow fun now => spec_setState hR fun w hw => h w hw now

/-- The sweep may store a second below which everything has been delivered. -/
theorem spec_saveSweep_below {E : Halt → World → Prop} (huat : r.info.supportsUatFilter = true)
    (cursor : String) :
    Spec (Safely c (Below c cursor)) (saveSweep env r cursor)
      (fun _ => Safely c (Below c cursor)) E := by
  refine spec_saveSweep (persists_safely (grows_below c cursor)) (grows_below c cursor) cursor
    fun w hw now => ⟨⟨hw.1.complete, fun _ => ⟨(hw.1.keyset huat).1, hw.2, hw.2⟩, ?_⟩, hw.2⟩
  intro hno
  rw [huat] at hno
  cases hno

omit hanswers in
include hclean in
theorem unforgiving : ∀ tick q, q.forgiving = false → ∀ body,
    ¬ Misreports (env.respond tick (.collection r q)) body := by
  intro tick q hq body hmisreports
  have hforgiving := (hclean tick q body hmisreports).1
  rw [hq] at hforgiving
  cases hforgiving

include hanswers hclean

theorem spec_sweepPage (huat : r.info.supportsUatFilter = true) (fuel : ℕ) (p : SweepPass) :
    Spec (Safely c (Below c p.cursor)) (sweepPage env r fuel p)
      (Pass.Holds (fun p => Safely c (Below c p.cursor)) fun p => Safely c (Below c p.cursor))
      fun _ => CursorSafe c := by
  have hfilter := c.filtered huat
  have hbelow : Persists (Safely c (Below c p.cursor)) := persists_safely (grows_below c p.cursor)
  have hhalt : ∀ (R : World → Prop) (e : Halt) w, Safely c R w → CursorSafe c w :=
    fun _ _ _ hw => hw.1
  refine spec_clientGet_bind hbelow (hhalt _) fun tick resp hresp =>
    spec_ofPy_bind (fun body hbody => ?_) fun _ w _ hw => hw.1
  cases hok : resp.ok with
  | false =>
      have hempty := (hclean tick _ body ⟨resp, hresp, hok, hbody⟩).2
      refine spec_ofPy_bind (fun data hdata => ?_) fun _ w _ hw => hw.1
      simp only [hempty data hdata, Bool.not_false, if_true]
      exact Spec.pure fun _ hw => hw
  | true =>
      have hlists : Lists c (keysetQuery r p.cursor) resp.status body :=
        hanswers.lists hresp hok hbody
      simp only [dataOf_of_member? hlists.data, ofPy, pure_bind]
      refine Spec.ite (fun _ => Spec.pure fun _ hw => hw) fun _ => ?_
      refine Spec.bind ((hlists.spec_routePage hbelow env .reconcile).mono_halt (hhalt _))
        fun n => ?_
      have hdone : Grows fun w => Below c p.cursor w ∧
          ∀ e ∈ c.page (keysetQuery r p.cursor), w.delivered e.2 :=
        (grows_below c p.cursor).and fun w w' hmore h e he => hmore _ (h e he)
      simp only [pyItems, pure_bind]
      refine Spec.conseq (spec_quiet_bind (quiet_diffPeople env r body _) (persists_safely hdone)
        (hhalt _) fun _ => ?_) (fun w hw => ⟨hw.1.1, hw.1.2, hw.2⟩) (fun _ _ hw => hw)
        fun _ _ hw => hw
      simp only [Collection.mapM_itemTime_page, pure_bind, List.length_map]
      refine Spec.ite (fun hfull => ?_) fun _ => Spec.ite (fun _ => Spec.pure fun w hw => ?_)
        fun _ => Spec.ite (fun _ => Spec.pure fun w hw => ?_) fun _ => ?_
      · have hnext : ∀ next, Spec (Safely c (Below c next)) (do
            saveSweep env r next
            return .again ⟨next, p.applied + n⟩)
            (Pass.Holds (fun p : SweepPass => Safely c (Below c p.cursor)) fun p : SweepPass =>
              Safely c (Below c p.cursor)) fun _ => CursorSafe c :=
          fun next => Spec.bind (spec_saveSweep_below huat next) fun _ => Spec.pure fun _ hw => hw
        refine (spec_drain_bind hanswers (unforgiving hclean) hfilter (fun _ _ hw => hw)
          hnext).conseq (fun _ hw => hw.mono fun _ h => h.1) (fun _ _ hw => hw) fun _ _ hw => hw
      · exact hw.mono fun _ h => h.1
      · exact hw.mono fun _ h => h.1.page hfilter h.2
      · refine Spec.bind ((spec_saveSweep_below huat _).conseq (fun w hw => ?_) (fun _ _ hw => hw)
          fun _ _ hw => hw) fun _ => Spec.pure fun _ hw => hw
        exact hw.mono fun _ h => h.1.page hfilter h.2

theorem keeps_keysetSweep (huat : r.info.supportsUatFilter = true) (fuel : ℕ) :
    Keeps (CursorSafe c) (keysetSweep env r fuel) := by
  refine spec_state_bind fun st => ?_
  refine Spec.bind (Spec.conseq (Spec.whileTrue
    (fun p : SweepPass => Safely c (Below c p.cursor))
    (spec_sweepPage hanswers hclean huat fuel) (fun _ _ hw => hw.1) fuel _)
    ?_ (fun _ _ hw => hw) fun _ _ hw => hw) fun swept => ?_
  · rintro w ⟨hw, rfl⟩
    exact ⟨hw, (hw.keyset huat).2.1⟩
  · exact Spec.bind (spec_saveSweep_below huat swept.cursor) fun _ => Spec.pure fun _ hw => hw.1

/-! ## Newest first -/

omit hanswers hclean

/-- The listing newest first. -/
def newestFirst : Query where
  order := some "-updated_at"

theorem mem_selected_newestFirst {e : String × Json} : e ∈ c.selected newestFirst ↔ c.Has e := by
  simp [Collection.selected, Query.keeps, newestFirst, Collection.mem_listing]

theorem pairwise_selected_newestFirst : (c.selected newestFirst).Pairwise fun a b =>
    stampOf "updated_at" b.2 ≤ stampOf "updated_at" a.2 :=
  c.descending.filter _

/-- The records above the old watermark have been delivered, of some records. -/
def Skimmed (wm : String) (es : List (String × Json)) (w : World) : Prop :=
  ∀ e ∈ es, wm < stampOf "updated_at" e.2 → w.delivered e.2

theorem grows_skimmed (wm : String) (es : List (String × Json)) : Grows (Skimmed wm es) :=
  fun _ _ hmore h e he hlt => hmore _ (h e he hlt)

/-- The newest time a sweep holds is the old watermark or a listed record's. -/
def HighFrom (c : Collection r) (wm hi : String) : Prop :=
  hi = wm ∨ ∃ e, c.Has e ∧ hi = stampOf "updated_at" e.2

/-- A document without a `2xx` status answers a descending sweep at its first page at
most, and brings no data there. -/
def CleanDescent (env : Env) (r : Res) : Prop :=
  ∀ tick off body,
    Misreports (env.respond tick (.collection r { newestFirst with offset := some off })) body →
      off = 0 ∧ ∀ data, dataOf body = .ok data → data.truthy = false

variable {P : World → Prop}

theorem spec_handOver {E : Halt → World → Prop} (hP : Persists P) {status : ℕ} {doc : Json}
    (hlow : 200 ≤ status) (hhigh : status < 300) :
    Spec P (logEntry (.handed status doc)) (fun _ w => P w ∧ w.delivered doc) E :=
  Spec.modify fun w hw => ⟨hP w _ ⟨rfl, List.suffix_cons _ _⟩ hw,
    status, hlow, hhigh, List.mem_cons_self⟩

/-- Going down one page delivers its records above the old watermark, or meets it. -/
theorem spec_descendItems (hP : Persists P) {status : ℕ} (hlow : 200 ≤ status)
    (hhigh : status < 300) (env : Env) {wm : String} (es : List (String × Json))
    (hes : ∀ e ∈ es, c.Has e)
    (hsorted : es.Pairwise fun a b => stampOf "updated_at" b.2 ≤ stampOf "updated_at" a.2)
    (p : DescendPass) (hp : HighFrom c wm p.hi) :
    Spec P (descendItems env status wm p (es.map (·.2)))
      (fun q w => P w ∧ Skimmed wm es w ∧ q.2.off = p.off ∧ HighFrom c wm q.2.hi ∧
        (q.1 = true → ∃ e ∈ es, stampOf "updated_at" e.2 ≤ wm)) fun _ => P := by
  induction es generalizing P p with
  | nil => exact Spec.pure fun w hw => ⟨hw, nofun, rfl, hp, nofun⟩
  | cons e es ih =>
      have hhas := hes e (by simp)
      obtain ⟨attributes, hattributes, huat⟩ := hhas.isListed.updated.items
      obtain ⟨hbelow, hrest⟩ := List.pairwise_cons.mp hsorted
      have hmeets : meetsWatermark wm (.str (stampOf "updated_at" e.2)) =
          .ok (decide (wm ≠ "" ∧ stampOf "updated_at" e.2 ≤ wm)) := by
        by_cases hwm : wm = "" <;>
          simp [meetsWatermark, hwm, pyText, bind, Except.bind, pure, Except.pure]
      simp only [List.map_cons, descendItems, hattributes, huat, hmeets, ofPy, pure_bind]
      refine Spec.ite (fun hmet => Spec.pure fun w hw => ?_) fun hnot => ?_
      · have hle := (of_decide_eq_true hmet).2
        refine ⟨hw, fun e' he' hlt => ?_, rfl, hp, fun _ => ⟨e, by simp, hle⟩⟩
        rcases List.mem_cons.mp he' with rfl | hafter
        · exact absurd hle (not_le.mpr hlt)
        · exact absurd ((hbelow e' hafter).trans hle) (not_le.mpr hlt)
      · have hP' : Persists fun w => P w ∧ w.delivered e.2 :=
          fun w w' hfollows h => ⟨hP w w' hfollows h.1, hfollows.delivered h.2⟩
        have hhi : HighFrom c wm (if p.hi < stampOf "updated_at" e.2
            then stampOf "updated_at" e.2 else p.hi) := by
          split_ifs
          · exact .inr ⟨e, hhas, rfl⟩
          · exact hp
        refine Spec.bind (spec_handOver hP hlow hhigh) fun _ =>
          spec_quiet_bind (quiet_routeOne env .reconcile none [] e.2) hP' (fun _ _ hw => hw.1)
            fun _ => ?_
        refine (ih hP' (fun e' he' => hes e' (by simp [he'])) hrest _ hhi).conseq
          (fun _ hw => hw) ?_ fun _ _ hw => hw.1
        rintro ⟨stop, q⟩ w ⟨⟨hw, hdelivered⟩, hskimmed, hoff, hhigh, hmet⟩
        refine ⟨hw, fun e' he' hlt => ?_, hoff, hhigh, fun hstop => ?_⟩
        · rcases List.mem_cons.mp he' with rfl | hafter
          · exact hdelivered
          · exact hskimmed e' hafter hlt
        · obtain ⟨e', he', hle⟩ := hmet hstop
          exact ⟨e', by simp [he'], hle⟩

/-- A descending sweep between two pages. -/
structure Descending (c : Collection r) (wm : String) (p : DescendPass) (w : World) : Prop where
  skimmed : Skimmed wm ((c.selected newestFirst).take p.off) w
  high : HighFrom c wm p.hi
  fresh : p.off = 0 → p.hi = wm

/-- A descending sweep that has ended, after this many failures: it met the old watermark
or the end of the list, or else it has failed and not moved. -/
structure Descended (c : Collection r) (wm : String) (failures : ℕ) (p : DescendPass)
    (w : World) : Prop where
  done : (∀ e, c.Has e → wm < stampOf "updated_at" e.2 → w.delivered e.2) ∨
    p.hi = wm ∧ failures < w.failures
  high : HighFrom c wm p.hi

theorem grows_descending (wm : String) (p : DescendPass) : Grows (Descending c wm p) :=
  fun w w' hmore h => ⟨grows_skimmed wm _ w w' hmore h.skimmed, h.high, h.fresh⟩

theorem persists_descended (wm : String) (n : ℕ) (p : DescendPass) :
    Persists (Descended c wm n p) :=
  fun _ _ hfollows h => ⟨h.done.imp (fun hdone e he hlt => hfollows.delivered (hdone e he hlt))
    fun hstayed => ⟨hstayed.1, hstayed.2.trans_le hfollows.failures⟩, h.high⟩

theorem Persists.and {I J : World → Prop} (hI : Persists I) (hJ : Persists J) :
    Persists fun w => I w ∧ J w :=
  fun w w' hfollows h => ⟨hI w w' hfollows h.1, hJ w w' hfollows h.2⟩

theorem pyItems_of_falsy {data : Json} (h : data.truthy = false) {items : List Json}
    (hitems : pyItems data = .ok items) : items = [] := by
  cases data <;> simp_all [pyItems, Json.truthy]

/-- A page skimmed carries the skimmed front on. -/
theorem Skimmed.page {wm : String} {off : ℕ} {w : World}
    (h : Skimmed wm ((c.selected newestFirst).take off) w)
    (hpage : Skimmed wm (c.page { newestFirst with offset := some off }) w) :
    Skimmed wm ((c.selected newestFirst).take (off + 100)) w := by
  intro e he hlt
  rw [← Paging.take_append_page] at he
  rcases List.mem_append.mp he with hfront | hnew
  · exact h e hfront hlt
  · exact hpage e hnew hlt

/-- What a sweep has skimmed to the end of the list, or to a record not above the old
watermark, leaves nothing above it. -/
theorem Skimmed.all {wm : String} {off : ℕ} {w : World}
    (h : Skimmed wm ((c.selected newestFirst).take (off + 100)) w)
    (hend : (Paging.page 100 off (c.selected newestFirst)).length < 100 ∨
      ∃ e ∈ Paging.page 100 off (c.selected newestFirst), stampOf "updated_at" e.2 ≤ wm)
    {e : String × Json} (he : c.Has e) (hlt : wm < stampOf "updated_at" e.2) : w.delivered e.2 := by
  have hselected := mem_selected_newestFirst.mpr he
  rcases hend with hshort | ⟨d, hd, hle⟩
  · exact h e (by rwa [Paging.take_of_short hshort]) hlt
  · have hsorted := pairwise_selected_newestFirst (c := c)
    have hfront : d ∈ (c.selected newestFirst).take (off + 100) := by
      rw [← Paging.take_append_page]
      exact List.mem_append_right _ hd
    rw [← List.take_append_drop (off + 100) (c.selected newestFirst)] at hsorted hselected
    rcases List.mem_append.mp hselected with htaken | hdropped
    · exact h e htaken hlt
    · have hbelow := (List.pairwise_append.mp hsorted).2.2 d hfront e hdropped
      exact absurd (hbelow.trans hle) (not_le.mpr hlt)

section

variable (hdescent : CleanDescent env r)

include hanswers hdescent

theorem spec_descendPage (hP : Persists P) {n : ℕ} (hbegun : ∀ w, P w → n ≤ w.failures)
    (wm : String) (p : DescendPass) :
    Spec (fun w => P w ∧ Descending c wm p w) (descendPage env r wm p)
      (Pass.Holds (fun p w => P w ∧ Descending c wm p w) fun p w => P w ∧ Descended c wm n p w)
      fun _ => P := by
  refine spec_ask_bind (hP.and (grows_descending wm p).persists) (fun w hw => hbegun w hw.1)
    (fun _ _ hw => hw.1) fun tick resp hresp => spec_ofPy_bind (fun body hbody => ?_)
    fun _ w _ hw => hw.1.1
  cases hok : resp.ok with
  | false =>
      obtain ⟨hfirst, hempty⟩ := hdescent tick p.off body ⟨resp, hresp, hok, hbody⟩
      refine spec_ofPy_bind (fun data hdata => spec_ofPy_bind (fun items hitems => ?_)
        fun _ w _ hw => hw.1.1) fun _ w _ hw => hw.1.1
      rw [pyItems_of_falsy (hempty data hdata) hitems]
      exact Spec.pure fun w hw =>
        ⟨hw.1.1, .inr ⟨hw.1.2.fresh hfirst, hw.2 rfl⟩, hw.1.2.high⟩
  | true =>
      have hlists : Lists c { newestFirst with offset := some p.off } resp.status body :=
        hanswers.lists hresp hok hbody
      simp only [dataOf_of_member? hlists.data, pyItems, ofPy, pure_bind]
      intro w hw
      have hskimmed := hw.1.2.skimmed
      have hfront := hP.and
        (grows_skimmed wm ((c.selected newestFirst).take p.off)).persists
      have hitems := spec_descendItems hfront hlists.low hlists.high
        env (c.page { newestFirst with offset := some p.off })
        (fun e he => Collection.has_of_mem_page he)
        ((pairwise_selected_newestFirst.drop).take) p hw.1.2.high
      refine Spec.bind (hitems.mono_halt fun _ _ hw => hw.1) (fun q => ?_) w ⟨hw.1.1, hskimmed⟩
      obtain ⟨stop, q⟩ := q
      rw [List.length_map]
      refine Spec.ite (fun hend => Spec.pure ?_) fun _ => Spec.pure ?_
      · rintro w ⟨⟨hw, hfront⟩, hpage, hoff, hhigh, hmet⟩
        have hall := Skimmed.page hfront hpage
        exact ⟨hw, .inl fun e he hlt => hall.all (hend.imp id hmet) he hlt, hhigh⟩
      · rintro w ⟨⟨hw, hfront⟩, hpage, hoff, hhigh, -⟩
        have hall := Skimmed.page hfront hpage
        refine ⟨hw, ?_, hhigh, fun hzero => ?_⟩
        · change Skimmed wm ((c.selected newestFirst).take (q.off + 100)) w
          rwa [hoff]
        · change q.off + 100 = 0 at hzero
          omega

/-- A descending sweep comes to its end with safe contents for its watermark. -/
theorem spec_descending (hP : Persists P) {n : ℕ} (hbegun : ∀ w, P w → n ≤ w.failures)
    (wm : String) (fuel : ℕ) :
    Spec P (whileTrue .stopped (descendPage env r wm) fuel { off := 0, hi := wm })
      (fun p w => P w ∧ Descended c wm n p w) fun _ => P := by
  refine Spec.conseq (Spec.whileTrue (fun p w => P w ∧ Descending c wm p w)
    (spec_descendPage hanswers hdescent hP hbegun wm) (fun _ _ hw => hw.1) fuel _)
    (fun w hw => ⟨hw, ?_, .inl rfl, fun _ => rfl⟩) (fun _ _ hw => hw) fun _ _ hw => hw
  intro e he
  simp at he

end

include hanswers hclean

theorem keeps_descendingSweep (huat : r.info.supportsUatFilter = false) (fuel : ℕ) :
    Keeps (CursorSafe c) (descendingSweep env r fuel) := by
  refine spec_state_bind fun st => ?_
  have hP : Persists fun w => CursorSafe c w ∧ w.sync r = st := by
    rintro w w' hfollows ⟨hsafe, rfl⟩
    refine ⟨?_, congrFun hfollows.sync r⟩
    rw [CursorSafe, hfollows.sync]
    exact (grows_safe _).persists w w' hfollows hsafe
  have hdescent : CleanDescent env r := by
    intro tick off body hmisreports
    obtain ⟨hforgiving, hempty⟩ := hclean tick _ body hmisreports
    exact ⟨by simpa [Query.forgiving, newestFirst] using hforgiving, hempty⟩
  refine Spec.bind ((spec_descending hanswers hdescent hP (fun w _ => Nat.zero_le w.failures)
    st.reconcileWatermark fuel).mono_halt fun _ _ hw => hw.1) fun p => ?_
  refine Spec.bind (spec_saveSweep (hP.and (persists_descended st.reconcileWatermark 0 p)) (fun _ _ _ _ => trivial) p.hi fun w hw now => ⟨?_, trivial⟩)
    fun _ => Spec.pure fun _ hw => hw.1
  obtain ⟨⟨hsafe, rfl⟩, hdone, -⟩ := hw
  obtain ⟨hthrough, hfronted⟩ := hsafe.offset huat
  rcases hdone with hall | ⟨hsame, -⟩
  · have hcomplete : Complete c w := fun e he => by
      by_cases hlt : (w.sync r).reconcileWatermark < stampOf "updated_at" e.2
      · exact hall e he hlt
      · exact hthrough e he (not_lt.mp hlt)
    exact hcomplete.safe _
  · have hkeep : ∀ cursor ∈ [p.hi, p.hi], Fronted c (plainQuery r) (digitsOrZero cursor) w := by
      intro cursor hcursor
      rw [hsame] at hcursor
      exact hfronted cursor (by simp_all)
    refine ⟨hsafe.complete, fun hyes => ?_, fun _ => ⟨by rwa [hsame], hkeep⟩⟩
    rw [huat] at hyes
    cases hyes

end PcoMirror
