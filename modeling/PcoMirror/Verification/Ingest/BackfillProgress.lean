import PcoMirror.Verification.Ingest.BackfillSafety

/-! A backfill that PCO answers in full comes to its end. -/

namespace PcoMirror

open Program

/-! ## Programs that return -/

/-- The program returns from every state. -/
def Total {α : Type} (m : Proc α) : Prop :=
  Spec (fun _ => True) m (fun _ _ => True) fun _ _ => False

variable {α β : Type}

theorem total_pure (a : α) : Total (pure a : Proc α) :=
  Spec.pure fun _ _ => trivial

theorem total_modify (f : World → World) : Total (modify f : Proc PUnit) :=
  Spec.modify fun _ _ => trivial

theorem Total.bind {m : Proc α} {f : α → Proc β} (hm : Total m) (hf : ∀ a, Total (f a)) :
    Total (m >>= f) :=
  Spec.bind hm hf

theorem Total.forEach {action : β → Proc Unit} (xs : List β) (h : ∀ x ∈ xs, Total (action x)) :
    Total (forEach action xs) :=
  Spec.forEach xs h

theorem total_routeOne {resource : Json} {target : Option (Res × String × Json)}
    (h : routeTarget resource none [] = .ok target) (env : Env) (source : Source) :
    Total (routeOne env source none [] resource) := by
  intro w _
  rw [routeOne_run h]
  trivial

theorem total_routePage {env : Env} {status : ℕ} {body : Json} {source : Source}
    {items included : List Json} (hdata : pageData body = .ok items)
    (hincluded : pageIncluded body = .ok included)
    (hitems : ∀ doc ∈ items, ∃ target, routeTarget doc none [] = .ok target)
    (hsideload : ∀ doc ∈ included, ∃ target, routeTarget doc none [] = .ok target) :
    Total (routePage env status body source) := by
  have heach : ∀ docs : List Json, (∀ doc ∈ docs, ∃ target, routeTarget doc none [] = .ok target) →
      Total (forEach (routeOne env source none []) docs) := by
    intro docs hdocs
    refine Total.forEach docs fun doc hdoc => ?_
    obtain ⟨target, htarget⟩ := hdocs doc hdoc
    exact total_routeOne htarget env source
  simp only [routePage, hdata, hincluded, ofPy, pure_bind]
  exact (total_modify _).bind fun _ => (heach included hsideload).bind fun _ =>
    (heach items hitems).bind fun _ => total_pure _

/-! ## Honest answers -/

variable {r : Res} {c : Collection r} {env : Env}

theorem IsListing.total_routePage {q : Query} {body : Json}
    (h : IsListing body ((c.page q).map (·.2))) (status : ℕ) (source : Source) :
    Total (routePage env status body source) := by
  obtain ⟨included, hincluded, hsideload⟩ := h.included
  refine PcoMirror.total_routePage (pageData_of_member? h.data Collection.truthy_page) hincluded
    (fun doc hdoc => ?_) hsideload
  obtain ⟨e, he, rfl⟩ := List.mem_map.mp hdoc
  exact ⟨_, (Collection.has_of_mem_page he).isListed.toIsChild.routeTarget⟩

theorem IsListing.total_noteParent {body : Json} {items : List Json} (h : IsListing body items) :
    Total (noteParent body) := by
  obtain ⟨id, hid⟩ := h.organization
  unfold noteParent
  rw [hid]
  cases id with
  | none => exact total_pure _
  | some id => exact total_modify _

/-- A request for a page goes on with a `2xx` answer that lists it. -/
theorem spec_page_bind (hserves : Serves env c) {q : Query} {f : Response → Proc β}
    {Q : β → World → Prop}
    (hf : ∀ status body, 200 ≤ status → status < 300 → IsListing body ((c.page q).map (·.2)) →
      Spec (fun _ => True) (f ⟨status, .json body⟩) Q fun _ _ => False) :
    Spec (fun _ => True) (clientGet env (.collection r q) >>= f) Q fun _ _ => False := by
  intro w _
  obtain ⟨status, body, hrespond, hlow, hhigh, hlisting⟩ := hserves w.tick q
  rw [clientGet_bind_run hrespond]
  exact hf status body hlow hhigh hlisting _ trivial

/-! ## One second -/

theorem spec_drainPage_progress (hserves : Serves env c) {second next : String}
    (hnext : plusOneSecond second = .ok next) (off : ℕ) :
    Spec (fun _ => True) (drainPage env r second off)
      (Pass.Holds (fun off' _ => True ∧
        (c.selected (secondQuery r second next)).length - off' <
          (c.selected (secondQuery r second next)).length - off) fun _ _ => True)
      fun _ _ => False := by
  simp only [drainPage, hnext, ofPy, pure_bind]
  refine spec_page_bind hserves fun status body _ _ hlisting => ?_
  simp only [document_of_member? hlisting.data, dataOf_of_member? hlisting.data, pure_bind]
  refine Spec.bind (hlisting.total_routePage status .backfill) fun _ => ?_
  simp only [pyItems, Collection.mapM_itemId_page, pure_bind, List.length_map]
  refine Spec.ite (fun _ => Spec.pure fun _ _ => trivial) fun hfull => Spec.pure fun _ _ => ?_
  have hreach : off + 100 ≤ (c.selected (secondQuery r second next)).length :=
    Paging.le_of_full (by decide) hfull
  refine ⟨trivial, ?_⟩
  omega

theorem total_drainSecond (hserves : Serves env c) {second next : String}
    (hnext : plusOneSecond second = .ok next) {fuel : ℕ}
    (hfuel : (c.listing none).length < fuel) : Total (drainSecond env r second fuel) := by
  refine Spec.whileTrue_of_lt (fun _ _ => True)
    (fun off => (c.selected (secondQuery r second next)).length - off)
    (spec_drainPage_progress hserves hnext) fuel 0 ?_
  have hle : (c.selected (secondQuery r second next)).length ≤ (c.listing none).length := by
    rw [← (c.perm (some "updated_at") none).length_eq]
    exact List.length_filter_le _ _
  omega

/-! ## The keyset -/

/-- How many records the list has from a second on. -/
def Collection.countFrom (c : Collection r) (ts : String) : ℕ :=
  (c.listing none).countP fun e => ts ≤ stampOf "updated_at" e.2

/-- How many records the list has after a second. -/
def Collection.countAfter (c : Collection r) (ts : String) : ℕ :=
  (c.listing none).countP fun e => ts < stampOf "updated_at" e.2

/-- Whether the page at the cursor has been seen. -/
def Collection.seenAt (c : Collection r) (cursor : BackfillCursor) : Bool :=
  (c.page (keysetQuery r cursor.ts)).all fun e => cursor.seen.contains (.str e.1)

/-- What is left for a backfill to do: it falls with every page, also with one that only
sees again what it had seen. -/
def Collection.left (c : Collection r) (cursor : BackfillCursor) : ℕ :=
  2 * (c.countFrom cursor.ts + c.countAfter cursor.ts) + if c.seenAt cursor then 0 else 1

theorem countFrom_le {ts ts' : String} (h : ts ≤ ts') : c.countFrom ts' ≤ c.countFrom ts :=
  List.countP_mono_left fun e _ hle => by
    simp only [decide_eq_true_eq] at hle ⊢
    exact h.trans hle

theorem countAfter_le {ts ts' : String} (h : ts ≤ ts') : c.countAfter ts' ≤ c.countAfter ts :=
  List.countP_mono_left fun e _ hlt => by
    simp only [decide_eq_true_eq] at hlt ⊢
    exact lt_of_le_of_lt h hlt

/-- Past a second that has a record, fewer are left from the cursor on. -/
theorem countFrom_lt {ts ts' : String} {e : String × Json} (he : c.Has e)
    (hlow : ts ≤ stampOf "updated_at" e.2) (hhigh : stampOf "updated_at" e.2 < ts') :
    c.countFrom ts' < c.countFrom ts := by
  refine Paging.countP_lt_countP (fun y _ hy => ?_) he ?_ ?_
  · simp only [decide_eq_true_eq] at hy ⊢
    exact hlow.trans (hhigh.le.trans hy)
  · simpa using hhigh
  · simpa using hlow

/-- At a later second that has a record, fewer are left after the cursor. -/
theorem countAfter_lt {ts ts' : String} {e : String × Json} (he : c.Has e)
    (hlow : ts < stampOf "updated_at" e.2) (hhigh : stampOf "updated_at" e.2 = ts') :
    c.countAfter ts' < c.countAfter ts := by
  refine Paging.countP_lt_countP (fun y _ hy => ?_) he ?_ ?_
  · simp only [decide_eq_true_eq] at hy ⊢
    exact hlow.trans (hhigh ▸ hy)
  · simp [hhigh]
  · simpa using hlow

theorem left_le (cursor : BackfillCursor) : c.left cursor ≤ 4 * (c.listing none).length + 1 := by
  have hfrom : c.countFrom cursor.ts ≤ (c.listing none).length := List.countP_le_length
  have hafter : c.countAfter cursor.ts ≤ (c.listing none).length := List.countP_le_length
  unfold Collection.left
  split_ifs <;> omega

theorem left_lt {cursor next : BackfillCursor}
    (h : c.countFrom next.ts + c.countAfter next.ts <
      c.countFrom cursor.ts + c.countAfter cursor.ts) : c.left next < c.left cursor := by
  unfold Collection.left
  split_ifs <;> omega

/-- Stepping past a second that fills a page leaves less to do. -/
theorem left_lt_of_drained {cursor next : BackfillCursor}
    (hne : c.page (keysetQuery r cursor.ts) ≠ [])
    (hmax : newest (c.page (keysetQuery r cursor.ts)) = cursor.ts) (hnext : cursor.ts < next.ts) :
    c.left next < c.left cursor := by
  obtain ⟨e, he, hstamp⟩ := exists_newest hne
  rw [hmax] at hstamp
  have hfrom : c.countFrom next.ts < c.countFrom cursor.ts :=
    countFrom_lt (Collection.has_of_mem_page he) hstamp.ge (hstamp ▸ hnext)
  have hafter : c.countAfter next.ts ≤ c.countAfter cursor.ts := countAfter_le hnext.le
  exact left_lt (by omega)

/-- Moving to the newest time of a page that brought something new leaves less to do. -/
theorem left_lt_of_page (huat : r.info.supportsUatFilter = true) {cursor next : BackfillCursor}
    (hne : c.page (keysetQuery r cursor.ts) ≠ [])
    (hts : next.ts = newest (c.page (keysetQuery r cursor.ts)))
    (hseen : ∀ e ∈ c.page (keysetQuery r cursor.ts),
      stampOf "updated_at" e.2 = next.ts → .str e.1 ∈ next.seen)
    (hfresh : c.seenAt cursor = false ∨ cursor.ts ≠ next.ts) :
    c.left next < c.left cursor := by
  obtain ⟨e, he, hstamp⟩ := exists_newest hne
  have hfloor : ∀ e ∈ c.page (keysetQuery r cursor.ts), cursor.ts ≤ stampOf "updated_at" e.2 :=
    fun e he => ((mem_selected_keyset (c.filtered huat)).mp (Paging.mem_of_mem_page he)).2
  have hle : cursor.ts ≤ next.ts := by
    rw [hts, ← hstamp]
    exact hfloor e he
  rcases hle.lt_or_eq with hlt | heq
  · have hfrom : c.countFrom next.ts ≤ c.countFrom cursor.ts := countFrom_le hle
    have hafter : c.countAfter next.ts < c.countAfter cursor.ts :=
      countAfter_lt (Collection.has_of_mem_page he) (by rw [hstamp, ← hts]; exact hlt)
        (by rw [hstamp, hts])
    exact left_lt (by omega)
  · -- The page stays on its second, so all of it has been seen now.
    have hall : c.seenAt next = true := by
      rw [Collection.seenAt, ← heq, List.all_eq_true]
      intro e he
      have hsame : stampOf "updated_at" e.2 = next.ts :=
        le_antisymm (hts ▸ le_newest he) (heq ▸ hfloor e he)
      simpa using hseen e he hsame
    have hnot : c.seenAt cursor = false := hfresh.resolve_right (not_not.mpr heq)
    unfold Collection.left
    rw [hall, hnot, heq]
    simp

theorem plusOneSecond_of_wholeSecond {ts : String} (h : Iso8601.WholeSecond ts) :
    ∃ next, plusOneSecond ts = .ok next ∧ ts < next := by
  obtain ⟨next, hnext, hlt, -⟩ := h.plusOneSecond
  exact ⟨next, by rw [plusOneSecond, hnext], hlt⟩

/-- The records of a page at one second, as a backfill remembers them. -/
theorem mem_seen {page : List (String × Json)} {ts : String} {e : String × Json} (he : e ∈ page)
    (hts : stampOf "updated_at" e.2 = ts) :
    Json.str e.1 ∈ (((page.map fun e => Json.str e.1).zip
      (page.map fun e => stampOf "updated_at" e.2)).filter fun p => p.2 = ts).map (·.1) := by
  rw [List.zip_map']
  simp only [List.mem_map, List.mem_filter, decide_eq_true_eq]
  exact ⟨_, ⟨⟨e, he, rfl⟩, hts⟩, rfl⟩

theorem spec_backfillStep_progress (huat : r.info.supportsUatFilter = true)
    (hserves : Serves env c) {fuel : ℕ} (hfuel : (c.listing none).length < fuel)
    (cursor : BackfillCursor) :
    Spec (fun _ => True) (backfillStep env r fuel cursor)
      (fun p => Pass.Holds (fun next _ => True ∧ c.left next < c.left cursor)
        (fun _ _ => True) p.1)
      fun _ _ => False := by
  refine spec_page_bind hserves fun status body hlow hhigh hlisting => ?_
  have hok : Response.ok ⟨status, .json body⟩ = true := by simp [Response.ok, hlow, hhigh]
  simp only [hok, Bool.not_true, Bool.false_eq_true, if_false,
    document_of_member? hlisting.data, ofPy, pure_bind]
  refine Spec.bind hlisting.total_noteParent fun _ => ?_
  simp only [dataOf_of_member? hlisting.data, pure_bind]
  refine Spec.ite (fun _ => Spec.pure fun _ _ => trivial) fun hdata => ?_
  have hne : c.page (keysetQuery r cursor.ts) ≠ [] := by
    intro hnil
    refine hdata ?_
    change (!(Json.arr ((c.page (keysetQuery r cursor.ts)).map (·.2))).truthy) = true
    rw [hnil]
    rfl
  refine Spec.bind (hlisting.total_routePage status .backfill) fun _ => ?_
  simp only [pyItems, Collection.mapM_itemId_page, Collection.mapM_itemTime_page, pure_bind,
    List.length_map]
  refine Spec.ite (fun hfull => ?_) fun hnotfull => Spec.ite (fun _ => Spec.pure fun _ _ => trivial)
    fun hnotlast => ?_
  · obtain ⟨e, he, hstamp⟩ := exists_newest hne
    have hts : stampOf "updated_at" e.2 = cursor.ts := hstamp.trans hfull.1
    have hwhole := (Collection.has_of_mem_page he).isListed.updated.wholeSecond
    rw [hts] at hwhole
    obtain ⟨next, hnext, hlt⟩ := plusOneSecond_of_wholeSecond hwhole
    refine Spec.bind (total_drainSecond hserves hnext hfuel) fun _ => ?_
    simp only [hnext, pure_bind]
    exact Spec.bind (total_modify _) fun _ => Spec.pure fun _ _ =>
      ⟨trivial, left_lt_of_drained hne hfull.1 hlt⟩
  · refine Spec.bind (total_modify _) fun _ => Spec.pure fun _ _ => ⟨trivial, ?_⟩
    refine left_lt_of_page huat hne rfl (fun e he hts => mem_seen he hts) ?_
    by_cases hstay : newest (c.page (keysetQuery r cursor.ts)) = cursor.ts
    · have hlength : (c.page (keysetQuery r cursor.ts)).length ≤ 100 := by
        rw [Collection.page, Paging.length_page]
        exact Nat.min_le_left _ _
      have hshort : (c.page (keysetQuery r cursor.ts)).length < 100 :=
        lt_of_le_of_ne hlength fun h => hnotfull ⟨hstay, h⟩
      left
      by_contra hseen
      refine hnotlast ⟨?_, hshort⟩
      rw [List.all_map]
      exact eq_true_of_ne_false hseen
    · exact .inr fun h => hstay h.symm

/-- An unbounded backfill reads the keyset to its end. -/
theorem runs_keyset (huat : r.info.supportsUatFilter = true) (hserves : Serves env c) {fuel : ℕ}
    (hfuel : 4 * (c.listing none).length + 1 < fuel) (start : BackfillPass) (w : World) :
    ∃ ts applied w', (whileTrue .stopped (backfillPage env r none fuel) fuel start).run w =
      .ok (.finished ts applied) w' := by
  have hpage : ∀ p : BackfillPass, Spec (fun _ => True) (backfillPage env r none fuel p)
      (Pass.Holds (fun next _ => True ∧ c.left next.cursor < c.left p.cursor)
        fun e _ => ∃ ts applied, e = .finished ts applied) fun _ _ => False := by
    intro p
    refine Spec.ite (fun hspent => absurd hspent (by simp)) fun _ => ?_
    refine Spec.bind (spec_backfillStep_progress huat hserves (by omega) p.cursor) fun q => ?_
    obtain ⟨pass, ids⟩ := q
    cases pass with
    | again next => exact Spec.pure fun _ h => h
    | leave ts => exact Spec.pure fun _ _ => ⟨ts, _, rfl⟩
  have hstart := left_le (c := c) start.cursor
  obtain ⟨e, w', hrun, ts, applied, rfl⟩ := (Spec.whileTrue_of_lt (fun _ _ => True)
    (fun p : BackfillPass => c.left p.cursor) hpage fuel start (by omega)).returns
    (trivial : (fun _ : World => True) w)
  exact ⟨ts, applied, w', hrun⟩

/-! ## Offset paging -/

theorem spec_offsetStep_progress (hserves : Serves env c) (source : Source) (off : ℕ) :
    Spec (fun _ => True) (offsetStep env r source off)
      (fun p => Pass.Holds (fun off' _ => True ∧
        (c.listing none).length - off' < (c.listing none).length - off) (fun _ _ => True) p.1)
      fun _ _ => False := by
  refine spec_page_bind hserves fun status body _ _ hlisting => ?_
  simp only [document_of_member? hlisting.data, dataOf_of_member? hlisting.data, ofPy, pure_bind]
  refine Spec.bind (hlisting.total_routePage status source) fun n => ?_
  simp only [pyItems, pure_bind, List.length_map]
  refine Spec.ite (fun _ => ?_) fun hfull => Spec.pure fun _ _ => ⟨trivial, ?_⟩
  · exact Spec.bind (total_modify _) fun _ => Spec.pure fun _ _ => trivial
  · have hreach : off + 100 ≤ (c.selected (plainQuery r)).length :=
      Paging.le_of_full (by decide) hfull
    have hle : (c.selected (plainQuery r)).length ≤ (c.listing none).length :=
      List.length_filter_le _ _
    omega

theorem runs_offset (hserves : Serves env c) {fuel : ℕ}
    (hfuel : (c.listing none).length < fuel) (source : Source) (start : OffsetPass) (w : World) :
    ∃ n w', (whileTrue .stopped (offsetPage env r source none) fuel start).run w =
      .ok (true, n) w' := by
  have hpage : ∀ p : OffsetPass, Spec (fun _ => True) (offsetPage env r source none p)
      (Pass.Holds (fun next _ => True ∧
        (c.listing none).length - next.off < (c.listing none).length - p.off)
        fun q _ => q.1 = true) fun _ _ => False := by
    intro p
    refine Spec.ite (fun hspent => absurd hspent (by simp)) fun _ => ?_
    refine Spec.bind (spec_offsetStep_progress hserves source p.off) fun q => ?_
    obtain ⟨pass, n⟩ := q
    cases pass with
    | again off => exact Spec.pure fun _ h => h
    | leave _ => exact Spec.pure fun _ _ => rfl
  obtain ⟨⟨done, n⟩, w', hrun, rfl⟩ := (Spec.whileTrue_of_lt (fun _ _ => True)
    (fun p : OffsetPass => (c.listing none).length - p.off) hpage fuel start (by omega)).returns
    (trivial : (fun _ : World => True) w)
  exact ⟨n, w', hrun⟩

end PcoMirror
