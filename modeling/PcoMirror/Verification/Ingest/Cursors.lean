import PcoMirror.Verification.Ingest.Delivery

/-! The stored cursors of a resource, and when what they claim has been delivered. -/

namespace PcoMirror

open Program

variable {r : Res}

/-! ## What has been delivered -/

/-- Every record with a time below this one has been delivered. -/
def Below (c : Collection r) (ts : String) (w : World) : Prop :=
  ∀ e, c.Has e → stampOf "updated_at" e.2 < ts → w.delivered e.2

/-- Every record with a time up to this one has been delivered. -/
def Through (c : Collection r) (ts : String) (w : World) : Prop :=
  ∀ e, c.Has e → stampOf "updated_at" e.2 ≤ ts → w.delivered e.2

/-- Every record on PCO's list has been delivered. -/
def Complete (c : Collection r) (w : World) : Prop :=
  ∀ e, c.Has e → w.delivered e.2

/-- The first records a query selects have been delivered. -/
def Fronted (c : Collection r) (q : Query) (n : ℕ) (w : World) : Prop :=
  ∀ e ∈ (c.selected q).take n, w.delivered e.2

/-- A property that more deliveries do not spoil. -/
def Grows (R : World → Prop) : Prop :=
  ∀ w w' : World, (∀ doc, w.delivered doc → w'.delivered doc) → R w → R w'

theorem Grows.persists {R : World → Prop} (h : Grows R) : Persists R :=
  fun w w' hfollows => h w w' fun _ => hfollows.delivered

theorem Grows.and {R S : World → Prop} (hR : Grows R) (hS : Grows S) :
    Grows fun w => R w ∧ S w :=
  fun w w' hmore h => ⟨hR w w' hmore h.1, hS w w' hmore h.2⟩

variable (c : Collection r)

theorem grows_below (ts : String) : Grows (Below c ts) :=
  fun _ _ hmore h e he hlt => hmore _ (h e he hlt)

theorem grows_complete : Grows (Complete c) :=
  fun _ _ hmore h e he => hmore _ (h e he)

theorem grows_fronted (q : Query) (n : ℕ) : Grows (Fronted c q n) :=
  fun _ _ hmore h e he => hmore _ (h e he)

/-! ## Safe cursors -/

/-- A sync state claims nothing that has not been delivered: not by the mark of a
completed backfill, by the seconds of a keyset, or by a watermark and an offset. -/
structure Safe (c : Collection r) (st : SyncState) (w : World) : Prop where
  complete : st.phase = "streaming" ∨ st.backfillCompletedAt.isSome = true → Complete c w
  keyset : r.info.supportsUatFilter = true → Below c (st.backfillCursorTs.getD "") w ∧
    Below c st.reconcileWatermark w ∧ Below c st.reconcileCursor w
  offset : r.info.supportsUatFilter = false → Through c st.reconcileWatermark w ∧
    ∀ cursor ∈ [st.reconcileWatermark, st.reconcileCursor],
      Fronted c (plainQuery r) (digitsOrZero cursor) w

/-- The stored sync state of the resource is safe. -/
def CursorSafe (c : Collection r) (w : World) : Prop :=
  Safe c (w.sync r) w

/-- The cursors are safe, and a property holds of what has been delivered. -/
def Safely (c : Collection r) (R : World → Prop) (w : World) : Prop :=
  CursorSafe c w ∧ R w

variable {c}

theorem grows_safe (st : SyncState) : Grows (Safe c st) := by
  intro w w' hmore h
  refine ⟨fun hdone => grows_complete c w w' hmore (h.complete hdone), fun huat => ?_,
    fun huat => ⟨fun e he hle => hmore _ ((h.offset huat).1 e he hle), fun cursor hcursor =>
      grows_fronted c _ _ w w' hmore ((h.offset huat).2 cursor hcursor)⟩⟩
  obtain ⟨hbackfill, hwatermark, hcursor⟩ := h.keyset huat
  exact ⟨grows_below c _ w w' hmore hbackfill, grows_below c _ w w' hmore hwatermark,
    grows_below c _ w w' hmore hcursor⟩

theorem persists_safely {R : World → Prop} (hR : Grows R) : Persists (Safely c R) := by
  rintro w w' hfollows ⟨hsafe, hw⟩
  refine ⟨?_, hR.persists w w' hfollows hw⟩
  rw [CursorSafe, hfollows.sync]
  exact (grows_safe _).persists w w' hfollows hsafe

theorem Safely.mono {R S : World → Prop} (h : ∀ w, R w → S w) {w : World} (hw : Safely c R w) :
    Safely c S w :=
  ⟨hw.1, h w hw.2⟩

theorem spec_setState {P R : World → Prop} {E : Halt → World → Prop} (hR : Grows R)
    {f : SyncState → SyncState} (h : ∀ w, P w → Safe c (f (w.sync r)) w ∧ R w) :
    Spec P (setState r f) (fun _ => Safely c R) E := by
  refine Spec.modify fun w hw => ?_
  obtain ⟨hsafe, hdone⟩ := h w hw
  refine ⟨?_, hR w _ (fun _ hdoc => hdoc) hdone⟩
  simp only [CursorSafe, if_true]
  exact grows_safe _ w _ (fun _ hdoc => hdoc) hsafe

theorem spec_state_bind {α : Type} {P : World → Prop} {f : SyncState → Proc α}
    {Q : α → World → Prop} {E : Halt → World → Prop}
    (h : ∀ st, Spec (fun w => P w ∧ w.sync r = st) (f st) Q E) : Spec P (state r >>= f) Q E :=
  fun w hw => h (w.sync r) w ⟨hw, rfl⟩


/-- Once everything has been delivered, no claim is too much. -/
theorem Complete.safe {w : World} (h : Complete c w) (st : SyncState) : Safe c st w :=
  ⟨fun _ => h, fun _ => ⟨fun e he _ => h e he, fun e he _ => h e he, fun e he _ => h e he⟩,
    fun _ => ⟨fun e he _ => h e he, fun _ _ e he => h e
      (Collection.mem_listing.mp (List.mem_of_mem_filter (List.mem_of_mem_take he)))⟩⟩

/-- A backfill under way claims no more than before. -/
theorem Safe.backfilling {st : SyncState} {w : World} (h : Safe c st w) :
    Safe c { st with phase := "backfilling" } w := by
  refine ⟨fun hdone => ?_, h.keyset, h.offset⟩
  rcases hdone with hphase | hcompleted
  · exact absurd hphase (show ¬ "backfilling" = "streaming" by decide)
  · exact h.complete (.inr hcompleted)

/-! ## Pages -/

/-- Routing a listed page delivers its records. -/
theorem Lists.spec_routePage {P : World → Prop} (hP : Persists P) {q : Query} {status : ℕ}
    {body : Json} (h : Lists c q status body) (env : Env) (source : Source) :
    Spec P (routePage env status body source)
      (fun _ w => P w ∧ ∀ e ∈ c.page q, w.delivered e.2) fun _ => P := by
  have hdata := pageData_of_member? h.data Collection.truthy_page
  refine (spec_routePage_hands hP hdata).conseq (fun _ hw => hw) ?_ fun _ _ hw => hw
  rintro n w ⟨hw, hhanded⟩
  exact ⟨hw, fun e he => ⟨status, h.low, h.high, hhanded e.2 (List.mem_map_of_mem he)⟩⟩

/-- The page at an offset carries the delivered front on. -/
theorem Fronted.page {q : Query} {off : ℕ} {w : World} (h : Fronted c q off w)
    (hpage : ∀ e ∈ c.page { q with offset := some off }, w.delivered e.2) :
    Fronted c q (off + 100) w := by
  intro e he
  rw [← Paging.take_append_page] at he
  rcases List.mem_append.mp he with hfront | hnew
  · exact h e hfront
  · exact hpage e hnew

/-- A short page ends what the query selects. -/
theorem Fronted.short {q : Query} {off : ℕ} {w : World} (h : Fronted c q (off + 100) w)
    (hshort : (c.page { q with offset := some off }).length < 100) :
    ∀ e ∈ c.selected q, w.delivered e.2 := by
  intro e he
  have htake : (c.selected q).take (off + 100) = c.selected q := Paging.take_of_short hshort
  exact h e (by rwa [htake])

theorem below_empty (w : World) : Below c "" w :=
  fun _ _ hlt => absurd (empty_le _) (not_le.mpr hlt)

/-- The cursor may move to the newest time of a delivered page. -/
theorem Below.page (hfilter : c.honours "updated_at" = true) {ts : String} {w : World}
    (h : Below c ts w) (hpage : ∀ e ∈ c.page (keysetQuery r ts), w.delivered e.2) :
    Below c (newest (c.page (keysetQuery r ts))) w := by
  intro e he hlt
  by_cases hts : stampOf "updated_at" e.2 < ts
  · exact h e he hts
  · have hne : c.page (keysetQuery r ts) ≠ [] := by
      intro hnil
      rw [hnil] at hlt
      exact absurd (empty_le _) (not_le.mpr hlt)
    obtain ⟨y, hy, hnewest⟩ := exists_newest hne
    have hselected := (mem_selected_keyset hfilter).mpr ⟨he, not_lt.mp hts⟩
    exact hpage e (Paging.mem_page_zero_of_lt (pairwise_selected_keyset ts) hselected hy
      (by rwa [hnewest]))

/-- A short page of the keyset is the end of the list. -/
theorem Below.complete (hfilter : c.honours "updated_at" = true) {ts : String} {w : World}
    (h : Below c ts w) (hpage : ∀ e ∈ c.page (keysetQuery r ts), w.delivered e.2)
    (hshort : (c.page (keysetQuery r ts)).length < 100) : Complete c w := by
  intro e he
  by_cases hts : stampOf "updated_at" e.2 < ts
  · exact h e he hts
  · have hselected := (mem_selected_keyset hfilter).mpr ⟨he, not_lt.mp hts⟩
    have hall : (c.selected (keysetQuery r ts)).take 100 = c.selected (keysetQuery r ts) :=
      Paging.take_of_short hshort
    refine hpage e ?_
    change e ∈ (c.selected (keysetQuery r ts)).take 100
    rwa [hall]

/-- The cursor may move past a drained second. -/
theorem Below.second {ts next : String} {w : World} (h : Below c ts w)
    (hsecond : ∀ e, c.Has e → ts ≤ stampOf "updated_at" e.2 → stampOf "updated_at" e.2 < next →
      w.delivered e.2) : Below c next w := by
  intro e he hlt
  by_cases hts : stampOf "updated_at" e.2 < ts
  · exact h e he hts
  · exact hsecond e he (not_lt.mp hts) hlt

end PcoMirror
