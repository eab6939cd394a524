import PcoMirror.Lib.Keyset
import PcoMirror.Verification.Ingest.Listing
import PcoMirror.Verification.Ingest.Merges

/-! The merger poll against PCO's list of mergers: that each poll ends, and which mergers no number of
polls records. -/

namespace PcoMirror

open Program

/-! ## PCO's list -/

/-- When a listed merger was created. -/
def mergedAt (e : String × Json) : String :=
  match readMerger e.2 with
  | .ok read => read.1
  | .error _ => ""

/-- A merger as PCO lists it: one that the poll can read and apply. -/
structure IsMerger (e : String × Json) : Prop where
  read : readMerger e.2 = .ok (mergedAt e, e.1)
  merge : ∃ m, polledMerge e.1 e.2 = .ok m

/-- The mergers PCO has, in the order of their creation. -/
structure IsMergerList (mergers : List (String × Json)) : Prop where
  listed : ∀ e ∈ mergers, IsMerger e
  nodup : (mergers.map (·.1)).Nodup
  sorted : mergers.Pairwise fun e e' => mergedAt e ≤ mergedAt e'

/-- PCO answers every request of the poll with a `2xx` page of a hundred of its mergers. -/
def ServesMergers (env : Env) (mergers : List (String × Json)) : Prop :=
  ∀ tick (p : PollPass), ∃ status body,
    env.respond tick p.request = .ok ⟨status, .json body⟩ ∧ 200 ≤ status ∧ status < 300 ∧
      body.member? "data" = some (.arr ((Keyset.page mergedAt 100 mergers p.wm).map (·.2)))

/-- Where the poll stands on the list. -/
abbrev Poll := Keyset.Reader (String × Json) String

/-- The watermark and the merger log are where a reader of the list stands. -/
structure Sees (mergers : List (String × Json)) (w : World) (s : Poll) : Prop where
  cursor : (w.sync .personMerger).mergerWatermark = s.cursor
  known : ∀ e ∈ mergers, w.knowsMerge e.1 ↔ s.known e

/-- The reader a state of the mirror starts as. -/
def World.poll (w : World) : Poll :=
  ⟨(w.sync .personMerger).mergerWatermark, fun e => w.knowsMerge e.1⟩

variable {env : Env} {mergers : List (String × Json)} {w : World} {s : Poll}

/-! ## One page -/

/-- A listed merger that is new is recorded, and counts as fresh. -/
theorem pollOne_listed {e : String × Json} (he : IsMerger e) (env : Env) (wm : String) (fresh : ℕ)
    (w : World) : ∃ fresh' w', (pollOne env wm fresh e.2).run w =
        .ok (if wm < mergedAt e then mergedAt e else wm, fresh') w' ∧
      w'.sync = w.sync ∧ (∀ id, w'.knowsMerge id ↔ w.knowsMerge id ∨ id = e.1) ∧
      fresh ≤ fresh' ∧ (fresh' = fresh ↔ w.knowsMerge e.1) := by
  rw [run_pollOne, he.read]
  simp only
  by_cases hknown : w.knowsMerge e.1
  · have hsome := hknown
    rw [World.knowsMerge] at hsome
    refine ⟨fresh, w, if_pos hsome, rfl, fun id => ?_, Nat.le_refl fresh, by simp [hknown]⟩
    refine ⟨.inl, fun h => h.elim (fun h => h) ?_⟩
    rintro rfl
    exact hknown
  · have hnone := hknown
    rw [World.knowsMerge] at hnone
    obtain ⟨m, hm⟩ := he.merge
    have hid := polledMerge_id hm
    simp only [hnone, Bool.false_eq_true, if_false, hm, run_bind_of_ok (run_apply env m w)]
    have happlied := (Applied.start.merge env m (hid ▸ hknown)).ids.2
    refine ⟨fresh + 1, _, rfl, sync_apply env m w, fun id => ?_, Nat.le_succ fresh, ?_⟩
    · rw [happlied id, ← hid]
      simp
    · simp [hknown]

theorem pollPage_listed (page : List (String × Json)) (hpage : ∀ e ∈ page, IsMerger e)
    (hnodup : (page.map (·.1)).Nodup) (env : Env) (wm : String) (fresh : ℕ) (w : World) :
    ∃ fresh' w', (pollPage env wm fresh (page.map (·.2))).run w =
        .ok (Keyset.advance mergedAt wm page, fresh') w' ∧
      w'.sync = w.sync ∧ (∀ id, w'.knowsMerge id ↔ w.knowsMerge id ∨ id ∈ page.map (·.1)) ∧
      fresh ≤ fresh' ∧ (fresh' = fresh ↔ ∀ e ∈ page, w.knowsMerge e.1) := by
  induction page generalizing wm fresh w with
  | nil => exact ⟨fresh, w, rfl, rfl, by simp, Nat.le_refl fresh, by simp⟩
  | cons e page ih =>
      rw [List.map_cons, List.nodup_cons] at hnodup
      obtain ⟨fresh₁, w₁, hone, hsync, hknows, hle, hfresh⟩ :=
        pollOne_listed (hpage e List.mem_cons_self) env wm fresh w
      obtain ⟨fresh₂, w₂, hrest, hsync', hknows', hle', hfresh'⟩ :=
        ih (fun e' he' => hpage e' (List.mem_cons_of_mem e he')) hnodup.2
          (if wm < mergedAt e then mergedAt e else wm) fresh₁ w₁
      refine ⟨fresh₂, w₂, ?_, hsync'.trans hsync, fun id => ?_, hle.trans hle', ?_⟩
      · rw [List.map_cons, pollPage, run_bind_of_ok hone]
        exact hrest
      · rw [hknows' id, hknows id, List.map_cons, List.mem_cons, or_assoc]
      · have hsplit : fresh₂ = fresh ↔ fresh₁ = fresh ∧ fresh₂ = fresh₁ := by omega
        rw [hsplit, hfresh, hfresh', List.forall_mem_cons]
        refine and_congr_right fun hknown => forall₂_congr fun e' he' => ?_
        rw [hknows e'.1]
        refine ⟨fun h => h.elim (fun h => h) ?_, .inl⟩
        rintro heq
        exact absurd (heq ▸ List.mem_map_of_mem he') hnodup.1

/-! ## One round -/

theorem knows_iff_of_page (h : IsMergerList mergers) {page : List (String × Json)}
    (hpage : page ⊆ mergers) {e : String × Json} (he : e ∈ mergers) :
    e.1 ∈ page.map (·.1) ↔ e ∈ page := by
  refine ⟨fun hmem => ?_, List.mem_map_of_mem⟩
  obtain ⟨e', he', heq⟩ := List.mem_map.mp hmem
  rwa [← List.inj_on_of_nodup_map h.nodup (hpage he') he heq]

theorem page_subset (mergers : List (String × Json)) (c : String) :
    Keyset.page mergedAt 100 mergers c ⊆ mergers :=
  fun _ he => (Keyset.mem_of_mem_page he).1

theorem isMerger_of_mem_page (h : IsMergerList mergers) {c : String} :
    ∀ e ∈ Keyset.page mergedAt 100 mergers c, IsMerger e :=
  fun e he => h.listed e (page_subset mergers c he)

/-- A round reads the page at the watermark, and asks for another just where the reader goes on. -/
theorem pollRound_listed (h : IsMergerList mergers) (hserves : ServesMergers env mergers)
    (hsees : Sees mergers w s) (applied : ℕ) :
    ∃ pass w', (pollRound env ⟨s.cursor, applied⟩).run w = .ok pass w' ∧
      Sees mergers w' (s.next mergedAt 100 mergers) ∧
      ∀ p, pass = .again p → s.GoesOn mergedAt 100 mergers ∧
        p.wm = (s.next mergedAt 100 mergers).cursor := by
  obtain ⟨status, body, hrespond, -, -, hdata⟩ := hserves w.tick ⟨s.cursor, applied⟩
  let page := Keyset.page mergedAt 100 mergers s.cursor
  let asked := w.asked env (PollPass.request ⟨s.cursor, applied⟩)
  have hbody : Response.document ⟨status, .json body⟩ = .ok body := document_of_member? hdata status
  have hitems : dataOf body = .ok (.arr (page.map (·.2))) := dataOf_of_member? hdata
  have hrun : (pollRound env ⟨s.cursor, applied⟩).run w =
      (if (!(Json.arr (page.map (·.2))).truthy) = true then pure (.leave applied)
        else pollItems env ⟨s.cursor, applied⟩ (page.map (·.2)) :
          Proc (Pass PollPass ℕ)).run asked := by
    rw [pollRound_eq, clientGet_bind_run hrespond, hbody, ofPy_ok_bind, hitems, ofPy_ok_bind]
    rfl
  rw [hrun]
  by_cases hempty : page = []
  · refine ⟨.leave applied, asked, by rw [hempty]; rfl, ⟨?_, fun e he => ?_⟩,
      by rintro _ ⟨⟩⟩
    · change _ = Keyset.advance mergedAt s.cursor page
      rw [hempty]
      exact hsees.cursor
    · change w.knowsMerge e.1 ↔ s.known e ∨ e ∈ page
      rw [hempty, hsees.known e he]
      simp
  · have hsub : page.Sublist mergers := (List.take_sublist _ _).trans List.filter_sublist
    obtain ⟨fresh, w', hpage, hsync, hknows, -, hfresh⟩ := pollPage_listed page
      (isMerger_of_mem_page h) (h.nodup.sublist (hsub.map _)) env s.cursor 0 asked
    let wm := Keyset.advance mergedAt s.cursor page
    let after : World := { w' with sync := fun u => if u = .personMerger then
      { w'.sync u with mergerWatermark := wm } else w'.sync u }
    have htruthy : (Json.arr (page.map (·.2))).truthy = true := by
      simp [Json.truthy, hempty]
    have hsees' : Sees mergers after (s.next mergedAt 100 mergers) := by
      refine ⟨by simp [after, wm, Keyset.Reader.next, page], fun e he => ?_⟩
      change w'.knowsMerge e.1 ↔ s.known e ∨ e ∈ page
      rw [hknows e.1, knows_iff_of_page h (page_subset mergers s.cursor) he, ← hsees.known e he]
      exact Iff.rfl
    rw [htruthy, Bool.not_true, if_neg Bool.false_ne_true, pollItems, run_bind_of_ok hpage]
    by_cases hlast : (page.map (·.2)).length < 100 ∨ (fresh = 0 ∧ wm = s.cursor)
    · refine ⟨.leave (applied + fresh), after, ?_, hsees', by rintro _ ⟨⟩⟩
      simp only [show Keyset.advance mergedAt s.cursor page = wm from rfl, if_pos hlast]
      rfl
    · refine ⟨.again ⟨wm, applied + fresh⟩, after, ?_, hsees', ?_⟩
      · simp only [show Keyset.advance mergedAt s.cursor page = wm from rfl, if_neg hlast]
        rfl
      · rintro p heq
        cases heq
        simp only [List.length_map, not_or, not_lt, not_and] at hlast
        refine ⟨⟨?_, ?_⟩, rfl⟩
        · have hle : page.length ≤ 100 := List.length_take_le _ _
          exact Nat.le_antisymm hle hlast.1
        · by_cases hfresh0 : fresh = 0
          · exact .inr (hlast.2 hfresh0)
          · refine .inl ?_
            by_contra hall
            refine hfresh0 (hfresh.mpr fun e he => ?_)
            have hknown : s.known e := by
              by_contra hnew
              exact hall ⟨e, he, hnew⟩
            exact (hsees.known e (hsub.subset he)).mpr hknown

/-! ## Repeated polls -/

/-- With fuel for every round that can bring something, a poll ends, having read at least once. -/
theorem rounds_listed (h : IsMergerList mergers) (hserves : ServesMergers env mergers) (fuel : ℕ)
    (hfuel : s.distance mergedAt mergers < fuel) (hsees : Sees mergers w s) (applied : ℕ) :
    ∃ n w' k, (whileTrue .stopped (pollRound env) fuel ⟨s.cursor, applied⟩).run w = .ok n w' ∧
      Sees mergers w' (s.after mergedAt 100 mergers (k + 1)) := by
  induction fuel generalizing w s applied with
  | zero => exact absurd hfuel (Nat.not_lt_zero _)
  | succ fuel ih =>
      obtain ⟨pass, w₁, hrun, hsees₁, hagain⟩ := pollRound_listed h hserves hsees applied
      rw [whileTrue, run_bind_of_ok hrun]
      cases pass with
      | leave n => exact ⟨n, w₁, 0, rfl, hsees₁⟩
      | again p =>
          obtain ⟨hon, hcursor⟩ := hagain p rfl
          have hfall := hon.distance_lt
          obtain ⟨n, w', k, hrest, hsees'⟩ := ih (by omega) hsees₁ p.applied
          refine ⟨n, w', k + 1, ?_, hsees'⟩
          rw [← hrest, ← hcursor]

theorem mergerPoll_listed (h : IsMergerList mergers) (hserves : ServesMergers env mergers)
    {fuel : ℕ} (hfuel : 2 * mergers.length < fuel) (hsees : Sees mergers w s) :
    ∃ n w' k, (mergerPoll env fuel).run w = .ok n w' ∧
      Sees mergers w' (s.after mergedAt 100 mergers (k + 1)) := by
  have hdistance : s.distance mergedAt mergers < fuel := s.distance_le.trans_lt hfuel
  obtain ⟨n, w', k, hrun, hsees'⟩ := rounds_listed h hserves fuel hdistance hsees 0
  refine ⟨n, w', k, ?_, hsees'⟩
  have hstate : (state .personMerger).run w = .ok (w.sync .personMerger) w := rfl
  rw [mergerPoll, run_bind_of_ok hstate, hsees.cursor]
  exact hrun

/-- What some of the polls leave. -/
def World.polled (w : World) (calls : ℕ → Env) (fuel : ℕ) : ℕ → World
  | 0 => w
  | n + 1 => (w.polled calls fuel n).after (mergerPoll (calls n) fuel)

theorem sees_polled (h : IsMergerList mergers) {calls : ℕ → Env}
    (hserves : ∀ n, ServesMergers (calls n) mergers) {fuel : ℕ} (hfuel : 2 * mergers.length < fuel)
    (w : World) (n : ℕ) :
    ∃ k ≥ n, Sees mergers (w.polled calls fuel n) (w.poll.after mergedAt 100 mergers k) := by
  induction n with
  | zero => exact ⟨0, Nat.le_refl 0, rfl, fun _ _ => Iff.rfl⟩
  | succ n ih =>
      obtain ⟨k, hk, hsees⟩ := ih
      obtain ⟨applied, w', j, hrun, hsees'⟩ := mergerPoll_listed h (hserves n) hfuel hsees
      refine ⟨k + (j + 1), by omega, ?_⟩
      rw [World.polled, World.after_of_run hrun, Keyset.Reader.after_add]
      exact hsees'

/-- Each poll ends, and some number of them records every merger on the list, just where every merger
before the watermark is recorded already, and, at or after it, every merger that lies more than a
page behind the start of a second with a page of mergers or more. -/
theorem merger_polls_complete_iff (mergers : List (String × Json)) (h : IsMergerList mergers)
    (w : World) (calls : ℕ → Env) (hserves : ∀ n, ServesMergers (calls n) mergers) (fuel : ℕ)
    (hfuel : 2 * mergers.length < fuel) :
    ((∀ n, ∃ applied w', (mergerPoll (calls n) fuel).run (w.polled calls fuel n) = .ok applied w') ∧
      ∃ n, ∀ e ∈ mergers, (w.polled calls fuel n).knowsMerge e.1) ↔
    (∀ e ∈ mergers, mergedAt e < (w.sync .personMerger).mergerWatermark → w.knowsMerge e.1) ∧
      ∀ second, (w.sync .personMerger).mergerWatermark ≤ second →
        100 ≤ mergers.countP (mergedAt · = second) →
        ∀ e ∈ (mergers.filter (second ≤ mergedAt ·)).drop 100, w.knowsMerge e.1 := by
  refine Iff.trans ?_ (Keyset.Reader.complete_iff h.sorted h.nodup.of_map 100 w.poll)
  rw [and_iff_right fun n => ?_]
  · constructor
    · rintro ⟨n, hn⟩
      obtain ⟨k, -, hsees⟩ := sees_polled h hserves hfuel w n
      exact ⟨k, fun e he => (hsees.known e he).mp (hn e he)⟩
    · rintro ⟨n, hn⟩
      obtain ⟨k, hk, hsees⟩ := sees_polled h hserves hfuel w n
      refine ⟨n, fun e he => (hsees.known e he).mpr ?_⟩
      obtain ⟨j, rfl⟩ := Nat.exists_eq_add_of_le hk
      rw [Keyset.Reader.after_add]
      exact Keyset.Reader.known_mono (hn e he) j
  · obtain ⟨k, -, hsees⟩ := sees_polled h hserves hfuel w n
    obtain ⟨applied, w', -, hrun, -⟩ := mergerPoll_listed h (hserves n) hfuel hsees
    exact ⟨applied, w', hrun⟩

/-! ## More mergers in one second than a page holds -/

/-- A merger of two people. -/
def merger (id createdAt : String) : String × Json :=
  (id, .obj [("type", .str "PersonMerger"), ("id", .str id), ("attributes", .obj [
    ("created_at", .str createdAt), ("person_to_keep_id", .str "1"),
    ("person_to_remove_id", .str ("2" ++ id))])])

/-- A PCO with some mergers and nothing else. -/
def mergersEnv (mergers : List (String × Json)) : Env :=
  { quietEnv with respond := fun _ request =>
      match request with
      | .collection .personMerger q => .ok ⟨200, .json (.obj [("data", .arr
          ((Keyset.page mergedAt 100 mergers ((q.gte.map (·.2)).getD "")).map (·.2)))])⟩
      | _ => .error .transportError }

theorem mergedAt_merger (id createdAt : String) : mergedAt (merger id createdAt) = createdAt := rfl

theorem isMerger_merger (id createdAt : String) : IsMerger (merger id createdAt) where
  read := rfl
  merge := ⟨_, rfl⟩

theorem serves_mergersEnv (mergers : List (String × Json)) :
    ServesMergers (mergersEnv mergers) mergers := by
  intro tick p
  refine ⟨200, _, rfl, by decide, by decide, ?_⟩
  by_cases hp : p.wm = "" <;> simp [hp, Json.member?]

/-- Three mergers, two of them of one second. -/
def threeMergers : List (String × Json) :=
  [merger "7" "2026-04-01T00:00:00Z", merger "8" "2026-04-01T00:00:00Z",
    merger "9" "2026-04-02T00:00:00Z"]

theorem isMergerList_threeMergers : IsMergerList threeMergers where
  listed := by
    intro e he
    simp only [threeMergers, List.mem_cons, List.not_mem_nil, or_false] at he
    rcases he with rfl | rfl | rfl <;> exact isMerger_merger _ _
  nodup := by decide
  sorted := by decide +kernel

theorem merger_polls_complete_iff_three :
    (∀ n, ∃ applied w', (mergerPoll (mergersEnv threeMergers) 7).run
        (World.polled {} (fun _ => mergersEnv threeMergers) 7 n) = .ok applied w') ∧
      ∃ n, ∀ e ∈ threeMergers,
        (World.polled {} (fun _ => mergersEnv threeMergers) 7 n).knowsMerge e.1 := by
  refine (merger_polls_complete_iff threeMergers isMergerList_threeMergers {}
    (fun _ => mergersEnv threeMergers) (fun _ => serves_mergersEnv _) 7 (by decide)).mpr ⟨?_, ?_⟩
  · intro e he hlt
    simp only [threeMergers, List.mem_cons, List.not_mem_nil, or_false] at he
    rcases he with rfl | rfl | rfl <;> exact absurd hlt (by decide)
  · intro second _ hfull
    exact absurd (hfull.trans List.countP_le_length) (by decide)

/-- A hundred and one mergers of one second. -/
def bulk : List (String × Json) :=
  (List.range 101).map fun i => merger (toString i) "2026-04-01T00:00:00Z"

theorem isMergerList_bulk : IsMergerList bulk where
  listed := by
    intro e he
    obtain ⟨i, -, rfl⟩ := List.mem_map.mp he
    exact isMerger_merger _ _
  nodup := by decide +kernel
  sorted := by
    refine List.pairwise_map.mpr (List.pairwise_of_forall fun i j => ?_)
    rw [mergedAt_merger, mergedAt_merger]

/-- The last of them is never recorded. -/
theorem merger_polls_incomplete : ¬ ∀ (mergers : List (String × Json)), IsMergerList mergers →
    ∀ (w : World) (calls : ℕ → Env), (∀ n, ServesMergers (calls n) mergers) → ∀ fuel : ℕ,
    2 * mergers.length < fuel →
    (∀ e ∈ mergers, mergedAt e < (w.sync .personMerger).mergerWatermark → w.knowsMerge e.1) →
    (∀ n, ∃ applied w', (mergerPoll (calls n) fuel).run (w.polled calls fuel n) =
      .ok applied w') ∧ ∃ n, ∀ e ∈ mergers, (w.polled calls fuel n).knowsMerge e.1 := by
  intro h
  have hserves : ∀ _ : ℕ, ServesMergers (mergersEnv bulk) bulk := fun _ => serves_mergersEnv bulk
  have hlength : 2 * bulk.length < 203 := by decide
  have hbehind : ∀ e ∈ bulk, mergedAt e < "" → World.knowsMerge {} e.1 := by
    intro e he hlt
    obtain ⟨i, -, rfl⟩ := List.mem_map.mp he
    exact absurd hlt (by rw [mergedAt_merger]; decide)
  obtain ⟨-, n, hn⟩ := h bulk isMergerList_bulk {} (fun _ => mergersEnv bulk) hserves 203 hlength
    hbehind
  have hlast : merger "100" "2026-04-01T00:00:00Z" ∈
      (Keyset.since mergedAt bulk "2026-04-01T00:00:00Z").drop 100 := by
    decide +kernel
  have hfull : Keyset.Saturated mergedAt 100 bulk "2026-04-01T00:00:00Z" := by
    change 100 ≤ bulk.countP (mergedAt · = "2026-04-01T00:00:00Z")
    decide +kernel
  obtain ⟨k, -, hsees⟩ := sees_polled isMergerList_bulk hserves hlength {} n
  have hmem : merger "100" "2026-04-01T00:00:00Z" ∈ bulk :=
    (Keyset.mem_since.mp (List.mem_of_mem_drop hlast)).1
  have hnew : ¬(World.poll {}).known (merger "100" "2026-04-01T00:00:00Z") := Bool.false_ne_true
  exact Keyset.Reader.missed_beyond isMergerList_bulk.sorted isMergerList_bulk.nodup.of_map hfull
    hlast (by decide) hnew k ((hsees.known _ hmem).mp (hn _ hmem))

end PcoMirror
