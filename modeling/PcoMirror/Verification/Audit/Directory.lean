import PcoMirror.Lib.Paging
import PcoMirror.Model.Ingest.Audit
import PcoMirror.Verification.Ingest.Listing

/-! The listing of a delete audit: whichever way it turns at a page, the ids it has passed
are the ones it has gathered, and it comes to the end of the list. -/

namespace PcoMirror

open Program

/-- The ids PCO lists of a resource with their creation times, in the order of these,
whether the endpoint honours the filter on them, and the ids it answers `404` about. -/
structure Directory where
  entries : List (String × String)
  honours : Bool
  sorted : entries.Pairwise fun a b => a.2 ≤ b.2
  absent : String → Bool

namespace Directory

def ids (d : Directory) : List String :=
  d.entries.map (·.1)

/-- What a request selects, in its order. -/
def selected (d : Directory) (q : Query) : List (String × String) :=
  d.entries.filter fun e => !d.honours || q.gte.all fun f => f.2 ≤ e.2

def page (d : Directory) (q : Query) : List (String × String) :=
  Paging.page 100 (q.offset.getD 0) (d.selected q)

end Directory

/-- A document with no more than an id and a creation time. -/
structure Names (doc : Json) (e : String × String) : Prop where
  id : doc.member? "id" = some (.str e.1)
  created : doc.at? ["attributes", "created_at"] = some (.str e.2)

namespace AuditRound

/-- The round with the mode its resource starts in. -/
def withMode (r : Res) (round : AuditRound) : AuditRound :=
  { round with
    mode := some (round.mode.getD (if r.info.supportsCatFilter then .keyset else .offset)) }

/-- How far down its selection a round stands. -/
def position (round : AuditRound) : ℕ :=
  round.query.offset.getD 0

/-- The round that lists by offset from the start. -/
def fallBack (round : AuditRound) : AuditRound :=
  { round with mode := some .offset, cursor := "", offset := some 0 }

theorem withMode_of_some {r : Res} {round : AuditRound} (h : round.mode.isSome = true) :
    round.withMode r = round := by
  obtain ⟨phase, mode, cursor, offset, tombstoned, restored⟩ := round
  obtain ⟨mode, rfl⟩ := Option.isSome_iff_exists.mp h
  rfl

theorem position_eq (round : AuditRound) : round.position = round.offset.getD 0 := by
  unfold position query
  cases hoffset : round.offset with
  | none => by_cases hmode : round.mode = some .keyset <;> simp [hmode]
  | some n =>
      by_cases hmode : round.mode = some .keyset <;> by_cases hn : n = 0 <;>
        simp [hmode, hn, Option.filter]

end AuditRound

/-! ## Turning a page -/

variable {d : Directory} {round next : AuditRound}

/-- The three ways a page turns a round: back to the start where it lies behind the cursor,
on by offset, or on to its last creation time. -/
theorem turn_cases (round : AuditRound) (length : ℕ) (created : String) :
    (round.turn length (.str created) = .ok none ∧ round.mode = some .keyset) ∨
    (round.turn length (.str created) =
      .ok (some { round with offset := some (round.position + length) })) ∨
    (round.turn length (.str created) =
        .ok (some { round with cursor := created, offset := some 0 }) ∧
      round.mode = some .keyset ∧ (length = 100 → round.cursor < created)) := by
  rw [AuditRound.position_eq]
  unfold AuditRound.turn
  by_cases hmode : round.mode = some .keyset
  · rw [if_pos hmode]
    simp only [pyText, bind, Except.bind]
    split_ifs with hbehind hsaturated
    · exact .inl ⟨rfl, hmode⟩
    · exact .inr (.inl rfl)
    · refine .inr (.inr ⟨rfl, hmode, fun hfull => ?_⟩)
      have hne : created ≠ round.cursor := fun hsame => hsaturated ⟨hfull, hsame⟩
      by_cases hcursor : round.cursor = ""
      · rw [hcursor] at hne ⊢
        exact lt_of_le_of_ne (empty_le _) hne.symm
      · exact lt_of_le_of_ne (not_lt.mp fun hlt => hbehind ⟨hcursor, hlt⟩) hne.symm
  · rw [if_neg hmode]
    exact .inr (.inl rfl)

/-! ## What a round has passed -/

/-- The ids gathered by a round are listed, and it has gathered what its request no longer
selects and what lies before its page. -/
structure Passed (d : Directory) (round : AuditRound) (live : List String) : Prop where
  listed : ∀ id ∈ live, id ∈ d.ids
  behind : ∀ e ∈ d.entries, e ∉ d.selected round.query → e.1 ∈ live
  before : ∀ e ∈ (d.selected round.query).take round.position, e.1 ∈ live

theorem Directory.mem_entries_of_page {q : Query} {e : String × String} (h : e ∈ d.page q) :
    e ∈ d.entries :=
  List.mem_of_mem_filter (Paging.mem_of_mem_page h)

theorem Directory.selected_all {q : Query} (h : q.gte = none) : d.selected q = d.entries := by
  simp [Directory.selected, h]

/-- A round's request keeps what is not older than its cursor. -/
theorem Directory.mem_selected_of_le {e : String × String} (he : e ∈ d.entries)
    (hle : round.cursor ≤ e.2) : e ∈ d.selected round.query := by
  refine List.mem_filter.mpr ⟨he, ?_⟩
  unfold AuditRound.query
  split_ifs with hkeyset <;> simp [hle]

theorem Directory.pairwise_selected (d : Directory) (q : Query) :
    (d.selected q).Pairwise fun a b => a.2 ≤ b.2 :=
  d.sorted.filter _

/-- A round at the start of the whole list has nothing to have passed. -/
theorem passed_start {live : List String} (hlisted : ∀ id ∈ live, id ∈ d.ids)
    (hgte : round.query.gte = none) (hposition : round.position = 0) : Passed d round live := by
  refine ⟨hlisted, fun e he hout => ?_, fun e he => ?_⟩
  · rw [Directory.selected_all hgte] at hout
    exact absurd he hout
  · rw [hposition] at he
    cases he

/-- With its page gathered, a round has passed everything up to the end of the page. -/
theorem Passed.through {live : List String} (h : Passed d round live)
    (hpage : ∀ e ∈ d.page round.query, e.1 ∈ live) :
    ∀ e ∈ (d.selected round.query).take (round.position + 100), e.1 ∈ live := by
  intro e he
  rw [← Paging.take_append_page] at he
  rcases List.mem_append.mp he with hfront | hnew
  · exact h.before e hfront
  · exact hpage e hnew

/-- A short page is the end of the list. -/
theorem Passed.complete {live : List String} (h : Passed d round live)
    (hpage : ∀ e ∈ d.page round.query, e.1 ∈ live) (hshort : (d.page round.query).length < 100)
    (id : String) : id ∈ live ↔ id ∈ d.ids := by
  refine ⟨h.listed id, fun hid => ?_⟩
  obtain ⟨e, he, rfl⟩ := List.mem_map.mp hid
  by_cases hselected : e ∈ d.selected round.query
  · have hall : (d.selected round.query).take (round.position + 100) = d.selected round.query :=
      Paging.take_of_short hshort
    exact h.through hpage e (by rwa [hall])
  · exact h.behind e he hselected

theorem Passed.fallBack {live : List String} (h : Passed d round live) :
    Passed d round.fallBack live :=
  passed_start h.listed (by simp [AuditRound.query, AuditRound.fallBack])
    (by simp [AuditRound.position_eq, AuditRound.fallBack])

/-- Going on by offset keeps the request, and moves past the page. -/
theorem Passed.onward {live : List String} (h : Passed d round live)
    (hpage : ∀ e ∈ d.page round.query, e.1 ∈ live) :
    Passed d { round with offset := some (round.position + 100) } live := by
  refine ⟨h.listed, h.behind, ?_⟩
  rw [AuditRound.position_eq]
  exact h.through hpage

/-- Going on to the last creation time of the page leaves behind what is older. -/
theorem Passed.advance {live : List String} (h : Passed d round live)
    (hpage : ∀ e ∈ d.page round.query, e.1 ∈ live) {last : String × String}
    (hlast : last ∈ d.page round.query) :
    Passed d { round with cursor := last.2, offset := some 0 } live := by
  refine ⟨h.listed, fun e he hout => ?_, fun e he => ?_⟩
  · by_cases hselected : e ∈ d.selected round.query
    · refine h.through hpage e (Paging.mem_take_of_lt (d.pairwise_selected _) hselected hlast ?_)
      by_contra hnot
      exact hout (Directory.mem_selected_of_le he (not_lt.mp hnot))
    · exact h.behind e he hselected
  · simp [AuditRound.position_eq] at he

/-! ## What is left of the list -/

/-- How many requests may be left: in the keyset, as many as it can move its cursor, each time
over the whole list by offset, and after it the list by offset once more. -/
def Directory.left (d : Directory) (round : AuditRound) : ℕ :=
  if round.mode = some .keyset then
    (d.entries.countP fun e => round.cursor < e.2) * (d.entries.length + 1) +
      ((d.selected round.query).length - round.position) + (d.entries.length + 1)
  else d.entries.length - round.position

theorem Directory.length_selected_le (d : Directory) (q : Query) :
    (d.selected q).length ≤ d.entries.length :=
  List.length_filter_le _ _

theorem left_fallBack_lt (hkeyset : round.mode = some .keyset) :
    d.left round.fallBack < d.left round := by
  have hoffset : round.fallBack.mode ≠ some .keyset := nofun
  rw [Directory.left, Directory.left, if_neg hoffset, if_pos hkeyset]
  omega

theorem left_onward_lt (hfull : ¬ (d.page round.query).length < 100) :
    d.left { round with offset := some (round.position + 100) } < d.left round := by
  have hreach : round.position + 100 ≤ (d.selected round.query).length :=
    Paging.le_of_full (by decide) hfull
  have hle := d.length_selected_le round.query
  unfold Directory.left
  by_cases hkeyset : round.mode = some .keyset
  · rw [if_pos hkeyset, if_pos hkeyset, AuditRound.position_eq { round with
      offset := some (round.position + 100) }]
    change (d.entries.countP fun e => round.cursor < e.2) * (d.entries.length + 1) +
      ((d.selected round.query).length - (round.position + 100)) + _ < _
    omega
  · rw [if_neg hkeyset, if_neg hkeyset, AuditRound.position_eq { round with
      offset := some (round.position + 100) }]
    change d.entries.length - (round.position + 100) < _
    omega

theorem left_advance_lt (hkeyset : round.mode = some .keyset) {last : String × String}
    (hlast : last ∈ d.page round.query) (hlt : round.cursor < last.2) :
    d.left { round with cursor := last.2, offset := some 0 } < d.left round := by
  have hcount : (d.entries.countP fun e => last.2 < e.2) <
      d.entries.countP fun e => round.cursor < e.2 := by
    refine Paging.countP_lt_countP (fun e _ he => ?_) (Directory.mem_entries_of_page hlast) ?_ ?_
    · simp only [decide_eq_true_eq] at he ⊢
      exact hlt.trans he
    · simp
    · simpa using hlt
  have hle := d.length_selected_le { round with cursor := last.2, offset := some 0 }.query
  rw [Directory.left, Directory.left, if_pos hkeyset, if_pos hkeyset]
  have hmul := Nat.mul_le_mul_right (d.entries.length + 1) (Nat.succ_le_of_lt hcount)
  rw [Nat.succ_mul] at hmul
  change (d.entries.countP fun e => last.2 < e.2) * (d.entries.length + 1) + _ + _ < _
  omega

/-! ## One page -/

theorem Names.scratchId {doc : Json} {e : String × String} (h : Names doc e) :
    scratchId doc = .ok e.1 := by
  simp [PcoMirror.scratchId, pyItem_of_member? h.id, idOf, h.id, Json.text?, bind, Except.bind]

theorem Names.item {doc : Json} {e : String × String} (h : Names doc e) :
    ∃ attributes, pyItem doc "attributes" = .ok attributes ∧
      pyItem attributes "created_at" = .ok (.str e.2) := by
  obtain ⟨attributes, hattributes, hrest⟩ := Option.bind_eq_some_iff.mp h.created
  obtain ⟨v, hv, hvalue⟩ := Option.bind_eq_some_iff.mp hrest
  obtain rfl : v = .str e.2 := Option.some.inj hvalue
  exact ⟨attributes, pyItem_of_member? hattributes, pyItem_of_member? hv⟩

/-- A page of named records is turned by its last, unless it is empty. -/
theorem turnPage_cases (round : AuditRound) {items : List Json} {es : List (String × String)}
    (h : List.Forall₂ Names items es) :
    (es = [] ∧ turnPage round items = .ok (some round)) ∨
    ∃ last ∈ es, turnPage round items = round.turn es.length (.str last.2) := by
  rcases List.eq_nil_or_concat' items with rfl | ⟨front, doc, rfl⟩
  · exact .inl ⟨List.forall₂_nil_left_iff.mp h, rfl⟩
  · obtain ⟨es, last, rfl⟩ : ∃ es' last, es = es' ++ [last] := by
      rcases List.eq_nil_or_concat' es with rfl | hes
      · simpa using h.length_eq
      · exact hes
    have hlength : es.length = front.length := by simpa using h.length_eq.symm
    have hlast := List.forall₂_drop_append _ _ _ h
    rw [hlength, List.drop_left] at hlast
    obtain ⟨attributes, hattributes, hcreated⟩ := (List.forall₂_cons.mp hlast).1.item
    refine .inr ⟨last, by simp, ?_⟩
    simp [turnPage, hattributes, hcreated, hlength, bind, Except.bind]

/-- What a page leaves of a round that has gathered it: another round with less left of the
list, or the whole list gathered. -/
theorem Passed.turn {live : List String} (h : Passed d round live) {items : List Json}
    (hitems : List.Forall₂ Names items (d.page round.query))
    (hpage : ∀ e ∈ d.page round.query, e.1 ∈ live) :
    ∃ turned, turnPage round items = .ok turned ∧
      (turned = none → Passed d round.fallBack live ∧ d.left round.fallBack < d.left round) ∧
      (items.length < 100 → ∀ id, id ∈ live ↔ id ∈ d.ids) ∧
      ∀ next, turned = some next → ¬ items.length < 100 →
        Passed d next live ∧ d.left next < d.left round := by
  rw [hitems.length_eq]
  have hcomplete := h.complete hpage
  rcases turnPage_cases round hitems with ⟨hnil, hturn⟩ | ⟨last, hlast, hturn⟩
  · refine ⟨_, hturn, nofun, hcomplete, fun next _ hfull => absurd ?_ hfull⟩
    rw [hnil]
    decide
  · have hlength : (d.page round.query).length ≤ 100 := by
      rw [Directory.page, Paging.length_page]
      exact Nat.min_le_left _ _
    rw [hturn]
    rcases turn_cases round (d.page round.query).length last.2 with
      ⟨hback, hkeyset⟩ | honward | ⟨hadvance, hkeyset, hlt⟩
    · exact ⟨_, hback, fun _ => ⟨h.fallBack, left_fallBack_lt hkeyset⟩, hcomplete, nofun⟩
    · refine ⟨_, honward, nofun, hcomplete, fun next hnext hfull => ?_⟩
      have hfull' : (d.page round.query).length = 100 := by omega
      cases hnext
      rw [hfull']
      exact ⟨h.onward hpage, left_onward_lt hfull⟩
    · refine ⟨_, hadvance, nofun, hcomplete, fun next hnext hfull => ?_⟩
      have hfull' : (d.page round.query).length = 100 := by omega
      cases hnext
      exact ⟨h.advance hpage hlast, left_advance_lt hkeyset hlast (hlt hfull')⟩

end PcoMirror
