import PcoMirror.Lib.Run
import PcoMirror.Model.Registration

/-! What a restart does to the list of subscriptions: nothing that the first start with the same
environment has not done, and nothing at all once the page keeps the list. -/

namespace PcoMirror.Registration

variable {u : Upsert} {us : List Upsert} {row : Registered} {rows : List Registered} {id now : String}
  {specs : List Spec} {drawn : ℕ → Vector UInt8 24} {s : Listed}

/-! ## Upserts, row by row -/

/-- The id is a primary key. -/
def Keyed (rows : List Registered) : Prop :=
  (rows.map fun row => row.id).Nodup

/-- What an upsert does to a row. -/
def Upsert.rewrites (u : Upsert) (row : Registered) : Registered :=
  if row.id = u.id then u.onto (u.token.getD row.urlToken) row else row

/-- What upserts do to a row, one after the other. -/
def rewritten (us : List Upsert) (row : Registered) : Registered :=
  us.foldl (fun row u => u.rewrites row) row

@[simp] theorem rewrites_id (u : Upsert) (row : Registered) : (u.rewrites row).id = row.id := by
  unfold Upsert.rewrites
  split_ifs with h
  · exact h.symm
  · rfl

@[simp] theorem rewritten_id (us : List Upsert) (row : Registered) :
    (rewritten us row).id = row.id := by
  induction us generalizing row with
  | nil => rfl
  | cons u us ih => exact (ih (u.rewrites row)).trans (rewrites_id u row)

theorem rewritten_concat (us : List Upsert) (u : Upsert) (row : Registered) :
    rewritten (us ++ [u]) row = u.rewrites (rewritten us row) := by
  simp [rewritten]

theorem rewritten_of_notMem (h : ∀ u ∈ us, u.id ≠ row.id) : rewritten us row = row := by
  induction us generalizing row with
  | nil => rfl
  | cons u us ih =>
      have hu : u.rewrites row = row := if_neg fun heq => h u (.head _) heq.symm
      change rewritten us (u.rewrites row) = row
      rw [hu]
      exact ih fun u hu => h u (.tail _ hu)

/-- The token a row has after upserts. -/
def tokenAfter (us : List Upsert) (id token : String) : String :=
  us.foldl (fun token u => if id = u.id then u.token.getD token else token) token

theorem tokenAfter_concat (us : List Upsert) (u : Upsert) (id token : String) :
    tokenAfter (us ++ [u]) id token =
      if id = u.id then u.token.getD (tokenAfter us id token) else tokenAfter us id token := by
  simp [tokenAfter]

theorem tokenAfter_tokenAfter (us : List Upsert) (id token : String) :
    tokenAfter us id (tokenAfter us id token) = tokenAfter us id token := by
  induction us using List.reverseRecOn with
  | nil => rfl
  | append_singleton us u ih =>
      rw [tokenAfter_concat, tokenAfter_concat]
      by_cases hid : id = u.id
      · rw [if_pos hid, if_pos hid]
        cases u.token with
        | none => exact ih
        | some token => rfl
      · rw [if_neg hid, if_neg hid]
        exact ih

@[simp] theorem rewritten_urlToken (us : List Upsert) (row : Registered) :
    (rewritten us row).urlToken = tokenAfter us row.id row.urlToken := by
  induction us using List.reverseRecOn with
  | nil => rfl
  | append_singleton us u ih =>
      rw [rewritten_concat, tokenAfter_concat, Upsert.rewrites, rewritten_id, ih]
      split_ifs
      · rfl
      · exact ih

@[simp] theorem rewritten_lastEventAt (us : List Upsert) (row : Registered) :
    (rewritten us row).lastEventAt = row.lastEventAt := by
  induction us using List.reverseRecOn with
  | nil => rfl
  | append_singleton us u ih =>
      rw [rewritten_concat, Upsert.rewrites]
      split_ifs
      · exact ih
      · exact ih

/-- Of the upserts of one row the last writes all of it, but for its token and its last event. -/
theorem rewritten_eq (us : List Upsert) (id : String) :
    (∀ row : Registered, row.id = id → rewritten us row = row) ∨
      ∃ u ∈ us, u.id = id ∧ ∀ row : Registered, row.id = id →
        rewritten us row = u.onto (tokenAfter us id row.urlToken) row := by
  induction us using List.reverseRecOn with
  | nil => exact .inl fun row _ => rfl
  | append_singleton us u ih =>
      by_cases hid : id = u.id
      · refine .inr ⟨u, by simp, hid.symm, fun row hrow => ?_⟩
        rw [rewritten_concat, Upsert.rewrites, rewritten_id, if_pos (hrow.trans hid),
          rewritten_urlToken, tokenAfter_concat, if_pos hid, hrow]
        simp only [Upsert.onto, rewritten_lastEventAt]
      · have hskip {row : Registered} (hrow : row.id = id) :
            rewritten (us ++ [u]) row = rewritten us row := by
          rw [rewritten_concat, Upsert.rewrites, rewritten_id, if_neg (hrow ▸ hid)]
        rcases ih with h | ⟨u', hu', huid, h⟩
        · exact .inl fun row hrow => (hskip hrow).trans (h row hrow)
        · refine .inr ⟨u', by simp [hu'], huid, fun row hrow => ?_⟩
          rw [hskip hrow, h row hrow, tokenAfter_concat, if_neg hid]

/-- Upserts that are made again leave a row as they left it. -/
theorem rewritten_rewritten (us : List Upsert) (row : Registered) :
    rewritten us (rewritten us row) = rewritten us row := by
  rcases rewritten_eq us row.id with h | ⟨u, -, -, h⟩
  · rw [h row rfl, h row rfl]
  · rw [h _ (rewritten_id us row), rewritten_urlToken, tokenAfter_tokenAfter, h row rfl]
    rfl

/-! ## The table -/

theorem Keyed.eq (hkeyed : Keyed rows) {row' : Registered} (hrow : row ∈ rows) (hrow' : row' ∈ rows)
    (h : row.id = row'.id) : row = row' :=
  List.inj_on_of_nodup_map hkeyed hrow hrow' h

/-- The row is there: it is rewritten. -/
theorem written_of_mem (hkeyed : Keyed rows) (hmem : ∃ row ∈ rows, row.id = u.id) :
    u.written rows = rows.map u.rewrites := by
  obtain ⟨held, hheld, hid⟩ := hmem
  have hany : rows.any (fun row => row.id = u.id) = true := by
    simp only [List.any_eq_true, decide_eq_true_eq]
    exact ⟨held, hheld, hid⟩
  have hfind : rows.find? (fun row => row.id = u.id) = some held := by
    cases hfind : rows.find? fun row => row.id = u.id with
    | none =>
        have hnone := List.find?_eq_none.mp hfind held hheld
        simp [hid] at hnone
    | some row =>
        have hrow : row.id = u.id := by simpa using List.find?_some hfind
        rw [hkeyed.eq (List.mem_of_find?_eq_some hfind) hheld (hrow.trans hid.symm)]
  rw [Upsert.written, if_pos hany, Upsert.tokenAmong, hfind]
  refine List.map_congr_left fun row hrow => ?_
  unfold Upsert.rewrites
  split_ifs with h
  · rw [hkeyed.eq hrow hheld (h.trans hid.symm)]
    rfl
  · rfl

/-- The row is not there: it is added. -/
theorem written_of_notMem (h : ∀ row ∈ rows, row.id ≠ u.id) :
    u.written rows = rows ++ [u.fresh (u.token.getD (mintToken u.drawn))] := by
  have hany : ¬rows.any (fun row => row.id = u.id) = true := by simpa using h
  have hfind : rows.find? (fun row => row.id = u.id) = none := by
    rw [List.find?_eq_none]
    simpa using h
  rw [Upsert.written, if_neg hany, Upsert.tokenAmong, hfind]
  rfl

/-- An upsert adds its id and drops none. -/
theorem ids_written (u : Upsert) (rows : List Registered) (id : String) :
    (∃ row ∈ u.written rows, row.id = id) ↔ (∃ row ∈ rows, row.id = id) ∨ id = u.id := by
  by_cases hmem : ∃ row ∈ rows, row.id = u.id
  · have hany : rows.any (fun row => row.id = u.id) = true := by simpa using hmem
    rw [Upsert.written, if_pos hany]
    constructor
    · intro h
      obtain ⟨row, hrow, rfl⟩ := h
      obtain ⟨held, hheld, rfl⟩ := List.mem_map.mp hrow
      refine .inl ⟨held, hheld, ?_⟩
      split_ifs with h
      · exact h
      · rfl
    · intro h
      obtain ⟨held, hheld, hid⟩ : ∃ row ∈ rows, row.id = id := by
        rcases h with h | rfl
        · exact h
        · exact hmem
      refine ⟨_, List.mem_map_of_mem hheld, ?_⟩
      split_ifs with h
      · exact h.symm.trans hid
      · exact hid
  · have hnew : ∀ row ∈ rows, row.id ≠ u.id := fun row hrow heq => hmem ⟨row, hrow, heq⟩
    rw [written_of_notMem hnew]
    simp only [List.mem_append, List.mem_singleton]
    constructor
    · intro h
      obtain ⟨row, hrow | rfl, rfl⟩ := h
      · exact .inl ⟨row, hrow, rfl⟩
      · exact .inr rfl
    · intro h
      rcases h with ⟨row, hrow, hid⟩ | rfl
      · exact ⟨row, .inl hrow, hid⟩
      · exact ⟨_, .inr rfl, rfl⟩

theorem Keyed.written (hkeyed : Keyed rows) (u : Upsert) : Keyed (u.written rows) := by
  by_cases hmem : ∃ row ∈ rows, row.id = u.id
  · rw [written_of_mem hkeyed hmem, Keyed, List.map_map]
    have hids : rows.map ((fun row => row.id) ∘ u.rewrites) = rows.map fun row => row.id :=
      List.map_congr_left fun row _ => rewrites_id u row
    rwa [hids]
  · have hnew : ∀ row ∈ rows, row.id ≠ u.id := fun row hrow heq => hmem ⟨row, hrow, heq⟩
    rw [written_of_notMem hnew, Keyed, List.map_append]
    refine List.nodup_append.mpr ⟨hkeyed, List.nodup_singleton _, ?_⟩
    intro id hid id' hid' heq
    obtain ⟨row, hrow, rfl⟩ := List.mem_map.mp hid
    exact hnew row hrow (heq.trans (List.mem_singleton.mp hid'))

/-- Upserts that are all accepted. -/
def writtenAll (us : List Upsert) (rows : List Registered) : List Registered :=
  us.foldl (fun rows u => u.written rows) rows

theorem Keyed.writtenAll (hkeyed : Keyed rows) (us : List Upsert) : Keyed (writtenAll us rows) := by
  induction us generalizing rows with
  | nil => exact hkeyed
  | cons u us ih => exact ih (hkeyed.written u)

/-- The upserts up to the first that is refused are all that is written. -/
theorem upsertAll_rows (us : List Upsert) (rows : List Registered) :
    (upsertAll us rows).2 = writtenAll (us.takeWhile fun u => u.refused.isNone) rows := by
  induction us generalizing rows with
  | nil => rfl
  | cons u us ih =>
      rw [upsertAll, upsertSubscription]
      cases hrefused : u.refused with
      | some text =>
          rw [List.takeWhile_cons_of_neg (by simp [hrefused])]
          rfl
      | none =>
          rw [List.takeWhile_cons_of_pos (by simp [hrefused])]
          exact ih (u.written rows)

/-- Where every row is there already, upserts rewrite the rows. -/
theorem writtenAll_of_mem (hkeyed : Keyed rows) (hmem : ∀ u ∈ us, ∃ row ∈ rows, row.id = u.id) :
    writtenAll us rows = rows.map (rewritten us) := by
  induction us generalizing rows with
  | nil => exact (List.map_id' rows).symm
  | cons u us ih =>
      have hwritten := written_of_mem hkeyed (hmem u (.head _))
      have hrest : ∀ u' ∈ us, ∃ row ∈ u.written rows, row.id = u'.id := by
        intro u' hu'
        obtain ⟨row, hrow, hid⟩ := hmem u' (.tail _ hu')
        rw [hwritten]
        exact ⟨u.rewrites row, List.mem_map_of_mem hrow, (rewrites_id u row).trans hid⟩
      change writtenAll us (u.written rows) = _
      rw [ih (hkeyed.written u) hrest, hwritten, List.map_map]
      rfl

theorem ids_writtenAll (us : List Upsert) (rows : List Registered) (id : String) :
    (∃ row ∈ writtenAll us rows, row.id = id) ↔
      (∃ row ∈ rows, row.id = id) ∨ ∃ u ∈ us, id = u.id := by
  induction us generalizing rows with
  | nil => simp [writtenAll]
  | cons u us ih =>
      change (∃ row ∈ writtenAll us (u.written rows), row.id = id) ↔ _
      rw [ih, ids_written, or_assoc]
      simp

theorem writtenAll_concat (us : List Upsert) (u : Upsert) (rows : List Registered) :
    writtenAll (us ++ [u]) rows = u.written (writtenAll us rows) := by
  simp [writtenAll]

/-- A row that upserts have written or passed over is what they make of some row. -/
theorem mem_writtenAll (hkeyed : Keyed rows) (us : List Upsert) :
    ∀ row ∈ writtenAll us rows, ∃ before, row = rewritten us before := by
  induction us using List.reverseRecOn with
  | nil => exact fun row _ => ⟨row, rfl⟩
  | append_singleton us u ih =>
      intro row hrow
      rw [writtenAll_concat] at hrow
      by_cases hmem : ∃ row ∈ writtenAll us rows, row.id = u.id
      · rw [written_of_mem (hkeyed.writtenAll us) hmem] at hrow
        obtain ⟨held, hheld, rfl⟩ := List.mem_map.mp hrow
        obtain ⟨before, rfl⟩ := ih held hheld
        exact ⟨before, (rewritten_concat us u before).symm⟩
      · have hnew : ∀ row ∈ writtenAll us rows, row.id ≠ u.id :=
          fun row hrow heq => hmem ⟨row, hrow, heq⟩
        rw [written_of_notMem hnew, List.mem_append, List.mem_singleton] at hrow
        rcases hrow with hheld | rfl
        · obtain ⟨before, hbefore⟩ := ih row hheld
          refine ⟨before, ?_⟩
          rw [rewritten_concat, ← hbefore]
          exact (if_neg (hnew row hheld)).symm
        · refine ⟨u.fresh (mintToken u.drawn), ?_⟩
          have hskipped : rewritten us (u.fresh (mintToken u.drawn)) = u.fresh (mintToken u.drawn) :=
            rewritten_of_notMem fun u' hu' heq =>
              hmem ((ids_writtenAll us rows u.id).mpr (.inr ⟨u', hu', heq.symm⟩))
          rw [rewritten_concat, hskipped]
          exact (if_pos rfl).symm

/-! ## The environment's list -/

/-- The upserts of the environment's list that are made: all before the first that is refused. -/
def accepted (specs : List Spec) (drawn : ℕ → Vector UInt8 24) : List Upsert :=
  (fromEnv specs drawn).takeWhile fun u => u.refused.isNone

/-- The upsert of one entry. -/
def entry (drawn : ℕ → Vector UInt8 24) (e : Spec × ℕ) : Upsert where
  id := e.1.subscriptionId
  event := e.1.event
  secret := e.1.secret
  token := if e.1.urlToken = "" then none else some e.1.urlToken
  managed := .env
  drawn := drawn e.2

theorem accepted_eq (specs : List Spec) (drawn : ℕ → Vector UInt8 24) : accepted specs drawn =
    (specs.zipIdx.takeWhile fun e => (entry drawn e).refused.isNone).map (entry drawn) := by
  rw [accepted, fromEnv, List.takeWhile_map]
  rfl

/-- What the entries do to a row does not depend on what was drawn. -/
theorem rewritten_accepted (specs : List Spec) (drawn drawn' : ℕ → Vector UInt8 24) :
    rewritten (accepted specs drawn) = rewritten (accepted specs drawn') := by
  funext row
  rw [accepted_eq, accepted_eq, rewritten, rewritten, List.foldl_map, List.foldl_map]
  rfl

theorem ids_accepted (specs : List Spec) (drawn drawn' : ℕ → Vector UInt8 24) :
    (accepted specs drawn).map Upsert.id = (accepted specs drawn').map Upsert.id := by
  rw [accepted_eq, accepted_eq, List.map_map, List.map_map]
  rfl

/-- A list that is applied again, with new draws, writes nothing. -/
theorem writtenAll_again (hkeyed : Keyed rows) (specs : List Spec)
    (drawn drawn' : ℕ → Vector UInt8 24) :
    writtenAll (accepted specs drawn') (writtenAll (accepted specs drawn) rows) =
      writtenAll (accepted specs drawn) rows := by
  rw [writtenAll_of_mem (hkeyed.writtenAll _)]
  · conv_rhs => rw [← List.map_id (writtenAll (accepted specs drawn) rows)]
    refine List.map_congr_left fun row hrow => ?_
    obtain ⟨before, rfl⟩ := mem_writtenAll hkeyed _ row hrow
    rw [rewritten_accepted specs drawn' drawn, rewritten_rewritten]
    rfl
  · intro u hu
    have hid : u.id ∈ (accepted specs drawn).map Upsert.id := by
      rw [ids_accepted specs drawn drawn']
      exact List.mem_map_of_mem hu
    obtain ⟨u', hu', heq⟩ := List.mem_map.mp hid
    exact (ids_writtenAll _ rows u.id).mpr (.inr ⟨u', hu', heq.symm⟩)

theorem applyEnv_rows (db : Cors.MirrorMeta) (specs : List Spec) (drawn : ℕ → Vector UInt8 24)
    (rows : List Registered) : (applyEnv db specs drawn rows).2 =
      if envIsAuthoritative db then writtenAll (accepted specs drawn) rows else rows := by
  unfold applyEnv
  by_cases hempty : specs = []
  · subst hempty
    simp [accepted, fromEnv, writtenAll]
  · rw [if_neg hempty]
    split_ifs
    · exact upsertAll_rows _ _
    · rfl

/-! ## Moves -/

theorem Keyed.map {f : Registered → Registered} (hkeyed : Keyed rows) (hf : ∀ row, (f row).id = row.id) :
    Keyed (rows.map f) := by
  have hids : (rows.map f).map (fun row => row.id) = rows.map fun row => row.id := by
    rw [List.map_map]
    exact List.map_congr_left fun row _ => hf row
  rwa [Keyed, hids]

/-- A time put down as the row's last event. -/
def dated (id now : String) (row : Registered) : Registered :=
  if row.id = id then { row with lastEventAt := some now } else row

theorem dated_id (id now : String) (row : Registered) : (dated id now row).id = row.id := by
  unfold dated
  split_ifs <;> rfl

/-- What a `save` leaves in the table, whether or not it is refused in the end. -/
theorem save_rows (us : List Upsert) (s : Listed) :
    (s.step (.save us)).rows = (upsertAll us s.rows).2 := by
  simp only [Listed.step]
  split
  · rename_i h
    rw [h]
  · rename_i h
    rw [h]

theorem keyed_step (hkeyed : Keyed s.rows) (move : Move) : Keyed (s.step move).rows := by
  have hall (us : List Upsert) : Keyed (upsertAll us s.rows).2 := by
    rw [upsertAll_rows]
    exact hkeyed.writtenAll _
  cases move with
  | start specs drawn =>
      simp only [Listed.step, applyEnv_rows]
      split_ifs
      · exact hkeyed.writtenAll _
      · exact hkeyed
  | save us =>
      rw [save_rows]
      exact hall us
  | remove id => exact hkeyed.sublist (List.filter_sublist.map _)
  | toggle id active =>
      refine hkeyed.map fun row => ?_
      split_ifs <;> rfl
  | keepHere => exact hkeyed
  | handBack => exact hkeyed
  | add us => exact hall us
  | delivered id now => exact hkeyed.map (dated_id id now)

theorem keyed_exec (moves : List Move) : Keyed (Run.exec Listed.step {} moves).rows := by
  induction moves using List.reverseRecOn with
  | nil => exact List.nodup_nil
  | append_singleton moves move ih =>
      rw [Run.exec_append]
      exact keyed_step ih move

/-! ## Starting again -/

/-- The environment's list is applied, and has nothing left to do. -/
structure Settled (specs : List Spec) (rows : List Registered) : Prop where
  keyed : Keyed rows
  present : ∀ drawn, ∀ u ∈ accepted specs drawn, ∃ row ∈ rows, row.id = u.id
  fixed : ∀ drawn, ∀ row ∈ rows, rewritten (accepted specs drawn) row = row

theorem settled_writtenAll (hkeyed : Keyed rows) (specs : List Spec) (drawn : ℕ → Vector UInt8 24) :
    Settled specs (writtenAll (accepted specs drawn) rows) where
  keyed := hkeyed.writtenAll _
  present drawn' u hu := by
    have hid : u.id ∈ (accepted specs drawn).map Upsert.id := by
      rw [ids_accepted specs drawn drawn']
      exact List.mem_map_of_mem hu
    obtain ⟨u', hu', heq⟩ := List.mem_map.mp hid
    exact (ids_writtenAll _ rows u.id).mpr (.inr ⟨u', hu', heq.symm⟩)
  fixed drawn' row hrow := by
    obtain ⟨before, rfl⟩ := mem_writtenAll hkeyed _ row hrow
    rw [rewritten_accepted specs drawn' drawn, rewritten_rewritten]

theorem Settled.writtenAll (h : Settled specs rows) (drawn : ℕ → Vector UInt8 24) :
    writtenAll (accepted specs drawn) rows = rows := by
  rw [writtenAll_of_mem h.keyed (h.present drawn)]
  conv_rhs => rw [← List.map_id rows]
  exact List.map_congr_left fun row hrow => h.fixed drawn row hrow

/-- An event does not change what the environment has to say of a row. -/
theorem Settled.dated (h : Settled specs rows) (id now : String) :
    Settled specs (rows.map (dated id now)) where
  keyed := h.keyed.map (dated_id id now)
  present drawn u hu := by
    obtain ⟨row, hrow, hid⟩ := h.present drawn u hu
    exact ⟨_, List.mem_map_of_mem hrow, (dated_id id now row).trans hid⟩
  fixed drawn row hrow := by
    obtain ⟨held, hheld, rfl⟩ := List.mem_map.mp hrow
    have hfixed := h.fixed drawn held hheld
    rcases rewritten_eq (accepted specs drawn) held.id with hid | ⟨u, -, -, hid⟩
    · exact hid _ (dated_id id now held)
    · rw [hid held rfl] at hfixed
      rw [hid _ (dated_id id now held)]
      unfold Registration.dated
      split_ifs
      · exact congrArg (fun row : Registered => { row with lastEventAt := some now }) hfixed
      · exact hfixed

def Move.isDelivery : Move → Bool
  | .delivered .. => true
  | _ => false

def Move.isStart : Move → Bool
  | .start .. => true
  | _ => false

/-- A start with this list in its environment, or an event. -/
def Move.Restarts (specs : List Spec) : Move → Prop
  | .start specs' _ => specs' = specs
  | .delivered .. => True
  | _ => False

/-- Restarting with the same environment, any number of times and whatever is delivered in between,
changes nothing that the first start has not: the tokens it minted stay, so that the URLs PCO was
given do. -/
theorem restarts_idle (before later : List Move) (specs : List Spec) (drawn : ℕ → Vector UInt8 24)
    (hlater : ∀ move ∈ later, move.Restarts specs) :
    Run.exec Listed.step {} (before ++ .start specs drawn :: later) =
      Run.exec Listed.step {} (before ++ .start specs drawn :: later.filter Move.isDelivery) := by
  rw [Run.exec_append, Run.exec_append, Run.exec_cons, Run.exec_cons]
  set s := Run.exec Listed.step {} before with hs
  refine Run.exec_filter (I := fun s' => s'.db = s.db ∧
    (envIsAuthoritative s.db = true → Settled specs s'.rows)) ?_ ?_ ⟨rfl, ?_⟩
  · intro s' hs' move _ hmove
    cases move with
    | delivered id now => exact ⟨hs'.1, fun hauthoritative => (hs'.2 hauthoritative).dated id now⟩
    | _ => cases hmove
  · intro s' hs' move hmem hmove
    have hrestarts := hlater move hmem
    cases move with
    | start specs' drawn' =>
        cases hrestarts
        simp only [Listed.step, applyEnv_rows, hs'.1]
        have hsame : (⟨s'.rows, s.db⟩ : Listed) = s' := congrArg (Listed.mk s'.rows) hs'.1.symm
        split_ifs with hauthoritative
        · rwa [(hs'.2 hauthoritative).writtenAll drawn']
        · exact hsame
    | delivered id now => cases hmove
    | _ => cases hrestarts
  · intro hauthoritative
    simp only [Listed.step, applyEnv_rows, hauthoritative, if_true]
    exact settled_writtenAll (keyed_exec before) specs drawn

theorem restarts_idle_two :
    let spec : Spec := ⟨"s1", "people.v2.events.person.updated", "secret", ""⟩
    let first : ℕ → Vector UInt8 24 := fun _ => .replicate 24 0
    let again : ℕ → Vector UInt8 24 := fun _ => .replicate 24 1
    Run.exec Listed.step {} ([] ++ .start [spec] first ::
        [.delivered "s1" "2024-01-01T00:00:00Z", .start [spec] again]) =
      Run.exec Listed.step {} [.start [spec] first, .delivered "s1" "2024-01-01T00:00:00Z"] := by
  intro spec first again
  refine restarts_idle [] _ [spec] first fun move hmove => ?_
  simp only [List.mem_cons, List.not_mem_nil, or_false] at hmove
  rcases hmove with rfl | rfl
  · trivial
  · rfl

/-! ## The page's list -/

/-- The page saves something, and so keeps the list from now on. -/
def Move.TakesOver : Move → Prop
  | .save us => ∀ u ∈ us, u.refused = none
  | .remove _ | .toggle .. | .keepHere => True
  | _ => False

def Move.isHandBack : Move → Bool
  | .handBack => true
  | _ => false

theorem upsertAll_accepted (h : ∀ u ∈ us, u.refused = none) (rows : List Registered) :
    ∃ out, (upsertAll us rows).1 = .ok out := by
  induction us generalizing rows with
  | nil => exact ⟨[], rfl⟩
  | cons u us ih =>
      obtain ⟨out, hout⟩ := ih (fun u' hu' => h u' (.tail _ hu')) (u.written rows)
      rw [upsertAll, upsertSubscription, h u (.head _)]
      refine ⟨(u.tokenAmong rows, !rows.any (·.id = u.id)) :: out, ?_⟩
      change Except.map _ (upsertAll us (u.written rows)).1 = _
      rw [hout]
      rfl

theorem db_takesOver {move : Move} (h : move.TakesOver) (s : Listed) :
    (s.step move).db overrideKey = some "1" := by
  cases move with
  | save us =>
      obtain ⟨out, hout⟩ := upsertAll_accepted h s.rows
      simp only [Listed.step]
      split
      · simp [takeOver]
      · rename_i herror
        rw [herror] at hout
        cases hout
  | remove id => simp [Listed.step, takeOver]
  | toggle id active => simp [Listed.step, takeOver]
  | keepHere => simp [Listed.step, takeOver]
  | _ => cases h

/-- The page keeps the list until it hands it back. -/
theorem db_kept {move : Move} (hheld : s.db overrideKey = some "1") (h : move.isHandBack = false) :
    (s.step move).db overrideKey = some "1" := by
  cases move with
  | handBack => cases h
  | save us =>
      simp only [Listed.step]
      split
      · simp [takeOver]
      · exact hheld
  | remove id => simp [Listed.step, takeOver]
  | toggle id active => simp [Listed.step, takeOver]
  | keepHere => simp [Listed.step, takeOver]
  | _ => exact hheld

/-- Once the page has saved something, no start changes anything, whatever its environment says, until
the page hands the list back. -/
theorem page_keeps (before later : List Move) (saved : Move) (hsaved : saved.TakesOver)
    (hlater : ∀ move ∈ later, move.isHandBack = false) :
    Run.exec Listed.step {} (before ++ saved :: later) =
      Run.exec Listed.step {} (before ++ saved :: later.filter fun move => !move.isStart) := by
  rw [Run.exec_append, Run.exec_append, Run.exec_cons, Run.exec_cons]
  refine Run.exec_filter (I := fun s => s.db overrideKey = some "1") ?_ ?_
    (db_takesOver hsaved _)
  · exact fun s hs move hmem _ => db_kept hs (hlater move hmem)
  · intro s hs move _ hmove
    cases move with
    | start specs drawn =>
        have hpage : envIsAuthoritative s.db = false := by simp [envIsAuthoritative, hs]
        simp only [Listed.step, applyEnv_rows, hpage]
        rfl
    | _ => cases hmove

theorem page_keeps_removal :
    Run.exec Listed.step {} ([] ++ .remove "s1" :: [.start
        [⟨"s1", "people.v2.events.person.updated", "secret", ""⟩] fun _ => .replicate 24 0]) =
      Run.exec Listed.step {} ([] ++ .remove "s1" :: ([Move.start
        [⟨"s1", "people.v2.events.person.updated", "secret", ""⟩] fun _ => .replicate 24 0].filter
          fun move => !move.isStart)) :=
  page_keeps [] _ (.remove "s1") trivial (by simp [Move.isHandBack])

/-! ## The receiver's URL -/

/-- The upserts of a move. -/
def Move.upserts : Move → List Upsert
  | .start specs drawn => fromEnv specs drawn
  | .save us | .add us => us
  | _ => []

/-- The row keeps its id, and its token unless one of the upserts names another. -/
def Survives (us : List Upsert) (row : Registered) (rows : List Registered) : Prop :=
  ∃ row' ∈ rows, row'.id = row.id ∧
    (row'.urlToken = row.urlToken ∨ ∃ u ∈ us, u.id = row.id ∧ u.token = some row'.urlToken)

theorem survives_writtenAll (hkeyed : Keyed rows) (hrow : row ∈ rows) (us : List Upsert) :
    Survives us row (writtenAll us rows) := by
  induction us using List.reverseRecOn with
  | nil => exact ⟨row, hrow, rfl, .inl rfl⟩
  | append_singleton us u ih =>
      obtain ⟨row', hrow', hid, htoken⟩ := ih
      have hsame : row'.urlToken = row.urlToken ∨
          ∃ u' ∈ us ++ [u], u'.id = row.id ∧ u'.token = some row'.urlToken := by
        rcases htoken with h | ⟨u', hu', h⟩
        · exact .inl h
        · exact .inr ⟨u', by simp [hu'], h⟩
      rw [writtenAll_concat]
      by_cases hmem : ∃ row ∈ writtenAll us rows, row.id = u.id
      · rw [written_of_mem (hkeyed.writtenAll us) hmem]
        refine ⟨_, List.mem_map_of_mem hrow', (rewrites_id u row').trans hid, ?_⟩
        unfold Upsert.rewrites
        split_ifs with hu
        · cases hnamed : u.token with
          | none => exact hsame
          | some token => exact .inr ⟨u, by simp, hu.symm.trans hid, hnamed⟩
        · exact hsame
      · rw [written_of_notMem fun row hrow heq => hmem ⟨row, hrow, heq⟩]
        exact ⟨row', List.mem_append_left _ hrow', hid, hsame⟩

theorem survives_map {f : Registered → Registered} (hrow : row ∈ rows)
    (hid : ∀ row, (f row).id = row.id) (htoken : ∀ row, (f row).urlToken = row.urlToken) :
    Survives us row (rows.map f) :=
  ⟨f row, List.mem_map_of_mem hrow, hid row, .inl (htoken row)⟩

theorem Survives.mono {us' : List Upsert} (h : Survives us row rows) (hsub : ∀ u ∈ us, u ∈ us') :
    Survives us' row rows := by
  obtain ⟨row', hrow', hid, htoken⟩ := h
  refine ⟨row', hrow', hid, htoken.imp_right fun hnamed => ?_⟩
  obtain ⟨u, hu, hnamed⟩ := hnamed
  exact ⟨u, hsub u hu, hnamed⟩

/-- A row that is not removed survives a move. -/
theorem survives_step (hkeyed : Keyed s.rows) (hrow : row ∈ s.rows) (move : Move)
    (hkept : move ≠ .remove row.id) : Survives move.upserts row (s.step move).rows := by
  have hall (us : List Upsert) : Survives us row (upsertAll us s.rows).2 := by
    rw [upsertAll_rows]
    exact (survives_writtenAll hkeyed hrow _).mono fun u hu => (List.takeWhile_subset _ hu)
  have hsame : Survives move.upserts row s.rows := ⟨row, hrow, rfl, .inl rfl⟩
  cases move with
  | start specs drawn =>
      simp only [Listed.step, applyEnv_rows]
      split_ifs
      · exact (survives_writtenAll hkeyed hrow _).mono fun u hu => (List.takeWhile_subset _ hu)
      · exact hsame
  | save us =>
      rw [save_rows]
      exact hall us
  | remove id =>
      have hne : row.id ≠ id := fun heq => hkept (congrArg _ heq.symm)
      exact ⟨row, List.mem_filter.mpr ⟨hrow, by simpa using hne⟩, rfl, .inl rfl⟩
  | toggle id active =>
      refine survives_map hrow (fun row => ?_) fun row => ?_
      · split_ifs <;> rfl
      · split_ifs <;> rfl
  | keepHere => exact hsame
  | handBack => exact hsame
  | add us => exact hall us
  | delivered id now =>
      refine survives_map hrow (dated_id id now) fun row => ?_
      split_ifs <;> rfl

/-- The URL of a receiver never changes underneath PCO: over any run a subscription that is not
removed keeps its token, unless it is given another one by name. -/
theorem token_kept (before moves : List Move) (row : Registered)
    (hrow : row ∈ (Run.exec Listed.step {} before).rows) (hkept : Move.remove row.id ∉ moves) :
    ∃ row' ∈ (Run.exec Listed.step {} (before ++ moves)).rows, row'.id = row.id ∧
      (row'.urlToken = row.urlToken ∨
        ∃ move ∈ moves, ∃ u ∈ move.upserts, u.id = row.id ∧ u.token = some row'.urlToken) := by
  induction moves using List.reverseRecOn with
  | nil => exact ⟨row, by simpa using hrow, rfl, .inl rfl⟩
  | append_singleton moves move ih =>
      have hboth : Move.remove row.id ∉ moves ∧ move ≠ .remove row.id := by
        simp only [List.mem_append, List.mem_singleton, not_or] at hkept
        exact ⟨hkept.1, fun heq => hkept.2 heq.symm⟩
      obtain ⟨row', hrow', hid, htoken⟩ := ih hboth.1
      obtain ⟨row'', hrow'', hid', htoken'⟩ :=
        survives_step (keyed_exec (before ++ moves)) hrow' move (hid ▸ hboth.2)
      rw [← List.append_assoc, Run.exec_append, Run.exec_cons, Run.exec_nil]
      refine ⟨row'', hrow'', hid'.trans hid, ?_⟩
      rcases htoken' with hsame | ⟨u, hu, huid, hnamed⟩
      · rw [hsame]
        refine htoken.imp_right fun h => ?_
        obtain ⟨move', hmove', h⟩ := h
        exact ⟨move', by simp [hmove'], h⟩
      · exact .inr ⟨move, by simp, u, hu, huid.trans hid, hnamed⟩

theorem token_kept_restart :
    let spec : Spec := ⟨"s1", "people.v2.events.person.updated", "secret", ""⟩
    let first : ℕ → Vector UInt8 24 := fun _ => .replicate 24 0
    let again : ℕ → Vector UInt8 24 := fun _ => .replicate 24 1
    ∃ row' ∈ (Run.exec Listed.step {} ([.start [spec] first] ++ [.start [spec] again])).rows,
      row'.id = "s1" ∧ (row'.urlToken = mintToken (.replicate 24 0) ∨
        ∃ move ∈ [Move.start [spec] again], ∃ u ∈ move.upserts,
          u.id = "s1" ∧ u.token = some row'.urlToken) := by
  intro spec first again
  have hrefused : (entry first (spec, 0)).refused = none := by decide +kernel
  have haccepted : accepted [spec] first = [entry first (spec, 0)] := by
    rw [accepted_eq]
    simp [hrefused]
  have hrows : (Run.exec Listed.step {} [.start [spec] first]).rows =
      [(entry first (spec, 0)).fresh (mintToken (.replicate 24 0))] := by
    simp only [Run.exec_cons, Run.exec_nil, Listed.step, applyEnv_rows, haccepted]
    rfl
  exact token_kept [.start [spec] first] [.start [spec] again] _
    (hrows ▸ List.mem_singleton.mpr rfl) (by simp)

end PcoMirror.Registration
