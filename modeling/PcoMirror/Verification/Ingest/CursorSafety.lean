import PcoMirror.Lib.Run
import PcoMirror.Verification.Ingest.SweepSafety

/-! Cursor safety over runs: however PCO answers, no cursor passes a record that no
`2xx` page has delivered, where the failures the code does not look at stay away. -/

namespace PcoMirror

open Program

/-- A backfill, or one bounded unit of it, or an incremental sweep. -/
inductive SyncCall where
  | backfill (env : Env) (maxPages : Option ℕ) (fuel : ℕ)
  | sweep (env : Env) (fuel : ℕ)

namespace SyncCall

def env : SyncCall → Env
  | backfill env _ _ => env
  | sweep env _ => env

def apply (r : Res) (w : World) : SyncCall → World
  | backfill env maxPages fuel => w.after (PcoMirror.backfill env r maxPages fuel)
  | sweep env fuel => w.after (incrementalSweep env r fuel)

/-- No failure goes unseen: a document without a `2xx` status answers no page the code
takes on trust, and where a sweep asks for its first page it brings no data. -/
def Clean (r : Res) : SyncCall → Prop
  | backfill env _ _ => ∀ tick q, q.forgiving = false → ∀ body,
    ¬ Misreports (env.respond tick (.collection r q)) body
  | sweep env _ => ∀ tick q body, Misreports (env.respond tick (.collection r q)) body →
    q.forgiving = true ∧ ∀ data, dataOf body = .ok data → data.truthy = false

end SyncCall

variable {r : Res} {c : Collection r}

/-- A PCO that serves its collection misreports nothing. -/
theorem Serves.clean {env : Env} (h : Serves env c) (maxPages : Option ℕ) (fuel : ℕ) :
    (SyncCall.backfill env maxPages fuel).Clean r := by
  rintro tick q - body ⟨resp, hresp, hok, -⟩
  obtain ⟨status, body', hserved, hlow, hhigh, -⟩ := h tick q
  obtain rfl := Except.ok.inj (hresp.symm.trans hserved)
  simp [Response.ok, hlow, hhigh] at hok

theorem keeps_backfill (hmethod : r.info.method = .incremental) {env : Env}
    (hanswers : Answers env c) {maxPages : Option ℕ} {fuel : ℕ}
    (hclean : (SyncCall.backfill env maxPages fuel).Clean r) :
    Keeps (CursorSafe c) (backfill env r maxPages fuel) := by
  unfold backfill
  rw [hmethod]
  cases huat : r.info.supportsUatFilter with
  | true => exact keeps_backfillKeyset hanswers hclean huat maxPages fuel
  | false => exact keeps_backfillOffset hanswers hclean huat maxPages fuel

theorem keeps_incrementalSweep (hmethod : r.info.method = .incremental) {env : Env}
    (hanswers : Answers env c) {fuel : ℕ} (hclean : (SyncCall.sweep env fuel).Clean r) :
    Keeps (CursorSafe c) (incrementalSweep env r fuel) := by
  unfold incrementalSweep
  rw [hmethod]
  cases huat : r.info.supportsUatFilter with
  | true => exact keeps_keysetSweep hanswers hclean huat fuel
  | false => exact keeps_descendingSweep hanswers hclean huat fuel

/-- A call without an unseen failure keeps the cursors safe. -/
theorem SyncCall.safe (hmethod : r.info.method = .incremental) {call : SyncCall}
    (hanswers : Answers call.env c) (hclean : call.Clean r) {w : World} (hw : CursorSafe c w) :
    CursorSafe c (call.apply r w) := by
  cases call with
  | backfill env maxPages fuel => exact keeps_after (keeps_backfill hmethod hanswers hclean) hw
  | sweep env fuel => exact keeps_after (keeps_incrementalSweep hmethod hanswers hclean) hw

/-- A resource that has never been synced claims nothing. -/
theorem cursorSafe_fresh {w : World} (hfresh : w.sync r = {}) : CursorSafe c w := by
  rw [CursorSafe, hfresh]
  refine ⟨fun hdone => ?_, fun _ => ⟨below_empty w, below_empty w, below_empty w⟩,
    fun _ => ⟨fun e he hle => ?_, fun cursor hcursor e he => ?_⟩⟩
  · simp at hdone
  · have hnonempty := he.isListed.updated.wholeSecond.ne_empty
    exact absurd (le_antisymm hle (empty_le _)) hnonempty
  · obtain rfl : cursor = "" := by simpa using hcursor
    simp [digitsOrZero_empty] at he

/-- Over any run of backfills and sweeps without an unseen failure, every state reached
has safe cursors. -/
theorem cursors_safe (r : Res) (hmethod : r.info.method = .incremental) (c : Collection r)
    (calls : List SyncCall) (hanswers : ∀ call ∈ calls, Answers call.env c)
    (hclean : ∀ call ∈ calls, call.Clean r) (w : World) (hfresh : w.sync r = {}) (n : ℕ) :
    CursorSafe c (Run.exec (SyncCall.apply r) w (calls.take n)) := by
  have hcalls : ∀ call ∈ calls, Answers call.env c ∧ call.Clean r :=
    fun call hcall => ⟨hanswers call hcall, hclean call hcall⟩
  refine ((Run.each_of_mem hcalls).take n).invariant (cursorSafe_fresh hfresh) ?_
  intro w call hw hcall
  exact SyncCall.safe hmethod hcall.1 hcall.2 hw

/-- The first second of March 2024. -/
def marchFirst : String :=
  "2024-03-01T00:00:00Z"

/-- A record created and last changed at one second. -/
def dated (r : Res) (id second : String) : Json :=
  .obj [("type", .str r.info.type), ("id", .str id),
    ("attributes", .obj [("created_at", .str second), ("updated_at", .str second)])]

theorem isListed_dated (r : Res) (id : String) {second : String}
    (h : Iso8601.WholeSecond second) : IsListed r id (dated r id second) where
  type_eq := rfl
  id_eq := rfl
  attributes := ⟨_, rfl⟩
  updated := ⟨second, rfl, h⟩

theorem wholeSecond_marchFirst : Iso8601.WholeSecond marchFirst :=
  ⟨⟨2024, 3, 1, 0, 0, 0⟩, by decide, by decide, by decide⟩

/-- A collection of one record, at one second. -/
def lone (r : Res) (id : String) {second : String} (h : Iso8601.WholeSecond second) :
    Collection r where
  listing := fun _ => [(id, dated r id second)]
  honours := fun _ => r.info.supportsUatFilter
  perm := fun _ _ => .refl _
  records := by simpa using isListed_dated r id h
  nodup := List.nodup_singleton _
  ascending := List.pairwise_singleton _ _
  descending := List.pairwise_singleton _ _
  filtered := fun h => h

/-- One address. -/
def oneAddress : Collection .address :=
  lone .address "1" wholeSecond_marchFirst

theorem cursors_safe_oneAddress :
    CursorSafe oneAddress (Run.exec (SyncCall.apply .address) {}
      ([SyncCall.backfill oneAddress.serve none 2].take 1)) :=
  cursors_safe .address rfl oneAddress [.backfill oneAddress.serve none 2]
    (List.forall_mem_singleton.mpr oneAddress.serve_serves.answers)
    (List.forall_mem_singleton.mpr (oneAddress.serve_serves.clean none 2)) {} rfl 1

/-- A PCO that answers every request with an error document. -/
def missingEnv : Env :=
  { quietEnv with respond := fun _ _ => .ok ⟨404, .json (.obj [("errors", .arr [])])⟩ }

/-- A first page that fails reads as an empty list, and the resource as complete. -/
theorem cursors_not_safe :
    ¬ ∀ r : Res, r.info.method = .incremental → ∀ (c : Collection r) (calls : List SyncCall),
      (∀ call ∈ calls, Answers call.env c) → ∀ w : World, w.sync r = {} → ∀ n,
      CursorSafe c (Run.exec (SyncCall.apply r) w (calls.take n)) := by
  intro h
  have hanswers : Answers missingEnv oneAddress := by
    intro tick q resp hresp hok
    obtain rfl := Except.ok.inj hresp
    cases hok
  have hsafe := h .address rfl oneAddress [.backfill missingEnv none 2]
    (List.forall_mem_singleton.mpr hanswers) {} rfl 1
  obtain ⟨status, hlow, hhigh, hentry⟩ := hsafe.complete (.inl (by decide)) _ (.head _)
  have hlog : (Run.exec (SyncCall.apply .address) {} [.backfill missingEnv none 2]).log =
      [.exchange (.collection .address { offset := some 0 })
        (.ok ⟨404, .json (.obj [("errors", .arr [])])⟩)] := rfl
  rw [List.take_of_length_le (by decide), hlog] at hentry
  simp at hentry

end PcoMirror
