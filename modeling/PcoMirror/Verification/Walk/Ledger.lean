import PcoMirror.Model.Ingest.Ledger
import PcoMirror.Verification.Ingest.Delivery
import PcoMirror.Verification.Walk.Frame

/-! What the record of walks stands for: PCO has answered the collection of every parent on
it, page after page to the end, unless it answered that there is none. -/

namespace PcoMirror

open Program

/-! ## Collections read in full -/

/-- The records of a page, where they can be read. -/
def Response.items (resp : Response) : Option (List Json) :=
  (resp.document >>= fun body => dataOf body >>= pyItems).toOption

/-- PCO's answers to the pages of a parent's collection from its start up to an offset, newest
first: each a `2xx` with a full page. -/
inductive FullPages (parent : Res) (parentId : String) (c : Res) : ℕ → List Entry → Prop where
  | start : FullPages parent parentId c 0 []
  | page {off : ℕ} {entries : List Entry} {resp : Response} {items : List Json} :
      FullPages parent parentId c off entries → resp.ok = true → resp.items = some items →
      100 ≤ items.length → FullPages parent parentId c (off + 100)
        (.exchange (.nested parent parentId c off) (.ok resp) :: entries)

/-- PCO has answered the collection with a complete sequence of `2xx` pages, by this record. -/
def Collected (record : List Entry) (c : Res) (parentId : String) : Prop :=
  ∃ parent off entries resp items, c.info.parent = some parent ∧
    FullPages parent parentId c off entries ∧ resp.ok = true ∧ resp.items = some items ∧
    items.length < 100 ∧
    (.exchange (.nested parent parentId c off) (.ok resp) :: entries).Sublist record

/-- PCO has answered a request for the collection with `404`, by this record. -/
def NotFound (record : List Entry) (c : Res) (parentId : String) : Prop :=
  ∃ parent off resp, resp.status = 404 ∧
    .exchange (.nested parent parentId c off) (.ok resp) ∈ record

def WalkAnswered (record : List Entry) (c : Res) (parentId : String) : Prop :=
  Collected record c parentId ∨ NotFound record c parentId

variable {record record' : List Entry} {c : Res} {id : String}

theorem Collected.mono (h : Collected record c id) (hrecord : record <:+ record') :
    Collected record' c id := by
  obtain ⟨parent, off, entries, resp, items, hparent, hfull, hok, hitems, hshort, hsub⟩ := h
  exact ⟨parent, off, entries, resp, items, hparent, hfull, hok, hitems, hshort,
    hsub.trans hrecord.sublist⟩

theorem NotFound.mono (h : NotFound record c id) (hrecord : record <:+ record') :
    NotFound record' c id := by
  obtain ⟨parent, off, resp, h404, hmem⟩ := h
  exact ⟨parent, off, resp, h404, hrecord.subset hmem⟩

theorem WalkAnswered.mono (h : WalkAnswered record c id) (hrecord : record <:+ record') :
    WalkAnswered record' c id :=
  h.imp (·.mono hrecord) (·.mono hrecord)

/-- PCO has answered the collection of every parent on record, and these others. -/
def World.Credited (others : List (Res × String)) (w : World) : Prop :=
  ∀ c id, w.parentWalked c id = true ∨ (c, id) ∈ others → WalkAnswered w.log c id

/-! ## Programs that put no parent on record unanswered -/

/-- No parent is on record that was not, and nothing of the exchanges is lost. -/
structure Unwalked (w w' : World) : Prop where
  walks : ∀ c id, w'.parentWalked c id = true → w.parentWalked c id = true
  log : w.log <:+ w'.log

theorem Unwalked.of_eq {w w' : World} (hwalks : w'.walks = w.walks) (hlog : w.log <:+ w'.log) :
    Unwalked w w' where
  walks := by simp [World.parentWalked, hwalks]
  log := hlog

theorem Unwalked.credited {w w' : World} {others : List (Res × String)} (h : Unwalked w w')
    (hw : w.Credited others) : w'.Credited others :=
  fun c id hid => (hw c id (hid.imp_left (h.walks c id))).mono h.log

theorem Writes.unwalked {w w' : World} (h : Writes w w') : Unwalked w w' := by
  obtain ⟨db, tick, entries, rfl⟩ := h
  exact .of_eq rfl (List.suffix_append _ _)

variable {α β : Type}

/-- However the program ends, PCO has answered whatever is on record. -/
def Earns (m : Proc α) : Prop :=
  ∀ others, Keeps (World.Credited others) m

theorem earns_pure (a : α) : Earns (pure a : Proc α) :=
  fun _ => Keeps.pure a

theorem Earns.bind {m : Proc α} {f : α → Proc β} (hm : Earns m) (hf : ∀ a, Earns (f a)) :
    Earns (m >>= f) :=
  fun others => Keeps.bind (hm others) fun a => hf a others

theorem Earns.ite {p : Prop} [Decidable p] {m m' : Proc α} (h : Earns m) (h' : Earns m') :
    Earns (if p then m else m') :=
  fun others => Keeps.ite (h others) (h' others)

theorem Earns.forEach {action : β → Proc Unit} (h : ∀ x, Earns (action x)) (xs : List β) :
    Earns (forEach action xs) :=
  fun others => Keeps.forEach xs fun x _ => h x others

theorem Earns.whenSome {action : β → Proc Unit} (h : ∀ x, Earns (action x)) (x : Option β) :
    Earns (whenSome x action) :=
  fun others => Keeps.whenSome x fun b _ => h b others

theorem Earns.whileTrue {ρ : Type} {halt : Halt} {body : ρ → Proc (Pass ρ α)}
    (h : ∀ p, Earns (body p)) (fuel : ℕ) (p : ρ) : Earns (whileTrue halt body fuel p) :=
  fun others => Keeps.whileTrue (fun p => h p others) fuel p

theorem Earns.catching {m : Proc α} {handler : PyError → Proc α} (hm : Earns m)
    (hh : ∀ e, Earns (handler e)) : Earns (catching m handler) := by
  refine fun others => Keeps.tryCatch (hm others) fun halt => ?_
  cases halt with
  | raised e => exact hh e others
  | stopped => exact Keeps.throw _

theorem Earns.attempt {m : Proc α} (hm : Earns m) : Earns (attempt m) :=
  .catching (by rw [map_eq_pure_bind]; exact hm.bind fun _ => earns_pure _) fun _ => earns_pure _

section

variable {env : Env} {r parent : Res} {parentId : String} {others : List (Res × String)}

/-- The page at an offset has been answered too. -/
def PageAnswered (others : List (Res × String)) (r parent : Res) (parentId : String) (off : ℕ)
    (resp : Response) (w : World) : Prop :=
  w.Credited others ∧ ∃ entries, FullPages parent parentId r off entries ∧
    (.exchange (.nested parent parentId r off) (.ok resp) :: entries).Sublist w.log

/-- Where a walk has ended: its collection has been answered. -/
def WalkEnded (others : List (Res × String)) (r : Res) (parentId : String) (w : World) : Prop :=
  w.Credited others ∧ WalkAnswered w.log r parentId

theorem PageAnswered.writes {off : ℕ} {resp : Response} (w w' : World) (h : Writes w w')
    (hw : PageAnswered others r parent parentId off resp w) :
    PageAnswered others r parent parentId off resp w' := by
  obtain ⟨hcredited, entries, hfull, hsub⟩ := hw
  exact ⟨h.unwalked.credited hcredited, entries, hfull, hsub.trans h.log.sublist⟩

theorem WalkEnded.writes (w w' : World) (h : Writes w w') (hw : WalkEnded others r parentId w) :
    WalkEnded others r parentId w' :=
  ⟨h.unwalked.credited hw.1, hw.2.mono h.log⟩

theorem World.Credited.withWalk {w : World} (h : WalkEnded others r parentId w) (walk : WalkState) :
    (w.withWalk r parentId walk).Credited ((r, parentId) :: others) := by
  rintro c id hid
  have hcases : c = r ∧ id = parentId ∨ w.parentWalked c id = true ∨ (c, id) ∈ others := by
    rw [parentWalked_withWalk] at hid
    simpa [or_assoc, or_left_comm] using hid
  rcases hcases with ⟨rfl, rfl⟩ | hid
  · exact h.2
  · exact h.1 c id hid

end

end PcoMirror
