import PcoMirror.Verification.Serving.Reads
import PcoMirror.Verification.Walk.Independence

/-! What a read may be told by: the scope of a key is checked once, and from then on an answer rests
on the rows of the types that the request reaches. -/

namespace PcoMirror

open Program

/-! ## The types a request reaches -/

/-- The types whose rows a filter looks into. -/
def Clause.types : Clause → List Res
  | .column _ _ => []
  | .through rel inner => rel.target :: inner.types
  | .search arms _ => arms.children.map (·.target)
  | .never => []

def whereTypes (u : Unicode) (r : Res) (qs : Qs) : List Res :=
  match buildWhere u r qs with
  | .ok clauses => clauses.flatMap Clause.types
  | .error _ => []

/-- The types that one token of `include` names. -/
def tokenTypes (r : Res) (token : String) : List Res :=
  match r.info.relationships.lookup (Text.partition '.' token).1 with
  | none => []
  | some rel => rel.target ::
    match rel.target.info.relationships.lookup (Text.partition '.' token).2 with
    | none => []
    | some rel2 => [rel2.target]

def includeTypes (r : Res) (qs : Qs) : List Res :=
  match qs.first? "include" with
  | none | some "" => []
  | some tokens => (Text.commas tokens).flatMap (tokenTypes r)

def singleTypes (r : Res) (qs : Qs) : List Res :=
  r :: includeTypes r qs

def listTypes (u : Unicode) (r : Res) (qs : Qs) : List Res :=
  r :: whereTypes u r qs ++ includeTypes r qs

def nestedTypes (u : Unicode) (r : Res) (name : String) (qs : Qs) : List Res :=
  match r.info.relationships.lookup name with
  | none => []
  | some rel => r ::
    if rel.kind = .one then singleTypes rel.target qs else listTypes u rel.target qs

def nestedSingleTypes (u : Unicode) (r : Res) (name : String) (tail : Option String) (qs : Qs) :
    List Res :=
  match r.info.relationships.lookup name with
  | none => []
  | some rel => r :: rel.target ::
    match tail with
    | some tail => nestedTypes u rel.target tail qs
    | none => singleTypes rel.target qs

/-- The types that what follows the first segment names. -/
def restTypes (u : Unicode) (r : Res) (qs : Qs) : List String → List Res
  | [] => listTypes u r qs
  | [_] => singleTypes r qs
  | [_, name] => nestedTypes u r name qs
  | [_, name, _] => nestedSingleTypes u r name none qs
  | [_, name, _, tail] => nestedSingleTypes u r name (some tail) qs
  | _ => []

/-- Whether a key may read what is under a segment. -/
def allowsRead (scopes : List String) (segment : String) : Bool :=
  scopes.contains "read:*" || scopes.contains ("read:" ++ segment)

/-- The types that a request names: none, where its first segment is not within the scopes. -/
def namedTypes (u : Unicode) (scopes : Except String (List String)) (path : String) (qs : Qs) :
    List Res :=
  match scopes, segments path with
  | .ok scopes, some (first :: rest) =>
    match bySegment first with
    | none => []
    | some r => if allowsRead scopes first then restTypes u r qs rest else []
  | _, _ => []

/-- The types that a request reaches: those it names and, where a walked collection is among them,
those that have a say in what the walk leaves of them. -/
def reach (u : Unicode) (scopes : Except String (List String)) (path : String) (qs : Qs) :
    List Res :=
  let named := namedTypes u scopes path qs
  if named.any (·.info.method = .nestedWalk) then named ++ named.flatMap Res.deciders else named

/-! ## Types that suffice -/

/-- Where a walked collection is among the types, so are all that have a say in them. -/
def Covers (types : Res → Prop) : Prop :=
  ∀ t, types t → t.info.method = .nestedWalk → Closed types

theorem deciders_of_mem_deciders (t : Res) : ∀ u ∈ t.deciders, u.deciders = [] := by
  cases t <;> decide

theorem parent_mem_deciders (t : Res) : ∀ parent ∈ t.info.parent, parent ∈ t.deciders := by
  cases t <;> decide

theorem covers_reach (u : Unicode) (scopes : Except String (List String)) (path : String)
    (qs : Qs) : Covers (· ∈ reach u scopes path qs) := by
  intro t ht hwalked
  unfold reach at ht ⊢
  simp only at ht ⊢
  split_ifs at ht ⊢ with hany
  · intro v hv w hw
    rcases List.mem_append.mp hv with hv | hv
    · exact List.mem_append_right _ (List.mem_flatMap.mpr ⟨v, hv, hw⟩)
    · obtain ⟨t, -, hv⟩ := List.mem_flatMap.mp hv
      rw [deciders_of_mem_deciders t v hv] at hw
      cases hw
  · exact absurd (List.any_eq_true.mpr ⟨t, ht, by simpa using hwalked⟩) hany

theorem mem_reach {u : Unicode} {scopes : Except String (List String)} {path : String} {qs : Qs}
    {t : Res} (h : t ∈ namedTypes u scopes path qs) : t ∈ reach u scopes path qs := by
  unfold reach
  simp only
  split_ifs
  · exact List.mem_append_left _ h
  · exact h

variable {types : Res → Prop} {db db' : Db} {t : Res}

theorem Covers.closed (hcovers : Covers types) {rel : Rel} {parent : Res} (ht : types rel.target)
    (h : rel.walkedUnder = some parent) : Closed types ∧ types parent := by
  unfold Rel.walkedUnder at h
  split_ifs at h with hwalked
  have hclosed := hcovers _ ht hwalked.1
  exact ⟨hclosed, hclosed _ ht _ (parent_mem_deciders _ parent h)⟩

/-! ## Lookups -/

namespace Db.AgreeOn

variable (h : db.AgreeOn types db') (ht : types t)

include h ht

theorem liveRows : db.liveRows t = db'.liveRows t := by
  rw [Db.liveRows, Db.liveRows, Db.rows, Db.rows, h t ht]

theorem live? (id : String) : db.live? t id = db'.live? t id := by
  rw [Db.live?, Db.live?, h.row? ht]

theorem pointingAt (fk : Option String) (id : String) :
    db.pointingAt t fk id = db'.pointingAt t fk id := by
  rw [Db.pointingAt, Db.pointingAt, h.liveRows ht]

omit ht in
theorem relTargetIds {rel : Rel} (ht : types rel.target) (r : Res) (held : Held) :
    db.relTargetIds r rel held = db'.relTargetIds r rel held := by
  rw [Db.relTargetIds, Db.relTargetIds, h.pointingAt ht]

omit ht in
theorem relatedRows {rel : Rel} (ht : types rel.target) (r : Res) (rows : List Held) :
    db.relatedRows r rel rows = db'.relatedRows r rel rows := by
  have hlive : db.live? rel.target = db'.live? rel.target := funext (h.live? ht)
  rw [Db.relatedRows, Db.relatedRows, h.liveRows ht, hlive]

omit ht in
theorem parentIds {parent : Res} (hparent : types parent) (r : Res) (held : Held) :
    db.parentIds r parent held = db'.parentIds r parent held := by
  rw [Db.parentIds, Db.parentIds]
  cases hedge : edgeTo r parent with
  | none => rfl
  | some hop =>
      obtain ⟨e, he, rfl⟩ := Option.map_eq_some_iff.mp hedge
      have htarget : e.2.target = parent := by simpa using List.find?_some he
      simp only
      rw [h.relTargetIds (htarget ▸ hparent)]

omit ht in
theorem hop {rel : Rel} (ht : types rel.target) (site : Site) (r : Res) (held : Held) :
    site.hop db r rel held = site.hop db' r rel held := by
  have hlive : db.live? rel.target = db'.live? rel.target := funext (h.live? ht)
  have hentry : site.entryRow db rel.target = site.entryRow db' rel.target := by
    funext entry
    rw [Site.entryRow, Site.entryRow, hlive]
  rw [Site.hop, Site.hop, hlive, hentry, h.pointingAt ht]

omit ht in
theorem searchHolds {search : Search} (ht : ∀ arm ∈ search.children, types arm.target)
    (u : Unicode) (r : Res) (held : Held) (needle : String) :
    search.holds u db r held needle = search.holds u db' r held needle := by
  unfold Search.holds
  simp only
  congr 1
  refine Bool.eq_iff_iff.mpr ?_
  simp only [List.any_eq_true]
  refine exists_congr fun arm => and_congr_right fun harm => ?_
  rw [SearchChild.holds, SearchChild.holds, h.pointingAt (ht arm harm)]

omit ht in
theorem holds {clause : Clause} (ht : ∀ t ∈ clause.types, types t) (site : Site) (u : Unicode)
    (r : Res) (held : Held) :
    clause.holds site u db r held = clause.holds site u db' r held := by
  induction clause generalizing r held with
  | column col test => rfl
  | never => rfl
  | search search needle =>
      exact congrArg Except.ok (h.searchHolds
        (fun arm harm => ht _ (List.mem_map_of_mem harm)) u r held needle)
  | through rel inner ih =>
      obtain ⟨hrel, hinner⟩ := List.forall_mem_cons.mp ht
      rw [Clause.holds, Clause.holds, h.hop hrel]
      congr 1
      funext x
      exact ih hinner rel.target x

omit ht in
theorem allHold {clauses : List Clause} (ht : ∀ clause ∈ clauses, ∀ t ∈ clause.types, types t)
    (site : Site) (u : Unicode) (r : Res) (held : Held) :
    allHold site u db r held clauses = PcoMirror.allHold site u db' r held clauses := by
  induction clauses with
  | nil => rfl
  | cons clause clauses ih =>
      obtain ⟨hclause, hrest⟩ := List.forall_mem_cons.mp ht
      rw [PcoMirror.allHold, PcoMirror.allHold, h.holds hclause, ih hrest]

end Db.AgreeOn

/-! ## Steps of a read -/

/-- Two requests on mirrors that differ in the rows of other types alone. -/
structure Exchange.AgreeOn (types : Res → Prop) (x y : Exchange) : Prop where
  world : x.world.AgreeOn types y.world
  sends : x.sends = y.sends

namespace Exchange.AgreeOn

variable {x y : Exchange} (h : x.AgreeOn types y)

include h

theorem rows : x.world.db.AgreeOn types y.world.db := by
  obtain ⟨db', hworld, hdb⟩ := h.world
  rw [hworld]
  exact hdb

/-- Where the mirrors agree on nothing, they still differ in their rows alone. -/
theorem none : x.AgreeOn (fun _ => False) y := by
  obtain ⟨db', hworld, -⟩ := h.world
  exact ⟨⟨db', hworld, fun _ ht => ht.elim⟩, h.sends⟩

theorem parentWalked : x.world.parentWalked = y.world.parentWalked := by
  obtain ⟨db', hworld, -⟩ := h.world
  rw [hworld]
  rfl

theorem orgParent : x.world.orgParent = y.world.orgParent := by
  obtain ⟨db', hworld, -⟩ := h.world
  rw [hworld]
  rfl

end Exchange.AgreeOn

abbrev Reading.AgreeOn (types : Res → Prop) (x y : Reading) : Prop :=
  x.toExchange.AgreeOn types y.toExchange

/-- What a read ends in rests on the rows of these types alone. -/
def RestsOn (types : Res → Prop) {α : Type} (m m' : Read α) : Prop :=
  Leads (Reading.AgreeOn types) (Reading.AgreeOn fun _ => False) m m'

variable {α β : Type} {S : Reading → Reading → Prop}

theorem RestsOn.of_agree {m m' : Read α} (h : Agree (Reading.AgreeOn types) m m') :
    RestsOn types m m' :=
  Leads.mono h fun _ _ h => h.none

theorem RestsOn.bind {m m' : Read α} {f f' : α → Read β} (hm : Agree (Reading.AgreeOn types) m m')
    (hf : ∀ a, RestsOn types (f a) (f' a)) : RestsOn types (m >>= f) (m' >>= f') :=
  Leads.bind hm hf fun _ _ h => h.none

theorem leads_database {f f' : Db → Read α}
    (h : ∀ db db' : Db, db.AgreeOn types db' → Leads (Reading.AgreeOn types) S (f db) (f' db')) :
    Leads (Reading.AgreeOn types) S (database >>= f) (database >>= f') :=
  fun x y hxy => h _ _ hxy.rows x y hxy

theorem same_readPy (e : Except PyError α) :
    Agree (Reading.AgreeOn types) (readPy e) (readPy e) := by
  cases e with
  | ok a => exact Agree.pure a
  | error e => exact Agree.throw _

theorem same_readSql (e : Except SqlError α) :
    Agree (Reading.AgreeOn types) (readSql e) (readSql e) := by
  cases e with
  | ok a => exact Agree.pure a
  | error e => exact Agree.throw _

/-- A refusal of the query ends both reads; otherwise both know what was read of it. -/
theorem same_ofFault_bind {e : Except Fault α} {f f' : α → Read β}
    (h : ∀ a, e = .ok a → Agree (Reading.AgreeOn types) (f a) (f' a)) :
    Agree (Reading.AgreeOn types) (ofFault e >>= f) (ofFault e >>= f') := by
  cases e with
  | ok a => exact h a rfl
  | error e => exact Agree.throw (α := β) e

theorem same_present (collections collections' : Db → List (Res × String)) :
    Agree (Reading.AgreeOn types) (present collections) (present collections') :=
  Agree.modify fun _ _ h => ⟨h.world, h.sends⟩

theorem same_noteEnsured (c : Res) (parentId : String) :
    Agree (Reading.AgreeOn types) (noteEnsured c parentId) (noteEnsured c parentId) :=
  Agree.modify fun _ _ h => ⟨h.world, h.sends⟩

theorem same_onExchange {m : Serving α} (h : Agree (Exchange.AgreeOn types) m m) :
    Agree (Reading.AgreeOn types) (onExchange m) (onExchange m) := by
  intro x y hxy
  have hm := h _ _ hxy
  rw [run_onExchange, run_onExchange]
  generalize m.run x.toExchange = a, m.run y.toExchange = b at hm
  cases hm with
  | ok a h => exact .ok a h
  | error e h => exact .error e h

theorem same_onMirror {m : Proc α} (h : Agree (World.AgreeOn types) m m) :
    Agree (Exchange.AgreeOn types) (onMirror m) (onMirror m) := by
  intro x y hxy
  have hm := h _ _ hxy.world
  rw [run_onMirror, run_onMirror]
  generalize m.run x.world = a, m.run y.world = b at hm
  cases hm with
  | ok a hw => exact .ok a ⟨hw, hxy.sends⟩
  | error halt hw =>
      cases halt with
      | raised e => exact .error _ ⟨hw, hxy.sends⟩
      | stopped => exact .error _ ⟨hw, hxy.sends⟩

section

variable {env : Env} {fuel : ℕ}

/-! ## Walks -/

theorem same_fillParent {c parent : Res} (hclosed : Closed types) (hc : types c)
    (hparent : types parent) (budget : ℕ) (parentId : String) :
    Agree (Reading.AgreeOn types) (fillParent env fuel c parent budget parentId)
      (fillParent env fuel c parent budget parentId) := by
  refine Leads.get fun x y hxy => ?_
  rw [hxy.parentWalked, hxy.rows.isLive hparent]
  refine Agree.ite (fun _ => Agree.bind (same_noteEnsured c parentId) fun _ => Agree.pure _)
    fun _ => Agree.ite (fun _ => Agree.pure _) fun _ => Agree.ite (fun _ => Agree.throw _)
    fun _ => ?_
  refine Agree.bind (same_onExchange (same_onMirror (same_attempt
    (same_ensureParentWalked hclosed env hc parent parentId fuel)))) fun tried => ?_
  cases tried with
  | ok _ => exact Agree.bind (same_noteEnsured c parentId) fun _ => Agree.pure _
  | error e => exact Agree.throw _

theorem same_fillRow {c parent : Res} (hclosed : Closed types) (hc : types c)
    (hparent : types parent) (r : Res) (budget : ℕ) (held : Held) :
    Agree (Reading.AgreeOn types) (fillRow env fuel r c parent budget held)
      (fillRow env fuel r c parent budget held) := by
  refine leads_database fun db db' hdb => ?_
  rw [hdb.parentIds hparent]
  exact Agree.bind (same_readPy _) fun ids => Agree.foldlM ids
    (fun budget id _ => same_fillParent hclosed hc hparent budget id) budget

theorem same_ensureWalked (hcovers : Covers types) {rel : Rel} (ht : types rel.target) (r : Res)
    (rows : List Held) :
    Agree (Reading.AgreeOn types) (ensureWalked env fuel r rel rows)
      (ensureWalked env fuel r rel rows) := by
  unfold ensureWalked
  cases hparent : rel.walkedUnder with
  | none => exact Agree.pure _
  | some parent =>
      obtain ⟨hclosed, hparent⟩ := hcovers.closed ht hparent
      exact Agree.bind (Agree.foldlM rows
        (fun budget held _ => same_fillRow hclosed ht hparent r budget held) 25) fun _ =>
        Agree.pure _

theorem same_readRelated {rel : Rel} (ht : types rel.target) (r : Res) (rows : List Held) :
    Agree (Reading.AgreeOn types) (readRelated r rel rows) (readRelated r rel rows) := by
  refine Agree.bind (same_present _ _) fun _ => leads_database fun db db' hdb => ?_
  rw [hdb.relatedRows ht]
  exact same_readPy _

/-! ## Includes -/

variable {site : Site} {u : Unicode}

theorem same_echoRow {rel rel2 : Rel} (ht : types rel.target) (ht2 : types rel2.target) (r : Res)
    (second : String) (g : Gathered) (held : Held) :
    Agree (Reading.AgreeOn types) (echoRow r rel rel2 second g held)
      (echoRow r rel rel2 second g held) := by
  have hids : ∀ own, Agree (Reading.AgreeOn types) (echoIds rel rel2 own) (echoIds rel rel2 own) :=
    fun own => Agree.foldlM own (fun ids one _ =>
      Agree.bind (same_readRelated ht2 rel.target [one]) fun hop => Agree.pure _) []
  exact Agree.bind (same_readRelated ht r [held]) fun own => Agree.ite (fun _ => Agree.pure _)
    fun _ => Agree.bind (hids own) fun ids => Agree.pure _

theorem same_includeToken (hcovers : Covers types) {r : Res} {token : String}
    (ht : ∀ t ∈ tokenTypes r token, types t) (fields : List (String × List String))
    (rows : List Held) (g : Gathered) :
    Agree (Reading.AgreeOn types) (includeToken env site u fuel fields r rows g token)
      (includeToken env site u fuel fields r rows g token) := by
  unfold includeToken
  unfold tokenTypes at ht
  simp only
  cases hrel : r.info.relationships.lookup (Text.partition '.' token).1 with
  | none => exact Agree.throw _
  | some rel =>
      rw [hrel] at ht
      obtain ⟨ht, hsecond⟩ := List.forall_mem_cons.mp ht
      refine Agree.bind (same_ensureWalked hcovers ht r rows) fun _ =>
        Agree.bind (same_readRelated ht r rows) fun level1 => Agree.bind (same_readPy _) fun g =>
          Agree.ite (fun _ => Agree.pure _) fun _ => ?_
      cases hrel2 : rel.target.info.relationships.lookup (Text.partition '.' token).2 with
      | none => exact Agree.pure _
      | some rel2 =>
          rw [hrel2] at hsecond
          have ht2 := hsecond _ (List.mem_singleton_self _)
          exact Agree.bind (same_ensureWalked hcovers ht2 rel.target level1) fun _ =>
            Agree.bind (same_readRelated ht2 rel.target level1) fun level2 =>
              Agree.bind (same_readPy _) fun g => Agree.foldlM rows
                (fun g held _ => same_echoRow ht ht2 r _ g held) g

theorem same_buildIncludes (hcovers : Covers types) {r : Res} {qs : Qs}
    (ht : ∀ t ∈ includeTypes r qs, types t) (rows : List Held) :
    Agree (Reading.AgreeOn types) (buildIncludes env site u fuel r rows qs)
      (buildIncludes env site u fuel r rows qs) := by
  unfold buildIncludes
  unfold includeTypes at ht
  split
  · exact Agree.pure _
  · exact Agree.pure _
  · rename_i tokens hempty htokens
    have htoken : ∀ token ∈ Text.commas tokens, ∀ t ∈ tokenTypes r token, types t := by
      intro token hmem t hin
      refine ht t ?_
      rw [htokens]
      split
      · cases ‹some tokens = none›
      · exact absurd rfl (Option.some.inj ‹some tokens = some ""› ▸ hempty)
      · cases ‹some tokens = some _›
        exact List.mem_flatMap.mpr ⟨token, hmem, hin⟩
    exact Agree.foldlM _ (fun g token hmem =>
      same_includeToken hcovers (htoken token hmem) _ rows g) {}

/-! ## Answers -/

theorem clauses_within {r : Res} {qs : Qs} {clauses : List Clause}
    (ht : ∀ t ∈ whereTypes u r qs, types t) (h : buildWhere u r qs = .ok clauses) :
    ∀ clause ∈ clauses, ∀ t ∈ clause.types, types t := by
  intro clause hclause t hin
  refine ht t ?_
  rw [whereTypes, h]
  exact List.mem_flatMap.mpr ⟨clause, hclause, hin⟩

theorem same_listPage {r : Res} {qs : Qs} (hr : types r)
    (ht : ∀ t ∈ whereTypes u r qs, types t) (keeps : Held → Bool) :
    Agree (Reading.AgreeOn types) (listPage site u r qs keeps) (listPage site u r qs keeps) := by
  refine same_ofFault_bind fun clauses hclauses => same_ofFault_bind fun keys _ =>
    same_ofFault_bind fun perPage _ => same_ofFault_bind fun offset _ =>
      leads_database fun db db' hdb => ?_
  have hholds : (fun held => allHold site u db r held clauses) =
      fun held => allHold site u db' r held clauses :=
    funext fun held => hdb.allHold (clauses_within ht hclauses) site u r held
  rw [hdb.liveRows hr, hholds]
  refine Agree.bind (same_present _ _) fun _ => Agree.ite (fun _ => Agree.throw _) fun _ => ?_
  exact Agree.bind (same_readSql _) fun matching => Agree.ite (fun _ => Agree.throw _) fun _ =>
    Agree.pure _

theorem same_list (hcovers : Covers types) {r : Res} {qs : Qs}
    (ht : ∀ t ∈ listTypes u r qs, types t) (path : String) (keeps : Held → Bool)
    (parent : Option Json) :
    Agree (Reading.AgreeOn types) (list env site u fuel r path qs keeps parent)
      (list env site u fuel r path qs keeps parent) := by
  obtain ⟨hr, hrest⟩ := List.forall_mem_cons.mp ht
  obtain ⟨hwhere, hincludes⟩ := List.forall_mem_append.mp hrest
  refine Agree.bind (same_listPage hr hwhere keeps) fun page =>
    Agree.bind (same_buildIncludes hcovers hincludes page.rows) fun g =>
      Agree.bind (same_readPy _) fun data => Leads.get fun x y hxy => ?_
  rw [hxy.orgParent]
  exact Agree.pure _

variable {transport : Transport}

/-- What the transport is handed does not depend on the mirror. -/
theorem same_attempts (method : Verb) (left : ℕ) :
    Agree (Exchange.AgreeOn types) (attempts transport method left)
      (attempts transport method left) := by
  have hsend : Agree (Exchange.AgreeOn types) (send transport) (send transport) := by
    refine Leads.get fun x y hxy => ?_
    rw [hxy.sends]
    exact fun x' y' h => .ok _ ⟨hxy.world, rfl⟩
  have hpy : ∀ outcome : Outcome, Agree (Exchange.AgreeOn types) (servePy outcome)
      (servePy outcome) := by
    intro outcome
    cases outcome with
    | ok answer => exact Agree.pure _
    | error e => exact Agree.throw _
  induction left with
  | zero => exact Agree.bind hsend hpy
  | succ left ih => exact Agree.bind hsend fun outcome => Agree.ite (fun _ => ih) fun _ => hpy _

theorem closed_none : Closed fun _ => False :=
  fun _ ht => ht.elim

/-- A relayed answer rests on no rows of the mirror. -/
theorem rests_passthrough (scopes : List String) (path : String) (qs : Qs) (body : Body) :
    RestsOn types (passthrough env transport site scopes path qs body)
      (passthrough env transport site scopes path qs body) := by
  suffices h : Agree (Reading.AgreeOn fun _ => False)
      (passthrough env transport site scopes path qs body)
      (passthrough env transport site scopes path qs body) from
    fun x y hxy => h x y hxy.none
  refine Agree.bind (Agree.ite (fun _ => Agree.pure _) fun _ => Agree.throw _) fun _ =>
    Agree.bind (same_readPy _) fun _ => Agree.bind (same_onExchange (same_attempts .get 5))
      fun resp => Agree.bind (same_readPy _) fun out => ?_
  have hanswer : Agree (Reading.AgreeOn fun _ => False) _ _ :=
    Agree.bind (same_readPy (site.rewriteDocument out)) fun out => Agree.pure
      (⟨resp.status, [("X-Mirror-Source", "passthrough")], .document
        (if out.truthy then out else .obj [("status", .int resp.status)])⟩ : Reply)
  refine Agree.ite (fun _ => ?_) fun _ => hanswer
  exact Agree.bind (same_onExchange (same_onMirror (same_routePage closed_none env _ _ _ _ _)))
    fun _ => hanswer

theorem rests_single (hcovers : Covers types) {r : Res} {qs : Qs}
    (ht : ∀ t ∈ singleTypes r qs, types t) (scopes : List String) (id path : String) :
    RestsOn types (single env transport site u fuel scopes r id path qs)
      (single env transport site u fuel scopes r id path qs) := by
  obtain ⟨hr, hincludes⟩ := List.forall_mem_cons.mp ht
  refine leads_database fun db db' hdb => ?_
  rw [hdb.row? hr]
  cases db'.row? r id with
  | none =>
      refine Leads.ite (fun _ => rests_passthrough scopes path qs .empty) fun _ => ?_
      exact RestsOn.of_agree (Agree.throw _)
  | some row =>
      refine RestsOn.of_agree (Agree.ite (fun _ => Agree.pure _) fun _ => ?_)
      refine Agree.bind (same_buildIncludes hcovers hincludes _) fun g =>
        Agree.bind (same_readPy _) fun data => Leads.get fun x y hxy => ?_
      rw [hxy.orgParent]
      exact Agree.pure _

theorem rests_nested (hcovers : Covers types) {r : Res} {name : String} {qs : Qs}
    (ht : ∀ t ∈ nestedTypes u r name qs, types t) (scopes : List String) (id path : String) :
    RestsOn types (nested env transport site u fuel scopes r id name path qs)
      (nested env transport site u fuel scopes r id name path qs) := by
  unfold nested
  unfold nestedTypes at ht
  cases hrel : r.info.relationships.lookup name with
  | none => exact rests_passthrough scopes path qs .empty
  | some rel =>
      rw [hrel] at ht
      obtain ⟨hr, ht⟩ := List.forall_mem_cons.mp ht
      refine leads_database fun db db' hdb => ?_
      rw [hdb.live? hr]
      cases db'.live? r id with
      | none => exact RestsOn.of_agree (Agree.throw _)
      | some held =>
          by_cases hone : rel.kind = .one
          · simp only [if_pos hone] at ht ⊢
            refine leads_database fun db db' hdb => ?_
            have hlive : db.live? rel.target = db'.live? rel.target :=
              funext (hdb.live? (ht _ (.head _)))
            rw [hlive]
            cases (rel.localId r held).bind (db'.live? rel.target) with
            | none => exact RestsOn.of_agree (Agree.throw _)
            | some target => exact rests_single hcovers ht scopes target.1 path
          · simp only [if_neg hone] at ht ⊢
            refine RestsOn.of_agree ?_
            exact Agree.bind (same_ensureWalked hcovers (ht _ (.head _)) r [held]) fun _ =>
              Agree.bind (same_present _ _) fun _ => Agree.bind (same_readPy _) fun keeps =>
                same_list hcovers ht path keeps _

theorem rests_nestedSingle (hcovers : Covers types) {r : Res} {name : String}
    {tail : Option String} {qs : Qs} (ht : ∀ t ∈ nestedSingleTypes u r name tail qs, types t)
    (scopes : List String) (id childId path : String) :
    RestsOn types (nestedSingle env transport site u fuel scopes r id name childId tail path qs)
      (nestedSingle env transport site u fuel scopes r id name childId tail path qs) := by
  unfold nestedSingle
  unfold nestedSingleTypes at ht
  cases hrel : r.info.relationships.lookup name with
  | none => exact rests_passthrough scopes path qs .empty
  | some rel =>
      rw [hrel] at ht
      obtain ⟨hr, ht⟩ := List.forall_mem_cons.mp ht
      obtain ⟨htarget, ht⟩ := List.forall_mem_cons.mp ht
      refine Leads.ite (fun _ => rests_passthrough scopes path qs .empty) fun _ =>
        leads_database fun db db' hdb => ?_
      rw [hdb.live? hr]
      cases db'.live? r id with
      | none => exact RestsOn.of_agree (Agree.throw _)
      | some held =>
          refine RestsOn.bind (same_ensureWalked hcovers htarget r [held]) fun _ =>
            RestsOn.bind (same_present _ _) fun _ => RestsOn.bind (same_readPy _) fun keeps =>
              leads_database fun db db' hdb => ?_
          rw [hdb.row? htarget]
          cases (db'.row? rel.target childId).filter fun row => keeps (childId, row) with
          | none => exact RestsOn.of_agree (Agree.throw _)
          | some _ =>
              cases tail with
              | some tail => exact rests_nested hcovers ht scopes childId path
              | none => exact rests_single hcovers ht scopes childId path

theorem rests_routeRead (hcovers : Covers types) {scopes : Except String (List String)}
    {path : String} {qs : Qs} (ht : ∀ t ∈ namedTypes u scopes path qs, types t) (body : Body) :
    RestsOn types (routeRead env transport site u fuel scopes path qs body)
      (routeRead env transport site u fuel scopes path qs body) := by
  unfold routeRead
  unfold namedTypes at ht
  cases scopes with
  | error detail => exact RestsOn.of_agree (Agree.throw _)
  | ok scopes =>
      simp only at ht ⊢
      cases hsegments : segments path with
      | none => exact rests_passthrough scopes path qs body
      | some segs =>
          rw [hsegments] at ht
          cases segs with
          | nil => exact RestsOn.of_agree (Agree.throw _)
          | cons first rest =>
              simp only at ht ⊢
              cases hfirst : bySegment first with
              | none => exact rests_passthrough scopes path qs body
              | some r =>
                  rw [hfirst] at ht
                  simp only at ht ⊢
                  refine Leads.ite (fun _ => RestsOn.of_agree (Agree.throw _)) fun hallowed => ?_
                  have hnamed : allowsRead scopes first = true := by
                    rw [allowsRead]
                    simpa only [Bool.not_eq_true', Bool.not_eq_false] using hallowed
                  rw [if_pos hnamed] at ht
                  cases rest with
                  | nil =>
                      cases r.info.parent with
                      | none => exact RestsOn.of_agree (same_list hcovers ht path _ _)
                      | some parent => exact RestsOn.of_agree (Agree.throw _)
                  | cons id rest =>
                      cases rest with
                      | nil =>
                          cases r.info.parent with
                          | none => exact rests_single hcovers ht scopes id path
                          | some parent => exact RestsOn.of_agree (Agree.throw _)
                      | cons name rest =>
                          cases rest with
                          | nil => exact rests_nested hcovers ht scopes id path
                          | cons child rest =>
                              cases rest with
                              | nil =>
                                  have hchild : ∀ t ∈ nestedSingleTypes u r name none qs, types t := ht
                                  exact rests_nestedSingle hcovers hchild scopes id child path
                              | cons tail rest =>
                                  cases rest with
                                  | nil =>
                                      have htail : ∀ t ∈ nestedSingleTypes u r name (some tail) qs,
                                        types t := ht
                                      exact rests_nestedSingle hcovers htail scopes id child path
                                  | cons _ _ => exact RestsOn.of_agree (Agree.throw _)

/-- Whatever is raised becomes an answer. -/
theorem rests_serveRead (hcovers : Covers types) {scopes : Except String (List String)}
    {path : String} {qs : Qs} (ht : ∀ t ∈ namedTypes u scopes path qs, types t) (body : Body) :
    RestsOn types (serveRead env transport site u fuel scopes path qs body)
      (serveRead env transport site u fuel scopes path qs body) := by
  refine Leads.tryCatch (rests_routeRead hcovers ht body) (fun fault => ?_) fun _ _ h => h
  cases fault with
  | http status detail info => exact Agree.pure _
  | raised e => exact Agree.pure _
  | sqlite e =>
      cases e
      exact Agree.pure _
  | stopped => exact Agree.throw _

end

/-- The answer to a read is the same on two mirrors that differ only in rows of types that the
request does not reach. -/
theorem answer_within_reach (env : Env) (transport : Transport) (site : Site) (u : Unicode)
    (fuel : ℕ) (scopes : Except String (List String)) (path : String) (qs : Qs) (body : Body)
    {x y : Reading} (h : x.AgreeOn (· ∈ reach u scopes path qs) y) :
    Matches (Reading.AgreeOn fun _ => False)
      ((serveRead env transport site u fuel scopes path qs body).run x)
      ((serveRead env transport site u fuel scopes path qs body).run y) :=
  rests_serveRead (covers_reach u scopes path qs) (fun _ ht => mem_reach ht) body x y h

/-- A family, with its people or without them. -/
def readingOf (people : Bool) : Reading :=
  { world := { db := ⟨fun t =>
      if t = .person ∧ people = false then ∅ else (familyOf "1").tables t⟩ } }

theorem agreeOn_readingOf {types : Res → Prop} (h : ¬ types .person) :
    (readingOf true).AgreeOn types (readingOf false) := by
  refine ⟨⟨_, rfl, fun t ht => ?_⟩, rfl⟩
  have hother : t ≠ .person := fun hperson => h (hperson ▸ ht)
  simp [readingOf, hother]

theorem answer_within_reach_household :
    Matches (Reading.AgreeOn fun _ => False)
      ((serveRead quietEnv (fun _ => .error .transportError) plainSite plainUnicode 1
        (.ok ["read:households"]) "/people/v2/households/7" [] .empty).run (readingOf true))
      ((serveRead quietEnv (fun _ => .error .transportError) plainSite plainUnicode 1
        (.ok ["read:households"]) "/people/v2/households/7" [] .empty).run (readingOf false)) :=
  answer_within_reach quietEnv (fun _ => .error .transportError) plainSite plainUnicode 1
    (.ok ["read:households"]) "/people/v2/households/7" [] .empty
    (agreeOn_readingOf (by decide +kernel))

def Reply.hasIncluded (reply : Reply) : Bool :=
  match reply.payload with
  | .document j => (j.member? "included").isSome
  | .body _ => false

/-- A key for households is shown the people of one. -/
theorem include_beyond_scope :
    ¬ ∀ (env : Env) (transport : Transport) (site : Site) (u : Unicode) (fuel : ℕ)
      (scopes : List String) (path : String) (qs : Qs) (body : Body) (x y : Reading),
      x.AgreeOn (fun t => allowsRead scopes t.info.segment = true) y →
        Matches (Reading.AgreeOn fun _ => False)
          ((serveRead env transport site u fuel (.ok scopes) path qs body).run x)
          ((serveRead env transport site u fuel (.ok scopes) path qs body).run y) := by
  intro h
  have hmatch := h quietEnv (fun _ => .error .transportError) plainSite plainUnicode 1
    ["read:households"] "/people/v2/households/7" [("include", ["people"])] .empty
    (readingOf true) (readingOf false) (agreeOn_readingOf (by decide +kernel))
  have hsame := hmatch.endsWith Reply.hasIncluded
  revert hsame
  decide +kernel

end PcoMirror
