import PcoMirror.Lib.Paging
import PcoMirror.Lib.Target
import PcoMirror.Verification.Serving.Order
import PcoMirror.Verification.Serving.Still

/-! What a collection answers with: one page of the rows a query is about, in their order, and the
links to the pages beside it. -/

namespace PcoMirror

open Program

/-- A page of a collection, as these tables answer it. -/
structure PageOf (site : Site) (u : Unicode) (db : Db) (r : Res) (qs : Qs) (keeps : Held → Bool)
    (keys : List OrderKey) (matching : List Held) (page : Page) : Prop where
  where_ : ∃ clauses, buildWhere u r qs = .ok clauses ∧ ((db.liveRows r).filter keeps).filterM
    (fun held => allHold site u db r held clauses) = .ok matching
  order : buildOrder r qs = .ok keys
  perPage : ∃ n, intParam u qs "per_page" 25 = .ok n ∧ page.perPage = (max 0 (min 100 n)).toNat
  offset : ∃ n, intParam u qs "offset" 0 = .ok n ∧ page.offset = (max 0 n).toNat
  fits : fitsInt64 page.offset = true
  total : page.total = matching.length
  rows : page.rows = Paging.page page.perPage page.offset (sortRows u r keys matching)

/-- A member of the document an answer carries. -/
def Reply.member? (reply : Reply) (key : String) : Option Json :=
  match reply.payload with
  | .document doc => doc.member? key
  | .body _ => none

/-- An answer with one page of a collection. -/
def ListsPage (site : Site) (u : Unicode) (db : Db) (r : Res) (path : String) (qs : Qs)
    (keeps : Held → Bool) (reply : Reply) : Prop :=
  ∃ (keys : List OrderKey) (matching : List Held) (page : Page)
    (echo : String → List (String × Json)) (data : List Json),
    PageOf site u db r qs keeps keys matching page ∧
    page.rows.mapM (fun held => site.serialize r held (echo held.1) (sparseFields qs)) = .ok data ∧
    reply.member? "data" = some (.arr data) ∧
    reply.member? "links" = some (.obj (pageLinks path qs page))

variable {env : Env} {transport : Transport} {site : Site} {u : Unicode} {fuel : ℕ}
  {P : World → Prop} {known : Res → String → Bool} {r : Res} {path : String} {qs : Qs}
  {keeps : Held → Bool}

theorem spec_listPage_of (r : Res) (qs : Qs) (keeps : Held → Bool) :
    Spec (Reading.Still P known) (listPage site u r qs keeps)
      (fun page => Reading.Still (fun w => P w ∧
        ∃ keys matching, PageOf site u w.db r qs keeps keys matching page) known)
      fun _ _ => True := by
  refine Spec.bind (still_ofFault _) fun clauses => Spec.bind (still_ofFault _) fun keys =>
    Spec.bind (still_ofFault _) fun perPage => Spec.bind (still_ofFault _) fun offset =>
    Spec.bind still_database fun db =>
    Spec.bind ((still_present _).mono_halt fun _ _ _ => trivial) fun _ => ?_
  have hoverflow : ∀ {α : Type} {P : Reading → Prop} {Q : α → Reading → Prop} (f : PUnit → Read α),
      Spec P (throw overflow >>= f) Q fun _ _ => True := fun f =>
    Spec.bind (R := fun _ _ => False) (Spec.throw fun _ _ => trivial) fun _ => nofun
  dsimp only
  refine Spec.ite (fun _ => hoverflow _) fun _ => Spec.bind (still_readSql _) fun matching => ?_
  cases hfits : fitsInt64 ((max 0 offset).toNat : ℤ)
  · exact hoverflow _
  refine Spec.pure fun x hx => hx.imp ?_
  rintro ⟨⟨⟨⟨⟨⟨hP, hclauses⟩, hkeys⟩, hperPage⟩, hoffset⟩, rfl⟩, hmatching⟩
  exact ⟨hP, keys, matching, ⟨clauses, hclauses, hmatching⟩, hkeys, ⟨perPage, hperPage, rfl⟩,
    ⟨offset, hoffset, rfl⟩, hfits, rfl, rfl⟩

theorem spec_list_of (r : Res) (path : String) (qs : Qs) (keeps : Held → Bool)
    (parent : Option Json) :
    Spec (Reading.Still P known) (list env site u fuel r path qs keeps parent)
      (fun reply => Reading.Still (fun w => P w ∧ ListsPage site u w.db r path qs keeps reply) known)
      fun _ _ => True := by
  refine Spec.bind (spec_listPage_of r qs keeps) fun page =>
    Spec.bind (still_buildIncludes r page.rows qs) fun g =>
    Spec.bind (still_readPy _) fun data => Spec.bind spec_reading fun _ =>
    Spec.pure fun x hx => hx.imp ?_
  rintro ⟨⟨hP, keys, matching, hpage⟩, hdata⟩
  exact ⟨hP, keys, matching, page, g.echo, data, hpage, hdata, rfl, rfl⟩

/-! ## The collection a path names -/

/-- The rows of a collection under a record: those on the record's side of a relationship. -/
def Db.nestedAt (db : Db) (r : Res) (id name : String) : Option (Res × (Held → Bool)) := do
  let rel ← r.info.relationships.lookup name
  let held ← db.live? r id
  let keeps ← (rel.restriction r held).toOption
  if rel.kind = .one then none else return (rel.target, keeps)

/-- The collection that a path names in these tables. -/
def Db.collectionAt (db : Db) (path : String) : Option (Res × (Held → Bool)) := do
  let segs ← segments path
  let r ← bySegment (segs.headD "")
  match segs.tail with
  | [] => if r.info.parent = none then return (r, fun _ => true) else none
  | [id, name] => db.nestedAt r id name
  | [id, name, child, tail] => do
    let rel ← r.info.relationships.lookup name
    let held ← db.live? r id
    let keeps ← (rel.restriction r held).toOption
    let row ← db.row? rel.target child
    if rel.kind = .many ∧ keeps (child, row) then db.nestedAt rel.target child tail else none
  | _ => none

theorem spec_nested_of {rel : Rel} (scopes : List String) (r : Res) (id name path : String) (qs : Qs)
    (hrel : r.info.relationships.lookup name = some rel) (hkind : rel.kind ≠ .one) :
    Spec (Reading.Still P known) (nested env transport site u fuel scopes r id name path qs)
      (fun reply => Reading.Still (fun w => P w ∧ ∀ target keeps,
        w.db.nestedAt r id name = some (target, keeps) →
          ListsPage site u w.db target path qs keeps reply) known) fun _ _ => True := by
  unfold nested
  simp only [hrel]
  refine Spec.bind still_database fun db => ?_
  cases hlive : db.live? r id with
  | none => exact Spec.throw fun _ _ => trivial
  | some held =>
      simp only [if_neg hkind]
      refine Spec.bind (still_ensureWalked r rel [held]) fun _ =>
        Spec.bind ((still_present _).mono_halt fun _ _ _ => trivial) fun _ =>
        Spec.bind (still_readPy _) fun keeps => ?_
      refine (spec_list_of rel.target path qs keeps _).conseq (fun _ h => h) ?_ fun _ _ h => h
      intro reply x hx
      refine hx.imp ?_
      rintro ⟨⟨⟨hP, hdb⟩, hkeeps⟩, hlists⟩
      refine ⟨hP, fun target keeps' hnested => ?_⟩
      obtain ⟨rfl, rfl⟩ : rel.target = target ∧ keeps = keeps' := by
        simpa [Db.nestedAt, hdb, hrel, hlive, hkeeps, hkind, Except.toOption] using hnested
      exact hlists

theorem kind_of_nestedAt {db : Db} {id name : String} {target : Res}
    (h : db.nestedAt r id name = some (target, keeps)) :
    ∃ rel, r.info.relationships.lookup name = some rel ∧ rel.kind ≠ .one := by
  cases hrel : r.info.relationships.lookup name with
  | none => simp [Db.nestedAt, hrel] at h
  | some rel =>
      refine ⟨rel, rfl, fun hkind => ?_⟩
      simp [Db.nestedAt, hrel, hkind] at h

theorem spec_nestedSingle_of {rel : Rel} {db : Db} {target : Res} (scopes : List String) (r : Res)
    (id name child tail path : String) (qs : Qs)
    (hrel : r.info.relationships.lookup name = some rel) (hkind : rel.kind = .many)
    (htail : db.nestedAt rel.target child tail = some (target, keeps)) :
    Spec (Reading.Still (fun w => w.db = db) known)
      (nestedSingle env transport site u fuel scopes r id name child (some tail) path qs)
      (fun reply => Reading.Still (fun w => w.db = db ∧
        ListsPage site u db target path qs keeps reply) known) fun _ _ => True := by
  obtain ⟨rel2, hrel2, hkind2⟩ := kind_of_nestedAt htail
  unfold nestedSingle
  simp only [hrel]
  refine Spec.ite (fun hnot => absurd hkind hnot) fun _ => Spec.bind still_database fun db' => ?_
  cases db'.live? r id with
  | none => exact Spec.throw fun _ _ => trivial
  | some held =>
      refine Spec.bind (still_ensureWalked r rel [held]) fun _ =>
        Spec.bind ((still_present _).mono_halt fun _ _ _ => trivial) fun _ =>
        Spec.bind (still_readPy _) fun keeps' => Spec.bind still_database fun db₂ => ?_
      cases (db₂.row? rel.target child).filter fun row => keeps' (child, row) with
      | none => exact Spec.throw fun _ _ => trivial
      | some row =>
          refine (spec_nested_of scopes rel.target child tail path qs hrel2 hkind2).conseq
            (fun _ h => h) ?_ fun _ _ h => h
          intro reply x hx
          refine hx.imp ?_
          rintro ⟨⟨⟨⟨hdb, -⟩, -⟩, -⟩, hlists⟩
          exact ⟨hdb, hdb ▸ hlists target keeps (hdb.symm ▸ htail)⟩

/-- A read of a collection that leaves the mirror as it finds it answers with one page of it. -/
theorem spec_routeRead_of {db : Db} (scopes : Except String (List String)) (path : String) (qs : Qs)
    (body : Body) (hat : db.collectionAt path = some (r, keeps)) :
    Spec (Reading.Still (fun w => w.db = db) known)
      (routeRead env transport site u fuel scopes path qs body)
      (fun reply => Reading.Still (fun w => w.db = db ∧
        ListsPage site u db r path qs keeps reply) known) fun _ _ => True := by
  have hthrow : ∀ fault : Fault, Spec (Reading.Still (fun w => w.db = db) known)
      (throw fault : Read Reply) (fun reply => Reading.Still (fun w => w.db = db ∧
        ListsPage site u db r path qs keeps reply) known) fun _ _ => True :=
    fun _ => Spec.throw fun _ _ => trivial
  unfold routeRead
  cases scopes with
  | error detail => exact hthrow _
  | ok scopes =>
      obtain ⟨segs, hsegs, hat⟩ := Option.bind_eq_some_iff.mp hat
      obtain ⟨first, hfirst, hat⟩ := Option.bind_eq_some_iff.mp hat
      simp only [hsegs]
      match segs with
      | [] => exact hthrow _
      | seg :: rest =>
          rw [List.headD_cons] at hfirst
          rw [List.tail_cons] at hat
          simp only [hfirst]
          refine Spec.ite (fun _ => hthrow _) fun _ => ?_
          match rest, hat with
          | [], hat =>
              cases hparent : first.info.parent with
              | some parent => exact hthrow _
              | none =>
                  obtain ⟨rfl, rfl⟩ : first = r ∧ (fun _ => true) = keeps := by
                    simpa [hparent] using hat
                  refine (spec_list_of first path qs _ none).conseq (fun _ h => h) ?_ fun _ _ h => h
                  rintro reply x hx
                  exact hx.imp fun ⟨hdb, hlists⟩ => ⟨hdb, hdb ▸ hlists⟩
          | [id, name], hat =>
              obtain ⟨rel, hrel, hkind⟩ := kind_of_nestedAt hat
              refine (spec_nested_of scopes first id name path qs hrel hkind).conseq (fun _ h => h)
                ?_ fun _ _ h => h
              rintro reply x hx
              exact hx.imp fun ⟨hdb, hlists⟩ => ⟨hdb, hdb ▸ hlists r keeps (hdb.symm ▸ hat)⟩
          | [id, name, child, tail], hat =>
              obtain ⟨rel, hrel, hat⟩ := Option.bind_eq_some_iff.mp hat
              obtain ⟨held, -, hat⟩ := Option.bind_eq_some_iff.mp hat
              obtain ⟨keeps', -, hat⟩ := Option.bind_eq_some_iff.mp hat
              obtain ⟨row, -, hat⟩ := Option.bind_eq_some_iff.mp hat
              split_ifs at hat with hchild
              exact spec_nestedSingle_of scopes first id name child tail path qs hrel hchild.1 hat

theorem lists_of_served {db : Db} {scopes : Except String (List String)} {body : Body}
    {x x' : Reading} {reply : Reply} (hat : db.collectionAt path = some (r, keeps))
    (hdb : x.world.db = db) (hknown : x.world.parentWalked = known)
    (hserved : (serveRead env transport site u fuel scopes path qs body).run x = .ok reply x')
    (hmirrored : reply.headers = mirrored) (hstill : x'.world.parentWalked = known) :
    ListsPage site u db r path qs keeps reply := by
  have hspec : Spec (Reading.Still (fun w => w.db = db) known)
      (serveRead env transport site u fuel scopes path qs body)
      (fun reply x => reply.headers = mirrored → x.Still (fun w => w.db = db ∧
        ListsPage site u db r path qs keeps reply) known) fun _ _ => True := by
    refine Spec.tryCatch ((spec_routeRead_of scopes path qs body hat).conseq (fun _ h => h)
      (fun _ _ h _ => h) fun _ _ h => h) fun fault => ?_
    have hfailed : ∀ reply : Reply, reply.headers ≠ mirrored →
        Spec (fun _ => True) (pure reply : Read Reply) (fun reply x => reply.headers = mirrored →
          x.Still (fun w => w.db = db ∧ ListsPage site u db r path qs keeps reply) known)
          fun _ _ => True :=
      fun reply h => Spec.pure fun _ _ hmirrored => absurd hmirrored h
    cases fault with
    | http status detail info =>
        refine hfailed _ ?_
        dsimp only
        split_ifs <;> simp [mirrored]
    | raised e => exact hfailed _ nofun
    | sqlite e =>
        cases e
        exact hfailed _ nofun
    | stopped => exact Spec.throw fun _ _ => trivial
  rcases hspec.ok (.inl ⟨hdb, hknown⟩) hserved hmirrored with
    ⟨⟨-, hlists⟩, -⟩ | ⟨c, parentId, hwalked, hunknown⟩
  · exact hlists
  · rw [hstill] at hwalked
    rw [hwalked] at hunknown
    cases hunknown

end PcoMirror
