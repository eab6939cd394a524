import PcoMirror.Model.Serving.Edges
import PcoMirror.Lib.Program

/-! One edge and its four readings: a filter's `EXISTS`, an include, a nested collection and the
list of ids. -/

namespace PcoMirror

open Program

variable {db : Db} {r : Res} {rel : Rel} {held x : Held}

/-! ## Rows -/

theorem Db.mem_liveRows {t : Res} : x ∈ db.liveRows t ↔ db.row? t x.1 = some x.2 ∧ x.2.live = true := by
  obtain ⟨id, row⟩ := x
  simp only [Db.liveRows, Db.rows, List.mem_filter, List.mem_map, Prod.mk.injEq, Db.row?]
  rw [← Option.mem_def, AList.mem_lookup_iff]
  constructor
  · rintro ⟨⟨⟨id', row'⟩, he, rfl, rfl⟩, hlive⟩
    exact ⟨he, hlive⟩
  · rintro ⟨he, hlive⟩
    exact ⟨⟨⟨id, row⟩, he, rfl, rfl⟩, hlive⟩

theorem Db.live?_eq_some {t : Res} {id : String} :
    db.live? t id = some x ↔ x.1 = id ∧ x ∈ db.liveRows t := by
  rw [Db.mem_liveRows, Db.live?]
  obtain ⟨key, row⟩ := x
  cases hrow : db.row? t id with
  | none =>
      simp only [reduceCtorEq, false_iff, not_and]
      rintro rfl h
      rw [hrow] at h
      cases h
  | some found =>
      by_cases hlive : found.live = true
      · simp only [hlive, if_true, Option.some_inj, Prod.mk.injEq]
        constructor
        · rintro ⟨rfl, rfl⟩
          exact ⟨rfl, hrow, hlive⟩
        · rintro ⟨rfl, h, -⟩
          rw [hrow] at h
          exact ⟨rfl, Option.some.inj h⟩
      · simp only [hlive, Bool.false_eq_true, if_false, reduceCtorEq, false_iff, not_and]
        rintro rfl h hx
        rw [hrow] at h
        cases h
        exact hlive hx

theorem Db.mem_pointingAt {t : Res} {fk : Option String} {id : String} :
    x ∈ db.pointingAt t fk id ↔
      x ∈ db.liveRows t ∧ (fk.bind fun fk => t.column fk x.2.raw) = some id := by
  rw [Db.pointingAt, List.mem_filter, beq_iff_eq]

/-! ## The edge -/

/-- The object names a resource by its id. -/
def IsIdentifier (j : Json) : Prop :=
  ∃ id, j.member? "id" = some (.str id)

/-- The relationship arrays of a table's rows hold resource identifiers. -/
def Db.HoldsIdentifiers (db : Db) : Prop :=
  ∀ (r : Res) (name : String) (rel : Rel), (name, rel) ∈ r.info.relationships → rel.kind = .json →
    ∀ id row, db.row? r id = some row → ∀ data, row.raw.at? rel.jsonPath = some data →
      data = .null ∨ ∃ items, data = .arr items ∧ ∀ item ∈ items, IsIdentifier item

/-- No row's key is the empty text. -/
def Db.Named (db : Db) : Prop :=
  ∀ t, db.row? t "" = none

/-- A row leads to a live row of the relationship's target. -/
def Db.Edge (db : Db) (r : Res) (rel : Rel) (held x : Held) : Prop :=
  x ∈ db.liveRows rel.target ∧ match rel.kind with
    | .one => (rel.localFk.bind fun fk => r.column fk held.2.raw) = some x.1
    | .json => ∃ item ∈ eachValues held.2.raw rel.jsonPath, item.member? "id" = some (.str x.1)
    | .many => (rel.childFk.bind fun fk => rel.target.column fk x.2.raw) = some held.1

theorem Db.Edge.live {db : Db} (h : db.Edge r rel held x) : x ∈ db.liveRows rel.target :=
  h.1

theorem Db.Named.ne_empty (hnamed : db.Named) {t : Res} (h : x ∈ db.liveRows t) : x.1 ≠ "" := by
  intro hempty
  have hrow := (Db.mem_liveRows.mp h).1
  rw [hempty, hnamed t] at hrow
  cases hrow

theorem jsonNode_eq (j : Json) (path : List String) :
    jsonNode j path = (j.at? path).filter (· ≠ .null) := by
  induction path generalizing j with
  | nil => by_cases h : j = .null <;> simp [jsonNode, Json.at?, Option.filter, h]
  | cons key path ih =>
      cases j with
      | obj members =>
          simp only [jsonNode, Json.at?, Json.member?]
          cases members.lookup key with
          | none => rfl
          | some next => exact ih next
      | _ => rfl

/-- The arrays are read alike in the document and by SQLite's `json_each`. -/
theorem jsonIds_eq (holds : db.HoldsIdentifiers) {name : String}
    (hrel : (name, rel) ∈ r.info.relationships) (hkind : rel.kind = .json)
    (hrow : db.row? r held.1 = some held.2) :
    jsonIds held.2.raw rel.jsonPath =
      .ok ((eachValues held.2.raw rel.jsonPath).filterMap peerId) := by
  have hdata := holds r name rel hrel hkind held.1 held.2 hrow
  rw [jsonIds, jsonNode_eq, eachValues]
  cases hat : held.2.raw.at? rel.jsonPath with
  | none => rfl
  | some data =>
      rcases hdata data hat with rfl | ⟨items, rfl, -⟩
      · rfl
      · rfl

theorem identifiers (holds : db.HoldsIdentifiers) {name : String}
    (hrel : (name, rel) ∈ r.info.relationships) (hkind : rel.kind = .json)
    (hrow : db.row? r held.1 = some held.2) :
    ∀ item ∈ eachValues held.2.raw rel.jsonPath, item = .null ∨ IsIdentifier item := by
  have hdata := holds r name rel hrel hkind held.1 held.2 hrow
  rw [eachValues]
  cases hat : held.2.raw.at? rel.jsonPath with
  | none => nofun
  | some data =>
      rcases hdata data hat with rfl | ⟨items, rfl, hitems⟩
      · exact fun item hitem => .inl (List.mem_singleton.mp hitem)
      · exact fun item hitem => .inr (hitems item hitem)

theorem peerId_identifier {item : Json} {id : String} (h : item.member? "id" = some (.str id)) :
    peerId item = if id = "" then none else some id := by
  by_cases hid : id = "" <;> simp [peerId, h, Json.truthy, hid, Json.pyStr]

theorem mem_jsonIds (holds : db.HoldsIdentifiers) {name : String}
    (hrel : (name, rel) ∈ r.info.relationships) (hkind : rel.kind = .json)
    (hrow : db.row? r held.1 = some held.2) {id : String} (hid : id ≠ "") :
    id ∈ (eachValues held.2.raw rel.jsonPath).filterMap peerId ↔
      ∃ item ∈ eachValues held.2.raw rel.jsonPath, item.member? "id" = some (.str id) := by
  rw [List.mem_filterMap]
  refine exists_congr fun item => and_congr_right fun hitem => ?_
  rcases identifiers holds hrel hkind hrow item hitem with rfl | ⟨id', hid'⟩
  · simp [peerId, Json.member?]
  · rw [peerId_identifier hid', hid']
    by_cases hempty : id' = ""
    · simp [hempty, hid.symm]
    · simp [hempty]

/-! ## Four readings -/

/-- An include finds, for several rows, what the edge of one of them leads to. -/
theorem relatedRows_spec (hnamed : db.Named) (holds : db.HoldsIdentifiers) {name : String}
    (hrel : (name, rel) ∈ r.info.relationships) {rows : List Held}
    (hrows : ∀ held ∈ rows, db.row? r held.1 = some held.2) :
    ∃ found, db.relatedRows r rel rows = .ok found ∧
      ∀ x, x ∈ found ↔ ∃ held ∈ rows, db.Edge r rel held x := by
  unfold Db.relatedRows Db.Edge
  cases hkind : rel.kind with
  | json =>
      have hids : rows.mapM (fun held => jsonIds held.2.raw rel.jsonPath) =
          .ok (rows.map fun held => (eachValues held.2.raw rel.jsonPath).filterMap peerId) := by
        simpa using mapM_map_ok (f := id)
          fun held hheld => jsonIds_eq holds hrel hkind (hrows held hheld)
      refine ⟨_, by rw [hids]; rfl, fun x => ?_⟩
      rw [List.mem_filterMap]
      simp only [List.mem_eraseDups, List.mem_flatten, List.mem_map, exists_exists_and_eq_and]
      constructor
      · rintro ⟨id, ⟨held, hheld, hmem⟩, hlive⟩
        obtain ⟨rfl, hx⟩ := Db.live?_eq_some.mp hlive
        exact ⟨held, hheld, hx,
          (mem_jsonIds holds hrel hkind (hrows held hheld) (hnamed.ne_empty hx)).mp hmem⟩
      · rintro ⟨held, hheld, hx, hitem⟩
        exact ⟨x.1, ⟨held, hheld,
          (mem_jsonIds holds hrel hkind (hrows held hheld) (hnamed.ne_empty hx)).mpr hitem⟩,
          Db.live?_eq_some.mpr ⟨rfl, hx⟩⟩
  | many =>
      refine ⟨_, rfl, fun x => ?_⟩
      simp only [List.mem_filter, Option.any_eq_true, List.contains_iff_mem, List.mem_map]
      constructor
      · rintro ⟨hx, id, hfk, held, hheld, rfl⟩
        exact ⟨held, hheld, hx, hfk⟩
      · rintro ⟨held, hheld, hx, hfk⟩
        exact ⟨hx, held.1, hfk, held, hheld, rfl⟩
  | one =>
      refine ⟨_, rfl, fun x => ?_⟩
      simp only [List.mem_filter, List.contains_iff_mem, List.mem_filterMap, Rel.localId,
        Option.filter_eq_some_iff]
      constructor
      · rintro ⟨hx, held, hheld, hfk, -⟩
        exact ⟨held, hheld, hx, hfk⟩
      · rintro ⟨held, hheld, hx, hfk⟩
        exact ⟨hx, held, hheld, hfk, by simpa using hnamed.ne_empty hx⟩

/-- A nested collection is restricted to what the edge leads to. -/
theorem restriction_spec (hnamed : db.Named) (holds : db.HoldsIdentifiers) {name : String}
    (hrel : (name, rel) ∈ r.info.relationships) (hrow : db.row? r held.1 = some held.2) :
    ∃ keeps, rel.restriction r held = .ok keeps ∧
      ∀ x, x ∈ (db.liveRows rel.target).filter keeps ↔ db.Edge r rel held x := by
  unfold Rel.restriction Db.Edge
  cases hkind : rel.kind with
  | json =>
      refine ⟨_, by rw [jsonIds_eq holds hrel hkind hrow]; rfl, fun x => ?_⟩
      rw [List.mem_filter]
      refine and_congr_right fun hx => ?_
      rw [List.contains_iff_mem]
      exact mem_jsonIds holds hrel hkind hrow (hnamed.ne_empty hx)
  | one =>
      refine ⟨_, rfl, fun x => ?_⟩
      rw [List.mem_filter]
      refine and_congr_right fun hx => ?_
      simp [Rel.localId, Option.filter_eq_some_iff, hnamed.ne_empty hx]
  | many =>
      refine ⟨_, rfl, fun x => ?_⟩
      rw [List.mem_filter, beq_iff_eq]

/-- The ids listed for a row are, where they are live, those the edge leads to. -/
theorem relTargetIds_spec (hnamed : db.Named) (holds : db.HoldsIdentifiers) {name : String}
    (hrel : (name, rel) ∈ r.info.relationships) (hrow : db.row? r held.1 = some held.2) :
    ∃ ids, db.relTargetIds r rel held = .ok ids ∧
      ∀ x, x ∈ (db.liveRows rel.target).filter (ids.contains ·.1) ↔ db.Edge r rel held x := by
  unfold Db.relTargetIds Db.Edge
  cases hkind : rel.kind with
  | json =>
      refine ⟨_, jsonIds_eq holds hrel hkind hrow, fun x => ?_⟩
      rw [List.mem_filter, List.contains_iff_mem]
      exact and_congr_right fun hx => mem_jsonIds holds hrel hkind hrow (hnamed.ne_empty hx)
  | one =>
      refine ⟨_, rfl, fun x => ?_⟩
      rw [List.mem_filter]
      refine and_congr_right fun hx => ?_
      simp [Rel.localId, Option.filter_eq_some_iff, hnamed.ne_empty hx]
  | many =>
      refine ⟨_, rfl, fun x => ?_⟩
      rw [List.mem_filter, List.contains_iff_mem, List.mem_map]
      refine and_congr_right fun hx => ?_
      constructor
      · rintro ⟨y, hy, hkey⟩
        obtain ⟨hy, hfk⟩ := Db.mem_pointingAt.mp hy
        have hsame := (Db.mem_liveRows.mp hy).1
        rw [hkey, (Db.mem_liveRows.mp hx).1] at hsame
        rwa [← Option.some.inj hsame] at hfk
      · exact fun hfk => ⟨x, Db.mem_pointingAt.mpr ⟨hx, hfk⟩, rfl⟩

/-- The hop of a filter comes upon exactly the rows the edge leads to, and upon no error. -/
theorem hop_spec (site : Site) (holds : db.HoldsIdentifiers) {name : String}
    (hrel : (name, rel) ∈ r.info.relationships) (hrow : db.row? r held.1 = some held.2) :
    ∃ found : List (Option Held), site.hop db r rel held = found.map .ok ∧
      ∀ x, some x ∈ found ↔ db.Edge r rel held x := by
  unfold Site.hop Db.Edge
  cases hkind : rel.kind with
  | one =>
      refine ⟨[_], rfl, fun x => ?_⟩
      rw [List.mem_singleton, eq_comm, Option.bind_eq_some_iff]
      constructor
      · rintro ⟨id, hfk, hlive⟩
        obtain ⟨rfl, hx⟩ := Db.live?_eq_some.mp hlive
        exact ⟨hx, hfk⟩
      · exact fun ⟨hx, hfk⟩ => ⟨x.1, hfk, Db.live?_eq_some.mpr ⟨rfl, hx⟩⟩
  | many =>
      refine ⟨_, (List.map_map ..).symm, fun x => ?_⟩
      simp only [List.mem_map, Option.some_inj, exists_eq_right]
      exact Db.mem_pointingAt
  | json =>
      have hread : ∀ item ∈ eachValues held.2.raw rel.jsonPath,
          site.entryRow db rel.target item =
            .ok (((item.member? "id").bind Json.text?).bind (db.live? rel.target)) := by
        intro item hitem
        rcases identifiers holds hrel hkind hrow item hitem with rfl | ⟨id, hid⟩
        · rfl
        · cases item with
          | obj members => rfl
          | _ => cases hid
      refine ⟨_, (List.map_congr_left hread).trans (List.map_map ..).symm, fun x => ?_⟩
      simp only [List.mem_map]
      constructor
      · rintro ⟨item, hitem, hfound⟩
        rcases identifiers holds hrel hkind hrow item hitem with rfl | ⟨id, hid⟩
        · cases hfound
        · rw [hid] at hfound
          obtain ⟨rfl, hx⟩ := Db.live?_eq_some.mp hfound
          exact ⟨hx, item, hitem, hid⟩
      · rintro ⟨hx, item, hitem, hid⟩
        refine ⟨item, hitem, ?_⟩
        rw [hid]
        exact Db.live?_eq_some.mpr ⟨rfl, hx⟩

/-! ## Chains -/

/-- Each relationship is one of the resource that the last one leads to. -/
def Linked : Res → List Rel → Prop
  | _, [] => True
  | r, rel :: rels => (∃ name, (name, rel) ∈ r.info.relationships) ∧ Linked rel.target rels

def endOf : Res → List Rel → Res
  | r, [] => r
  | _, rel :: rels => endOf rel.target rels

/-- A row leads to another, edge by edge. -/
def Db.Leads (db : Db) : Res → List Rel → Held → Held → Prop
  | _, [], held, x => x = held
  | r, rel :: rels, held, x => ∃ y, db.Edge r rel held y ∧ db.Leads rel.target rels y x

/-- An include of one relationship after another. -/
def Db.hops (db : Db) : Res → List Rel → List Held → Except PyError (List Held)
  | _, [], rows => .ok rows
  | r, rel :: rels, rows => do db.hops rel.target rels (← db.relatedRows r rel rows)

theorem mem_of_lookup {items : List (String × Rel)} {name : String}
    (h : items.lookup name = some rel) : (name, rel) ∈ items := by
  induction items with
  | nil => cases h
  | cons item items ih =>
      obtain ⟨key, value⟩ := item
      rw [List.lookup_cons] at h
      cases hkey : name == key with
      | true =>
          rw [hkey] at h
          rw [eq_of_beq hkey, ← Option.some.inj h]
          exact .head _
      | false =>
          rw [hkey] at h
          exact .tail _ (ih h)

theorem relChain_spec (parts : List String) :
    ∀ (r : Res), Linked r ((relChain r parts).1.map (·.2)) ∧
      (relChain r parts).2.1 = endOf r ((relChain r parts).1.map (·.2)) := by
  induction parts with
  | nil => exact fun _ => ⟨trivial, rfl⟩
  | cons name rest ih =>
      intro r
      rw [relChain]
      cases hname : r.info.relationships.lookup name with
      | none => exact ⟨trivial, rfl⟩
      | some rel =>
          obtain ⟨hlinked, hend⟩ := ih rel.target
          exact ⟨⟨⟨name, mem_of_lookup hname⟩, hlinked⟩, hend⟩

theorem hops_spec (hnamed : db.Named) (holds : db.HoldsIdentifiers) (rels : List Rel) :
    ∀ (r : Res) (rows : List Held), Linked r rels →
      (∀ held ∈ rows, db.row? r held.1 = some held.2) →
      ∃ reached, db.hops r rels rows = .ok reached ∧
        ∀ x, x ∈ reached ↔ ∃ held ∈ rows, db.Leads r rels held x := by
  induction rels with
  | nil => exact fun r rows _ _ => ⟨rows, rfl, fun x => by simp [Db.Leads]⟩
  | cons rel rels ih =>
      rintro r rows ⟨⟨name, hrel⟩, hlinked⟩ hrows
      obtain ⟨found, hfound, hmem⟩ := relatedRows_spec hnamed holds hrel hrows
      obtain ⟨reached, hreached, hleads⟩ := ih rel.target found hlinked fun y hy => by
        obtain ⟨_, -, hedge⟩ := (hmem y).mp hy
        exact (Db.mem_liveRows.mp hedge.live).1
      refine ⟨reached, ?_, fun x => ?_⟩
      · rw [Db.hops, hfound]
        exact hreached
      · rw [hleads]
        constructor
        · rintro ⟨y, hy, hx⟩
          obtain ⟨held, hheld, hedge⟩ := (hmem y).mp hy
          exact ⟨held, hheld, y, hedge, hx⟩
        · rintro ⟨held, hheld, y, hedge, hx⟩
          exact ⟨y, (hmem y).mpr ⟨held, hheld, hedge⟩, hx⟩

theorem existsHeld_eq {p : Held → Except SqlError Bool} {holds : Held → Bool}
    {found : List (Option Held)} (hp : ∀ x, some x ∈ found → p x = .ok (holds x)) :
    existsHeld p (found.map .ok) = .ok (found.any (·.any holds)) := by
  induction found with
  | nil => rfl
  | cons candidate rest ih =>
      have hrest := ih fun x hx => hp x (.tail _ hx)
      cases candidate with
      | none => exact hrest
      | some x =>
          have hx := hp x (.head _)
          rw [List.map_cons, existsHeld]
          simp only [bind, Except.bind, hx]
          cases hholds : holds x with
          | true => simp [hholds, pure, Except.pure]
          | false => simpa [hholds] using hrest

/-- A filter through a chain of relationships holds of a row exactly where the row leads along the
chain to one that the comparison holds of. -/
theorem through_spec (site : Site) (u : Unicode) (holds : db.HoldsIdentifiers) (col : String)
    (test : Test) (rels : List Rel) :
    ∀ (r : Res) (held : Held), Linked r rels → db.row? r held.1 = some held.2 →
      ∃ kept : Bool, (rels.foldr Clause.through (.column col test)).holds site u db r held =
          .ok kept ∧
        (kept = true ↔ ∃ x, db.Leads r rels held x ∧
          test.holds ((endOf r rels).columnOf col x) = true) := by
  induction rels with
  | nil => exact fun r held _ _ => ⟨_, rfl, by simp [Db.Leads, endOf]⟩
  | cons rel rels ih =>
      rintro r held ⟨⟨name, hrel⟩, hlinked⟩ hrow
      obtain ⟨found, hhop, hedge⟩ := hop_spec site holds hrel hrow
      choose! inner hinner hleads using fun x (hx : some x ∈ found) =>
        ih rel.target x hlinked (Db.mem_liveRows.mp ((hedge x).mp hx).live).1
      refine ⟨found.any (·.any inner), ?_, ?_⟩
      · rw [List.foldr_cons, Clause.holds, hhop]
        exact existsHeld_eq hinner
      · simp only [List.any_eq_true, Option.any_eq_true]
        constructor
        · rintro ⟨_, hfound, x, rfl, hx⟩
          obtain ⟨y, hy, htest⟩ := (hleads x hfound).mp hx
          exact ⟨y, ⟨x, (hedge x).mp hfound, hy⟩, htest⟩
        · rintro ⟨y, ⟨x, hx, hy⟩, htest⟩
          have hfound := (hedge x).mpr hx
          exact ⟨some x, hfound, x, rfl, (hleads x hfound).mpr ⟨y, hy, htest⟩⟩

/-! ## All readings agree -/

/-- The names in the brackets of a `where` key. -/
def whereParts (key : String) : List String :=
  (Text.splitPair ']' '[' (Text.rstrip (· = ']') (key.toList.drop "where[".length))).map
    String.ofList

/-- A filter keeps the rows from which an include would reach a row that the comparison at its end
holds of. -/
def FiltersAsIncluded (db : Db) : Prop :=
  ∀ (site : Site) (u : Unicode) (r : Res) (key value : String) (chain : List (String × Rel))
    (target : Res) (rest : List String) (leaf : Clause),
    "where[".toList.isPrefixOf key.toList = true →
    r.surface.searchFilters.lookup ((whereParts key).headD "") = none →
    relChain r (whereParts key) = (chain, target, rest) →
    leafWhere u target rest value = .ok leaf →
    ∃ clauses kept, buildWhere u r [(key, [value])] = .ok clauses ∧
      (db.liveRows r).filterM (fun held => allHold site u db r held clauses) = .ok kept ∧
      ∀ held, held ∈ kept ↔ held ∈ db.liveRows r ∧
        ∃ reached, db.hops r (chain.map (·.2)) [held] = .ok reached ∧
          ∃ x ∈ reached, leaf.holds site u db target x = .ok true

/-- A nested collection, an include and the live part of the listed ids are the same rows. -/
def NestsAsIncluded (db : Db) : Prop :=
  ∀ (r : Res) (name : String) (rel : Rel) (held : Held), (name, rel) ∈ r.info.relationships →
    rel.kind ≠ .one → db.row? r held.1 = some held.2 →
    ∃ keeps included ids, rel.restriction r held = .ok keeps ∧
      db.relatedRows r rel [held] = .ok included ∧ db.relTargetIds r rel held = .ok ids ∧
      ∀ x, (x ∈ (db.liveRows rel.target).filter keeps ↔ x ∈ included) ∧
        (x ∈ (db.liveRows rel.target).filter (ids.contains ·.1) ↔ x ∈ included)

theorem leafWhere_column {u : Unicode} {t : Res} {parts : List String} {value : String}
    {leaf : Clause} (h : leafWhere u t parts value = .ok leaf) :
    ∃ col test, leaf = .column col test := by
  simp only [leafWhere] at h
  split_ifs at h
  · exact ⟨_, _, (Except.ok.inj h).symm⟩
  · obtain ⟨n, -, h⟩ := except_bind_eq_ok.mp h
    exact ⟨_, _, (Except.ok.inj h).symm⟩
  · exact ⟨_, _, (Except.ok.inj h).symm⟩
  · split at h
    · obtain ⟨n, -, h⟩ := except_bind_eq_ok.mp h
      exact ⟨_, _, (Except.ok.inj h).symm⟩
    · cases h
  · split at h
    · exact ⟨_, _, (Except.ok.inj h).symm⟩
    · cases h

/-- No attribute is the empty text. -/
theorem empty_notMem_canQueryBy (r : Res) : "" ∉ r.surface.canQueryBy := by
  cases r <;> decide

theorem leafWhere_nonempty {u : Unicode} {t : Res} {parts : List String} {value : String}
    {leaf : Clause} (h : leafWhere u t parts value = .ok leaf) : parts ≠ [] := by
  rintro rfl
  have hnone : ("" : String) ∉ t.surface.canQueryBy := empty_notMem_canQueryBy t
  unfold leafWhere at h
  rw [if_pos (show ([] : List String).headD "" ∉ t.surface.canQueryBy from hnone)] at h
  cases h

theorem buildWhere_one {u : Unicode} {key value : String} {chain : List (String × Rel)}
    {target : Res} {rest : List String} {leaf : Clause}
    (hkey : "where[".toList.isPrefixOf key.toList = true)
    (hsearch : r.surface.searchFilters.lookup ((whereParts key).headD "") = none)
    (hchain : relChain r (whereParts key) = (chain, target, rest))
    (hleaf : leafWhere u target rest value = .ok leaf) :
    buildWhere u r [(key, [value])] =
      .ok [(chain.map (·.2)).foldr Clause.through leaf] := by
  have hone : whereKey u r key value =
      .ok (some ((chain.map (·.2)).foldr Clause.through leaf)) := by
    have hrest : rest.isEmpty = false := by
      simpa using leafWhere_nonempty hleaf
    unfold whereKey
    rw [whereParts] at hsearch hchain
    simp only [hsearch, hchain, hrest, hleaf, Bool.and_false, Bool.false_eq_true, if_false,
      List.foldr_map]
    rfl
  have hwheres : ([(key, [value])] : Qs).filter
      (fun e => "where[".toList.isPrefixOf e.1.toList) = [(key, [value])] := by
    rw [List.filter_singleton, hkey]
    rfl
  simp only [buildWhere, hwheres, List.mapM_cons, List.mapM_nil, List.headD_cons, hone]
  rfl

theorem filterAuxM_ok {p : Held → Except SqlError Bool} {holds : Held → Bool} {rows : List Held}
    (h : ∀ held ∈ rows, p held = .ok (holds held)) (kept : List Held) :
    rows.filterAuxM p kept = .ok ((rows.filter holds).reverse ++ kept) := by
  induction rows generalizing kept with
  | nil => rfl
  | cons held rows ih =>
      have hrest := ih fun x hx => h x (.tail _ hx)
      rw [List.filterAuxM, h held (.head _)]
      cases hholds : holds held with
      | true =>
          rw [List.filter_cons_of_pos hholds, List.reverse_cons, List.append_assoc]
          exact hrest (held :: kept)
      | false =>
          rw [List.filter_cons_of_neg (by simp [hholds])]
          exact hrest kept

theorem filterM_ok {p : Held → Except SqlError Bool} {holds : Held → Bool} {rows : List Held}
    (h : ∀ held ∈ rows, p held = .ok (holds held)) : rows.filterM p = .ok (rows.filter holds) := by
  rw [List.filterM, filterAuxM_ok h]
  simp [bind, Except.bind, pure, Except.pure]

theorem edges_agree (db : Db) (hnamed : db.Named) (holds : db.HoldsIdentifiers) :
    FiltersAsIncluded db ∧ NestsAsIncluded db := by
  constructor
  · intro site u r key value chain target rest leaf hkey hsearch hchain hleaf
    obtain ⟨col, test, rfl⟩ := leafWhere_column hleaf
    obtain ⟨hlinked, hend⟩ := relChain_spec (whereParts key) r
    rw [hchain] at hlinked hend
    obtain rfl : target = endOf r (chain.map (·.2)) := hend
    choose! kept hkept hleads using fun held (hheld : held ∈ db.liveRows r) =>
      through_spec site u holds col test (chain.map (·.2)) r held hlinked
        (Db.mem_liveRows.mp hheld).1
    refine ⟨_, (db.liveRows r).filter kept, buildWhere_one hkey hsearch hchain hleaf,
      filterM_ok fun held hheld => ?_, fun held => ?_⟩
    · rw [allHold, hkept held hheld]
      cases kept held <;> rfl
    · rw [List.mem_filter]
      refine and_congr_right fun hheld => ?_
      obtain ⟨reached, hreached, hmem⟩ := hops_spec hnamed holds (chain.map (·.2)) r [held] hlinked
        fun x hx => by
          rw [List.mem_singleton.mp hx]
          exact (Db.mem_liveRows.mp hheld).1
      rw [hleads held hheld]
      constructor
      · rintro ⟨x, hx, htest⟩
        exact ⟨reached, hreached, x, (hmem x).mpr ⟨held, .head _, hx⟩, congrArg _ htest⟩
      · rintro ⟨other, hother, x, hx, htest⟩
        rw [hreached] at hother
        cases hother
        obtain ⟨start, hstart, hx⟩ := (hmem x).mp hx
        rw [List.mem_singleton.mp hstart] at hx
        exact ⟨x, hx, Except.ok.inj htest⟩
  · intro r name rel held hrel _ hrow
    obtain ⟨keeps, hkeeps, hnested⟩ := restriction_spec hnamed holds hrel hrow
    obtain ⟨included, hincluded, hfound⟩ := relatedRows_spec hnamed holds hrel
      (show ∀ x ∈ [held], db.row? r x.1 = some x.2 from List.forall_mem_singleton.mpr hrow)
    obtain ⟨ids, hids, hlisted⟩ := relTargetIds_spec hnamed holds hrel hrow
    refine ⟨keeps, included, ids, hkeeps, hincluded, hids, fun x => ?_⟩
    have hedge : x ∈ included ↔ db.Edge r rel held x := by
      simpa using hfound x
    exact ⟨(hnested x).trans hedge.symm, (hlisted x).trans hedge.symm⟩

/-- A household of one person. -/
def familyOf (id : String) : Db :=
  let stamp : Stamp := ⟨.backfill, "2024-01-31", "2024-03-02T00:00:00Z"⟩
  (Db.empty.put .household "7" (.fresh (.obj [("type", .str "Household"), ("id", .str "7"),
    ("relationships", .obj [("people", .obj [("data", .arr [
      .obj [("type", .str "Person"), ("id", .str id)]])])])]) stamp)).put .person id
    (.fresh (.obj [("type", .str "Person"), ("id", .str id),
      ("attributes", .obj [("first_name", .str "Ada")])]) stamp)

/-- Only people and households have edges that PCO stores as arrays. -/
theorem array_edges {name : String} (hrel : (name, rel) ∈ r.info.relationships)
    (hkind : rel.kind = .json) : r = .person ∧ rel.jsonPath = ["relationships", "households", "data"] ∨
      r = .household ∧ rel.jsonPath = ["relationships", "people", "data"] := by
  have hall : ∀ r : Res, ∀ e ∈ r.info.relationships, e.2.kind = .json →
      r = .person ∧ e.2.jsonPath = ["relationships", "households", "data"] ∨
        r = .household ∧ e.2.jsonPath = ["relationships", "people", "data"] := by
    intro r
    cases r <;> decide
  exact hall r _ hrel hkind

theorem holdsIdentifiers_familyOf (id : String) : (familyOf id).HoldsIdentifiers := by
  intro r name rel hrel hkind key row hrow data hdata
  rw [familyOf, Db.row?_put, Db.row?_put] at hrow
  rcases array_edges hrel hkind with ⟨rfl, hpath⟩ | ⟨rfl, hpath⟩
  · split_ifs at hrow with hperson hhousehold
    · cases hrow
      rw [hpath] at hdata
      cases hdata
    · exact hhousehold.1.elim
    · cases hrow
  · rw [if_neg (by simp)] at hrow
    split_ifs at hrow
    · cases hrow
      rw [hpath] at hdata
      cases hdata
      exact .inr ⟨_, rfl, List.forall_mem_singleton.mpr ⟨id, rfl⟩⟩
    · cases hrow

theorem named_familyOf : (familyOf "1").Named := by
  intro t
  rw [familyOf, Db.row?_put, Db.row?_put]
  cases t <;> rfl

theorem edges_agree_familyOf :
    FiltersAsIncluded (familyOf "1") ∧ NestsAsIncluded (familyOf "1") :=
  edges_agree (familyOf "1") named_familyOf (holdsIdentifiers_familyOf "1")

/-- A site that parses no text, and a table of no characters beyond ASCII. -/
def plainSite : Site := ⟨"", fun _ => true, fun _ => none⟩

def plainUnicode : Unicode := ⟨id, Char.isDigit, id, id⟩

/-- A filter goes through an identifier without an id, and an include does not. -/
theorem edges_not_agree :
    ¬ ∀ db : Db, db.HoldsIdentifiers → FiltersAsIncluded db ∧ NestsAsIncluded db := by
  intro h
  obtain ⟨clauses, kept, hclauses, hkept, hmem⟩ :=
    (h (familyOf "") (holdsIdentifiers_familyOf "")).1 plainSite plainUnicode .household
      "where[people][first_name][gt]" "A" [("people", Rel.array .person "people")] .person
      ["first_name", "gt"] (.column "first_name" (.against .gt "A")) (by decide) (by decide) rfl rfl
  have hfilter : buildWhere plainUnicode .household [("where[people][first_name][gt]", ["A"])] =
      .ok [.through (Rel.array .person "people") (.column "first_name" (.against .gt "A"))] := rfl
  rw [hfilter] at hclauses
  cases hclauses
  have hall : ((familyOf "").liveRows .household).filterM (fun held =>
      allHold plainSite plainUnicode (familyOf "") .household held
        [.through (Rel.array .person "people") (.column "first_name" (.against .gt "A"))]) =
      .ok ((familyOf "").liveRows .household) := rfl
  rw [hall] at hkept
  cases hkept
  obtain ⟨-, reached, hreached, x, hx, -⟩ := (hmem _).mp (.head _)
  cases hreached
  cases hx

end PcoMirror
