import PcoMirror.Model.Serving.Read

/-! The address of a record: the segments of its own link, and where the router takes them. -/

namespace PcoMirror

variable {r parent : Res} {held : Held} {rel : Rel} {name : String}

/-! ## Paths -/

/-- A text that is one segment of a path. -/
structure IsSegment (s : String) : Prop where
  ne_empty : s ≠ ""
  no_slash : '/' ∉ s.toList

instance (s : String) : Decidable (IsSegment s) :=
  decidable_of_iff (s ≠ "" ∧ '/' ∉ s.toList) ⟨fun h => ⟨h.1, h.2⟩, fun h => ⟨h.1, h.2⟩⟩

/-- What every path of the product starts with. -/
@[irreducible] def peopleRoot : List Char :=
  "/people/v2/".toList

def pathOf (segs : List String) : String :=
  String.ofList (peopleRoot ++ ['/'].intercalate (segs.map String.toList))

theorem segments_root (tail : List Char) :
    segments (String.ofList (peopleRoot ++ tail)) =
      some ((tail.splitOn '/').filterMap fun s =>
        if s.isEmpty then none else some (String.ofList s)) := by
  have hroot : "/people/v2/".toList = peopleRoot := by
    unfold peopleRoot
    rfl
  unfold segments
  rw [hroot]
  simp only [String.toList_ofList]
  rw [if_pos (List.isPrefixOf_iff_prefix.mpr (List.prefix_append _ _)), List.drop_left]

theorem segments_pathOf {segs : List String} (hne : segs ≠ []) (h : ∀ s ∈ segs, IsSegment s) :
    segments (pathOf segs) = some segs := by
  have hsplit : (['/'].intercalate (segs.map String.toList)).splitOn '/' =
      segs.map String.toList := by
    refine List.splitOn_intercalate _ ?_ ?_
    · simpa using fun s hs => (h s hs).no_slash
    · simpa using hne
  rw [pathOf, segments_root, hsplit, List.filterMap_map]
  refine congrArg some ((List.filterMap_congr fun s hs => ?_).trans List.filterMap_some)
  simp [(h s hs).ne_empty]

theorem pathOf_singleton (first : String) : pathOf [first] = "/people/v2" ++ "/" ++ first := by
  have hroot : String.ofList peopleRoot = "/people/v2" ++ "/" := by
    unfold peopleRoot
    rfl
  rw [← hroot, pathOf, String.ofList_append]
  simp

theorem pathOf_concat {segs : List String} (hne : segs ≠ []) (name : String) :
    pathOf (segs ++ [name]) = pathOf segs ++ "/" ++ name := by
  have hjoin : ['/'].intercalate ((segs ++ [name]).map String.toList) =
      ['/'].intercalate (segs.map String.toList) ++ '/' :: name.toList := by
    induction segs with
    | nil => exact absurd rfl hne
    | cons first rest ih =>
        cases rest with
        | nil => simp
        | cons second rest =>
            simp only [List.cons_append, List.map_cons, List.intercalate_cons_cons] at ih ⊢
            rw [ih (List.cons_ne_nil _ _)]
            simp
  rw [← String.toList_inj, pathOf, hjoin, pathOf]
  simp

/-! ## Addresses -/

/-- The id of the parent that a record is addressed under, where its type has one. -/
def Res.parentId (r : Res) (held : Held) : Option String :=
  r.info.parentFk.bind fun fk => r.column fk held.2.raw

/-- The segments of a record's own link. -/
def Res.location (r : Res) (held : Held) : List String :=
  match r.info.parent, (r.parentId held).filter (· ≠ "") with
  | some parent, some parentId => [parent.info.segment, parentId, r.info.segment, held.1]
  | _, _ => [r.info.segment, held.1]

theorem pathOf_pair (a b : String) : pathOf [a, b] = "/people/v2" ++ "/" ++ a ++ "/" ++ b := by
  rw [← pathOf_singleton a, ← pathOf_concat (List.cons_ne_nil a [])]
  rfl

theorem location_ne_nil : r.location held ≠ [] := by
  unfold Res.location
  split <;> exact List.cons_ne_nil _ _

theorem location_top (hparent : r.info.parent = none) :
    r.location held = [r.info.segment, held.1] := by
  unfold Res.location
  rw [hparent]

theorem location_bare (hparentId : (r.parentId held).filter (· ≠ "") = none) :
    r.location held = [r.info.segment, held.1] := by
  unfold Res.location
  rw [hparentId]
  cases r.info.parent <;> rfl

theorem location_under (hparent : r.info.parent = some parent) {parentId : String}
    (hparentId : r.parentId held = some parentId) (hne : parentId ≠ "") :
    r.location held = [parent.info.segment, parentId, r.info.segment, held.1] := by
  have hkept : (r.parentId held).filter (· ≠ "") = some parentId := by
    simp [hparentId, Option.filter, hne]
  unfold Res.location
  rw [hparent, hkept]

/-- The links of a record are its location and, under it, its relationships. -/
theorem linkMap_eq (html : Option Json) :
    linkMap r held.1 html (r.parentId held) =
      ("self", .str (pathOf (r.location held))) ::
        r.info.relationships.map (fun e => (e.1, .str (pathOf (r.location held ++ [e.1])))) ++
        ((html.filter Json.truthy).map fun html => ("html", html)).toList := by
  simp only [pathOf_concat location_ne_nil]
  unfold linkMap Res.location
  cases r.info.parent with
  | none => simp [pathOf_pair]
  | some parent =>
      cases (r.parentId held).filter (· ≠ "") with
      | none => simp [pathOf_pair]
      | some parentId =>
          have hfour : pathOf [parent.info.segment, parentId, r.info.segment, held.1] =
              "/people/v2" ++ "/" ++ parent.info.segment ++ "/" ++ parentId ++ "/" ++
                r.info.segment ++ "/" ++ held.1 := by
            rw [← pathOf_pair, ← pathOf_concat (List.cons_ne_nil _ _),
              ← pathOf_concat (by simp)]
            rfl
          simp only [hfour, String.append_assoc]
          rfl

theorem bySegment_segment (r : Res) : bySegment r.info.segment = some r := by
  cases r <;> decide +kernel

theorem isSegment_segment (r : Res) : IsSegment r.info.segment := by
  cases r <;> decide +kernel

theorem isSegment_relationship {r : Res} (h : (name, rel) ∈ r.info.relationships) :
    IsSegment name := by
  have hall : ∀ e ∈ r.info.relationships, IsSegment e.1 := by
    cases r <;> decide +kernel
  exact hall (name, rel) h

/-- The relationship of a parent that its children are walked for. -/
structure ChildEdge (parent r : Res) (rel : Rel) : Prop where
  name : parent.info.relationships.lookup r.info.segment = some rel
  target : rel.target = r
  kind : rel.kind = .many
  childFk : rel.childFk = r.info.parentFk
  walked : rel.walkedUnder = some parent
  top : parent.info.parent = none

theorem childEdge (h : r.info.parent = some parent) : ∃ rel, ChildEdge parent r rel := by
  cases r <;> cases h
  · exact ⟨_, rfl, rfl, rfl, rfl, rfl, rfl⟩
  · exact ⟨_, rfl, rfl, rfl, rfl, rfl, rfl⟩
  · exact ⟨_, rfl, rfl, rfl, rfl, rfl, rfl⟩

/-! ## Where the router takes an address -/

section

variable (env : Env) (transport : Transport) (site : Site) (u : Unicode) (fuel : ℕ)
  {scopes : List String} (body : Body)

/-- The key reads every type. -/
def ReadsAll (scopes : List String) : Prop :=
  ∀ r : Res, (scopes.contains "read:*" || scopes.contains ("read:" ++ r.info.segment)) = true

theorem routeRead_pathOf (hscopes : ReadsAll scopes) (rest : List String) :
    (∀ s ∈ rest, IsSegment s) →
    routeRead env transport site u fuel (.ok scopes) (pathOf (r.info.segment :: rest)) [] body =
      match rest, r.info.parent with
      | [], some parent => throw (.http 404
          (r.info.type ++ " is only served under a " ++ parent.info.type) none)
      | [], none => list env site u fuel r (pathOf (r.info.segment :: rest)) [] (fun _ => true) none
      | [_], some parent => throw (.http 404
          ("a " ++ r.info.type ++ " is addressed under its " ++ parent.info.type) none)
      | [id], none =>
        single env transport site u fuel scopes r id (pathOf (r.info.segment :: rest)) []
      | [id, name], _ =>
        nested env transport site u fuel scopes r id name (pathOf (r.info.segment :: rest)) []
      | [id, name, child], _ =>
        nestedSingle env transport site u fuel scopes r id name child none
          (pathOf (r.info.segment :: rest)) []
      | [id, name, child, tail], _ =>
        nestedSingle env transport site u fuel scopes r id name child (some tail)
          (pathOf (r.info.segment :: rest)) []
      | _, _ => throw (.http 404 "bad path" none) := by
  intro hrest
  have hsegments : segments (pathOf (r.info.segment :: rest)) = some (r.info.segment :: rest) := by
    refine segments_pathOf (List.cons_ne_nil _ _) ?_
    rw [List.forall_mem_cons]
    exact ⟨isSegment_segment r, hrest⟩
  have hscope : (!(scopes.contains "read:*" || scopes.contains ("read:" ++ r.info.segment))) =
      false := by
    rw [hscopes r]
    rfl
  unfold routeRead
  simp only [hsegments, bySegment_segment, hscope]
  rfl

end

end PcoMirror
