import PcoMirror.Verification.Writer.Provenance

/-! What a write at the stored timestamp may take away: the guard counts relationships, and
attributes go with the document that names them. -/

namespace PcoMirror

/-! ## What a document has -/

def attributeKeys (raw : Json) : List Json.EachKey :=
  raw.eachKeys ["attributes"]

/-- The second document has every attribute of the first, and no fewer relationships. -/
structure NoPoorer (held after : Json) : Prop where
  attributes : attributeKeys held ⊆ attributeKeys after
  relationships : (relationshipKeys held).length ≤ (relationshipKeys after).length

theorem NoPoorer.refl (held : Json) : NoPoorer held held :=
  ⟨fun _ h => h, le_rfl⟩

/-- A document that names each relationship once has no more of them than one as rich. -/
theorem AsRich.length_le {held incoming : Json} (h : AsRich held incoming)
    (hkeys : (relationshipKeys held).Nodup) :
    (relationshipKeys held).length ≤ (relationshipKeys incoming).length := by
  rcases h with hcovers | hmore
  · have hsubset : relationshipKeys held ⊆ relationshipKeys incoming := by
      intro key hkey
      simpa using List.all_eq_true.mp hcovers key hkey
    exact (List.subperm_of_subset hkeys hsubset).length_le
  · exact hmore.le

theorem upsertRaw_of_equal {held incoming : Json}
    (h : pcoUpdatedAt incoming = pcoUpdatedAt held) :
    (AsRich held incoming → upsertRaw held incoming = incoming) ∧
      (¬ AsRich held incoming → upsertRaw held incoming = held) := by
  have hirrefl (v : Option String) : Sql.gt v v = false := by
    cases v with
    | none => rfl
    | some x => simp [Sql.gt]
  have hnewer : Sql.gt (pcoUpdatedAt incoming) (pcoUpdatedAt held) = false := h ▸ hirrefl _
  have holder : Sql.gt (pcoUpdatedAt held) (pcoUpdatedAt incoming) = false := h ▸ hirrefl _
  exact ⟨upsertRaw_of_asRich holder, upsertRaw_of_not_asRich hnewer⟩

/-! ## Arrivals -/

/-- A stored row takes, at its own timestamp, the document an upsert or the router brings. -/
def Op.Takes (t : Res) (row : Row) (raw : Json) : Op → Prop
  | .upsert .. => AsRich row.raw raw
  | .route .. => if t.info.timestamped then AsRich row.raw raw else row.live = true
  | _ => False

/-- A call of the upsert, or of the router. -/
def Op.Arrives : Op → Prop
  | .upsert .. | .route .. => True
  | _ => False

variable {w : World} {op : Op} {t : Res} {id : String} {raw : Json} {version : String} {row : Row}

/-- What an arrival at the stored timestamp leaves stored. -/
theorem Op.Arrives.raw_after (harrives : op.Arrives)
    (hpayload : op.payload? = some (t, id, raw, version)) (hrow : w.db.row? t id = some row)
    (huat : pcoUpdatedAt raw = row.uat) :
    ∃ after, (op.apply w).db.row? t id = some after ∧
      (op.Takes t row raw → after.raw = raw) ∧ (¬ op.Takes t row raw → after.raw = row.raw) := by
  have hupsert (stamp : Stamp) :
      ∃ after, (PcoMirror.upsert t id raw stamp w.db).row? t id = some after ∧
        (AsRich row.raw raw → after.raw = raw) ∧ (¬ AsRich row.raw raw → after.raw = row.raw) := by
    obtain ⟨value, hvalue⟩ := row?_upsert_self t id raw stamp w.db
    rw [hrow] at hvalue
    exact ⟨_, hvalue, upsertRaw_of_equal huat⟩
  cases op with
  | upsert t' id' raw' stamp =>
      cases hpayload
      exact hupsert stamp
  | route resource stamp ownerHint synthesized =>
      simp only [Op.payload?] at hpayload
      split at hpayload
      · case h_1 htarget =>
          cases hpayload
          rw [Op.apply_route]
          simp only [World.withDb, routed, htarget, write, Op.Takes]
          split_ifs with htimed
          · exact hupsert stamp
          · refine ⟨row.upsertUntimed raw stamp, ?_, fun hlive => ?_, fun hdead => ?_⟩
            · rw [row?_upsertUntimed, if_pos ⟨rfl, rfl⟩, hrow]
              rfl
            · rw [Row.live] at hlive
              simp [Row.upsertUntimed, hlive]
            · rw [Row.live] at hdead
              simp [Row.upsertUntimed, hdead]
      · cases hpayload
  | _ => cases harrives

/-- At an equal timestamp a row loses nothing exactly where it keeps its own document, or the
one it takes has the attributes; a type without timestamps counts no relationships either. -/
theorem no_poorer_iff (harrives : op.Arrives)
    (hpayload : op.payload? = some (t, id, raw, version)) (hrow : w.db.row? t id = some row)
    (huat : pcoUpdatedAt raw = row.uat) (hkeys : (relationshipKeys row.raw).Nodup) :
    ∃ after, (op.apply w).db.row? t id = some after ∧
      (NoPoorer row.raw after.raw ↔ (op.Takes t row raw →
        attributeKeys row.raw ⊆ attributeKeys raw ∧
          (t.info.timestamped = false →
            (relationshipKeys row.raw).length ≤ (relationshipKeys raw).length))) := by
  obtain ⟨after, hafter, htaken, hkept⟩ := harrives.raw_after hpayload hrow huat
  refine ⟨after, hafter, fun hno htakes => ?_, fun hcond => ?_⟩
  · rw [htaken htakes] at hno
    exact ⟨hno.attributes, fun _ => hno.relationships⟩
  · by_cases htakes : op.Takes t row raw
    · obtain ⟨hattributes, huntimed⟩ := hcond htakes
      rw [htaken htakes]
      refine ⟨hattributes, ?_⟩
      cases htimed : t.info.timestamped with
      | false => exact huntimed htimed
      | true =>
          have hrich : AsRich row.raw raw := by
            cases op with
            | upsert => exact htakes
            | route =>
                simp only [Op.Takes, htimed, if_true] at htakes
                exact htakes
            | _ => cases harrives
          exact hrich.length_le hkeys
    · rw [hkept htakes]
      exact NoPoorer.refl row.raw

/-! ## A sparse fieldset -/

/-- A person, as a request that asks for every attribute has it. -/
def wholePerson : Json :=
  .obj [("type", .str "Person"), ("id", .str "1"),
    ("attributes", .obj [("first_name", .str "Ada"), ("last_name", .str "Reed"),
      ("updated_at", .str "2024-03-01T00:00:00Z")]),
    ("relationships", .obj [("primary_campus", .obj [("data", .null)])])]

/-- The same person under `fields[Person]=first_name,updated_at,primary_campus`. -/
def sparsePerson : Json :=
  .obj [("type", .str "Person"), ("id", .str "1"),
    ("attributes", .obj [("first_name", .str "Ada"),
      ("updated_at", .str "2024-03-01T00:00:00Z")]),
    ("relationships", .obj [("primary_campus", .obj [("data", .null)])])]

def marchStamp : Stamp :=
  ⟨.passthrough, "2024-01-31", "2024-03-01T00:00:05Z"⟩

/-- The mirror with the whole person in it. -/
def wholeWorld : World :=
  { db := Db.empty.put .person "1" (Row.fresh wholePerson marchStamp) }

theorem no_poorer_iff_whole :
    ∃ after, ((Op.route wholePerson marchStamp none []).apply wholeWorld).db.row? .person "1" =
        some after ∧
      (NoPoorer wholePerson after.raw ↔
        ((Op.route wholePerson marchStamp none []).Takes .person
            (Row.fresh wholePerson marchStamp) wholePerson →
          attributeKeys wholePerson ⊆ attributeKeys wholePerson ∧
            (Res.person.info.timestamped = false → (relationshipKeys wholePerson).length ≤
              (relationshipKeys wholePerson).length))) :=
  no_poorer_iff (show (Op.route wholePerson marchStamp none []).Arrives from trivial)
    (show Op.payload? _ = some (.person, "1", wholePerson, "2024-01-31") from rfl)
    (show wholeWorld.db.row? .person "1" = some (Row.fresh wholePerson marchStamp) from rfl)
    rfl (by decide)

/-- The sparse copy takes the place of the whole one, and the last name is gone. -/
theorem sparse_copy_loses : ¬ ∀ (w : World) (op : Op) (t : Res) (id : String) (raw : Json)
    (version : String) (row after : Row), op.Arrives →
      op.payload? = some (t, id, raw, version) → w.db.row? t id = some row →
      pcoUpdatedAt raw = row.uat → (op.apply w).db.row? t id = some after →
      NoPoorer row.raw after.raw := by
  intro h
  have harrives : (Op.route sparsePerson marchStamp none []).Arrives := trivial
  have hpayload : (Op.route sparsePerson marchStamp none []).payload? =
      some (.person, "1", sparsePerson, "2024-01-31") := rfl
  have hrow : wholeWorld.db.row? .person "1" = some (Row.fresh wholePerson marchStamp) := rfl
  have huat : pcoUpdatedAt sparsePerson = (Row.fresh wholePerson marchStamp).uat := rfl
  obtain ⟨after, hafter, htaken, -⟩ := harrives.raw_after hpayload hrow huat
  have hkept := h _ _ _ _ _ _ _ after harrives hpayload hrow huat hafter
  have htakes : (Op.route sparsePerson marchStamp none []).Takes .person
      (Row.fresh wholePerson marchStamp) sparsePerson := .inl (by decide)
  have hattributes := hkept.attributes
  rw [htaken htakes] at hattributes
  exact absurd (hattributes (show Json.EachKey.label "last_name" ∈ attributeKeys wholePerson by decide))
    (by decide)

end PcoMirror
