import PcoMirror.Lib.Json
import PcoMirror.Lib.Sql

/-! The resource registry: one declaration for each mirrored type, and the
ownership graph derived from the declarations. -/

namespace PcoMirror

/-- The registered resources; each names its own table. -/
inductive Res where
  | person | email | phoneNumber | socialProfile | address
  | fieldDatum | fieldDefinition | household | householdMembership | note
  | list | listResult | form | formSubmission
  | campus | maritalStatus | namePrefix | nameSuffix | inactiveReason | personMerger
  deriving DecidableEq, Repr

namespace Res

/-- `RESOURCES` in declaration order. -/
def all : List Res :=
  [person, email, phoneNumber, socialProfile, address, fieldDatum, fieldDefinition, household,
    householdMembership, note, list, listResult, form, formSubmission, campus, maritalStatus,
    namePrefix, nameSuffix, inactiveReason, personMerger]

end Res

inductive Tier where
  | full | lite | passthrough
  deriving DecidableEq, Repr

inductive Method where
  | incremental | mergerPoll | referencePeriodic | nestedWalk | passthroughOnly
  deriving DecidableEq, Repr

inductive RelKind where
  | many | one | json
  deriving DecidableEq, Repr

/-- A relationship joined over local tables. -/
structure Rel where
  target : Res
  kind : RelKind
  localFk : Option String := none
  childFk : Option String := none
  jsonPath : List String := []

/-- An edge PCO stores inline, as an array of resource identifiers on `raw`. -/
def Rel.array (target : Res) (name : String) : Rel where
  target := target
  kind := .json
  jsonPath := ["relationships", name, "data"]

/-- How a queryable column is derived from `raw`. -/
inductive Projection where
  | json (path : List String)
  | expr (value : Json → Option String)
  | plain

structure Resource where
  name : String
  type : String
  endpoint : String
  tier : Tier := .full
  method : Method := .incremental
  parent : Option Res := none
  parentPath : String := ""
  parentFk : Option String := none
  timestamped : Bool := true
  supportsUatFilter : Bool := true
  supportsCatFilter : Bool := true
  ownerRel : Option String := none
  projections : List (String × Projection) := []
  includes : List String := []
  relationships : List (String × Rel) := []
  incrIntervalS : ℕ := 300
  auditIntervalS : Option ℕ := none

/-! ## Projections -/

def attr (name : String) : Projection :=
  .json ["attributes", name]

def relatedId (rel : String) : Projection :=
  .json ["relationships", rel, "data", "id"]

/-- The owning id: the relationship where PCO sends one, else the segment of
`links.self` after `marker`. -/
def fromSelfLink (rel pattern marker : String) (raw : Json) : Option String :=
  let self := raw.textAt ["links", "self"]
  let after := self.map fun s => Sql.substr s (Sql.instr s marker + marker.length)
  (raw.textAt ["relationships", rel, "data", "id"]).or <|
    if self.any (Sql.like · pattern) then
      after.map fun s => Sql.left s ((Sql.instr s "/" : ℤ) - 1)
    else none

/-- The person a polymorphic `customizable` names, when it names one. -/
def customizablePerson (raw : Json) : Option String :=
  if raw.textAt ["relationships", "customizable", "data", "type"] = some "Person" then
    raw.textAt ["relationships", "customizable", "data", "id"]
  else none

/-! ## Declarations -/

def referenceResource (name type endpoint : String) : Resource where
  name := name
  type := type
  endpoint := endpoint
  tier := .lite
  method := .referencePeriodic
  timestamped := false
  supportsUatFilter := false
  projections := [("name", attr "name"), ("value", attr "value")]
  incrIntervalS := 86400

def Res.info : Res → Resource
  | .person => {
      name := "person", type := "Person", endpoint := "/people"
      projections := [
        ("first_name", attr "first_name"), ("last_name", attr "last_name"),
        ("name", attr "name"), ("nickname", attr "nickname"),
        ("given_name", attr "given_name"), ("status", attr "status"),
        ("membership", attr "membership"), ("gender", attr "gender"),
        ("grade", attr "grade"), ("birthdate", attr "birthdate"),
        ("anniversary", attr "anniversary"), ("remote_id", attr "remote_id"),
        ("child", attr "child"), ("primary_campus_id", relatedId "primary_campus"),
        ("marital_status_id", relatedId "marital_status"),
        ("name_prefix_id", relatedId "name_prefix"), ("name_suffix_id", relatedId "name_suffix")]
      includes := ["emails", "phone_numbers", "addresses", "field_data", "households",
        "primary_campus", "marital_status"]
      relationships := [
        ("emails", { target := .email, kind := .many, childFk := some "person_pco_id" }),
        ("phone_numbers",
          { target := .phoneNumber, kind := .many, childFk := some "person_pco_id" }),
        ("addresses", { target := .address, kind := .many, childFk := some "person_pco_id" }),
        ("field_data", { target := .fieldDatum, kind := .many, childFk := some "person_pco_id" }),
        ("primary_campus", { target := .campus, kind := .one, localFk := some "primary_campus_id" }),
        ("marital_status",
          { target := .maritalStatus, kind := .one, localFk := some "marital_status_id" }),
        ("households", Rel.array .household "households"),
        ("household_memberships",
          { target := .householdMembership, kind := .many, childFk := some "person_pco_id" })]
      incrIntervalS := 60, auditIntervalS := some 86400 }
  | .email => {
      name := "email", type := "Email", endpoint := "/emails", ownerRel := some "person"
      projections := [
        ("person_pco_id", relatedId "person"), ("address", attr "address"),
        ("location", attr "location"), ("is_primary", attr "primary"),
        ("blocked", attr "blocked")]
      incrIntervalS := 120, auditIntervalS := some 86400 }
  | .phoneNumber => {
      name := "phone_number", type := "PhoneNumber", endpoint := "/phone_numbers"
      ownerRel := some "person"
      projections := [
        ("person_pco_id", relatedId "person"), ("number", attr "number"),
        ("e164", attr "e164"), ("location", attr "location"),
        ("is_primary", attr "primary")]
      incrIntervalS := 120, auditIntervalS := some 86400 }
  | .socialProfile => {
      name := "social_profile", type := "SocialProfile", endpoint := "/social_profiles"
      ownerRel := some "person"
      projections := [
        ("person_pco_id", relatedId "person"), ("site", attr "site"),
        ("url", attr "url"), ("verified", attr "verified")]
      incrIntervalS := 600, auditIntervalS := some 86400 }
  | .address => {
      name := "address", type := "Address", endpoint := "/addresses", ownerRel := some "person"
      supportsUatFilter := false, supportsCatFilter := false
      projections := [
        ("person_pco_id", relatedId "person"), ("street_line_1", attr "street_line_1"),
        ("street_line_2", attr "street_line_2"), ("city", attr "city"),
        ("state", attr "state"), ("zip", attr "zip"),
        ("location", attr "location"), ("is_primary", attr "primary")]
      auditIntervalS := some 86400 }
  | .fieldDatum => {
      name := "field_datum", type := "FieldDatum", endpoint := "/field_data"
      ownerRel := some "person", includes := ["field_definition"]
      projections := [
        ("customizable_type", .json ["relationships", "customizable", "data", "type"]),
        ("customizable_id", relatedId "customizable"),
        ("person_pco_id", .expr customizablePerson),
        ("field_definition_id", relatedId "field_definition"),
        ("field_option_id", relatedId "field_option"), ("value", attr "value"),
        ("file_url", attr "file"), ("value_text", .plain), ("value_number", .plain),
        ("value_date", .plain), ("value_bool", .plain)]
      relationships := [
        ("field_definition",
          { target := .fieldDefinition, kind := .one, localFk := some "field_definition_id" })]
      auditIntervalS := some 86400 }
  | .fieldDefinition => {
      name := "field_definition", type := "FieldDefinition", endpoint := "/field_definitions"
      tier := .lite, method := .referencePeriodic, timestamped := false, supportsUatFilter := false
      projections := [
        ("name", attr "name"), ("slug", attr "slug"),
        ("data_type", attr "data_type"), ("tab_id", relatedId "tab")]
      incrIntervalS := 21600 }
  | .household => {
      name := "household", type := "Household", endpoint := "/households"
      projections := [
        ("name", attr "name"), ("member_count", attr "member_count"),
        ("primary_contact_id", relatedId "primary_contact")]
      relationships := [
        ("people", Rel.array .person "people"),
        ("primary_contact",
          { target := .person, kind := .one, localFk := some "primary_contact_id" }),
        ("household_memberships",
          { target := .householdMembership, kind := .many, childFk := some "household_pco_id" })]
      incrIntervalS := 600, auditIntervalS := some 86400 }
  | .householdMembership => {
      name := "household_membership", type := "HouseholdMembership"
      endpoint := "/household_memberships", tier := .lite, method := .nestedWalk
      parent := some .household, parentPath := "/household_memberships"
      parentFk := some "household_pco_id", timestamped := false, supportsUatFilter := false
      projections := [
        ("household_pco_id", .expr (fromSelfLink "household"
          "%/households/%/household_memberships/%" "/households/")),
        ("person_pco_id", relatedId "person"), ("household_role", attr "household_role"),
        ("person_name", attr "person_name"), ("pending", attr "pending")]
      relationships := [
        ("person", { target := .person, kind := .one, localFk := some "person_pco_id" }),
        ("household", { target := .household, kind := .one, localFk := some "household_pco_id" })]
      incrIntervalS := 86400 }
  | .note => {
      name := "note", type := "Note", endpoint := "/notes", ownerRel := some "person"
      projections := [
        ("person_pco_id", relatedId "person"), ("note_category_id", relatedId "note_category"),
        ("created_by_id", relatedId "created_by"), ("display_date", attr "display_date"),
        ("note", attr "note")]
      relationships := [
        ("person", { target := .person, kind := .one, localFk := some "person_pco_id" })]
      incrIntervalS := 600 }
  | .list => {
      name := "list", type := "List", endpoint := "/lists"
      projections := [
        ("name", attr "name"), ("description", attr "description"),
        ("status", attr "status"), ("returns", attr "returns"),
        ("subset", attr "subset"), ("auto_refresh", attr "auto_refresh"),
        ("total_people", attr "total_people"), ("refreshed_at", attr "refreshed_at"),
        ("batch_completed_at", attr "batch_completed_at")]
      relationships := [
        ("list_results", { target := .listResult, kind := .many, childFk := some "list_pco_id" })]
      incrIntervalS := 900 }
  | .listResult => {
      name := "list_result", type := "ListResult", endpoint := "/list_results"
      tier := .lite, method := .nestedWalk, parent := some .list, parentPath := "/list_results"
      parentFk := some "list_pco_id", supportsUatFilter := false
      projections := [
        ("list_pco_id", .expr (fromSelfLink "list" "%/lists/%/list_results/%" "/lists/")),
        ("person_pco_id", relatedId "person")]
      relationships := [
        ("person", { target := .person, kind := .one, localFk := some "person_pco_id" }),
        ("list", { target := .list, kind := .one, localFk := some "list_pco_id" })]
      incrIntervalS := 86400 }
  | .form => {
      name := "form", type := "Form", endpoint := "/forms", supportsUatFilter := false
      projections := [
        ("name", attr "name"), ("description", attr "description"),
        ("active", attr "active"), ("archived", attr "archived"),
        ("submission_count", attr "submission_count"), ("campus_id", relatedId "campus"),
        ("form_category_id", relatedId "form_category")]
      relationships := [
        ("form_submissions",
          { target := .formSubmission, kind := .many, childFk := some "form_pco_id" }),
        ("campus", { target := .campus, kind := .one, localFk := some "campus_id" })]
      incrIntervalS := 3600 }
  | .formSubmission => {
      name := "form_submission", type := "FormSubmission", endpoint := "/form_submissions"
      tier := .lite, method := .nestedWalk, parent := some .form, parentPath := "/form_submissions"
      parentFk := some "form_pco_id", supportsUatFilter := false
      projections := [
        ("form_pco_id", .expr (fromSelfLink "form" "%/forms/%/form_submissions/%" "/forms/")),
        ("person_pco_id", relatedId "person"), ("verified", attr "verified")]
      relationships := [
        ("person", { target := .person, kind := .one, localFk := some "person_pco_id" }),
        ("form", { target := .form, kind := .one, localFk := some "form_pco_id" })]
      incrIntervalS := 86400 }
  | .campus => referenceResource "campus" "Campus" "/campuses"
  | .maritalStatus => referenceResource "marital_status" "MaritalStatus" "/marital_statuses"
  | .namePrefix => referenceResource "name_prefix" "NamePrefix" "/name_prefixes"
  | .nameSuffix => referenceResource "name_suffix" "NameSuffix" "/name_suffixes"
  | .inactiveReason => referenceResource "inactive_reason" "InactiveReason" "/inactive_reasons"
  | .personMerger => {
      name := "person_merger", type := "PersonMerger", endpoint := "/person_mergers"
      tier := .passthrough, method := .mergerPoll, timestamped := false, supportsUatFilter := false
      projections := [
        ("person_to_keep_id", attr "person_to_keep_id"),
        ("person_to_remove_id", attr "person_to_remove_id")]
      incrIntervalS := 120 }

/-! ## Lookups -/

def byName (name : String) : Option Res :=
  Res.all.find? (·.info.name = name)

def byType (type : String) : Option Res :=
  Res.all.find? (·.info.type = type)

/-- A webhook's resource token is the registry name. -/
def byEventResource (token : String) : Option Res :=
  byName token

/-- A projected column of a document; a plain column is no function of it. -/
def Res.column (r : Res) (col : String) (raw : Json) : Option String :=
  match r.info.projections.lookup col with
  | some (.json path) => raw.textAt path
  | some (.expr value) => value raw
  | some .plain | none => none

/-- The owners a resource declares, each with the column that names the owner's
id: containment by `owner_rel` or by `parent`, never a mere reference. -/
def ownerEdges (c : Res) : List (Res × String) :=
  let byOwnerRel := match c.info.ownerRel with
    | none => []
    | some ownerRel =>
      let rel := c.info.relationships.lookup ownerRel
      let owner := match rel with
        | some rel => some rel.target
        | none => byName ownerRel
      let fk := (rel.bind (·.localFk)).getD (ownerRel ++ "_pco_id")
      (owner.map (·, fk)).toList
  let byParent := match c.info.parent, c.info.parentFk with
    | some parent, some fk => [(parent, fk)]
    | _, _ => []
  byOwnerRel ++ byParent

/-- The children that cannot outlive an owner, with the column naming it. -/
def ownedChildren (owner : Res) : List (Res × String) :=
  Res.all.flatMap fun c => (ownerEdges c).filterMap fun e =>
    if e.1 = owner then some (c, e.2) else none

example : ownedChildren .person = [(.email, "person_pco_id"), (.phoneNumber, "person_pco_id"),
    (.socialProfile, "person_pco_id"), (.address, "person_pco_id"),
    (.fieldDatum, "person_pco_id"), (.note, "person_pco_id")] := by decide

end PcoMirror
