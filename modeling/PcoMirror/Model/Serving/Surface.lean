import PcoMirror.Lib.Text
import PcoMirror.Model.Db

/-! What a caller may ask of a collection: the registry's filters, orders and searches,
and the columns they read. -/

namespace PcoMirror

/-- A name haystack of a person. -/
inductive NameField where
  | column (col : String)
  /-- `coalesce(first_name,'') || ' ' || coalesce(last_name,'')` -/
  | fullName
  deriving DecidableEq

/-- How the arm of a search matches. -/
inductive Matching where
  | words | contains | digitsSuffix | digitsExact
  deriving DecidableEq

def Matching.ofDigits : Matching → Bool
  | .digitsSuffix | .digitsExact => true
  | .words | .contains => false

/-- An arm of a search over the rows that point back at a person. -/
structure SearchChild where
  target : Res
  childFk : String
  col : String
  mode : Matching
  deriving DecidableEq

structure Search where
  names : List NameField := []
  children : List SearchChild := []
  singleTokenContains : Bool := false
  deriving DecidableEq

structure Surface where
  canQueryBy : List String := []
  canOrderBy : List String := []
  searchFilters : List (String × Search) := []
  colAliases : List (String × String) := []
  /-- The projections declared `INTEGER`. -/
  integers : List String := []

/-- `_PERSON_NAMES` -/
def personNames : List NameField :=
  [.column "name", .fullName, .column "first_name", .column "last_name", .column "nickname",
    .column "given_name"]

def emailArm : SearchChild := ⟨.email, "person_pco_id", "address", .contains⟩

def phoneArm : SearchChild := ⟨.phoneNumber, "person_pco_id", "number", .digitsSuffix⟩

def Res.surface : Res → Surface
  | .person => {
      canQueryBy := ["created_at", "updated_at", "id", "remote_id", "primary_campus_id", "status",
        "first_name", "last_name", "nickname", "given_name", "child", "grade", "gender",
        "membership", "birthdate", "anniversary"]
      canOrderBy := ["created_at", "updated_at", "first_name", "last_name", "remote_id",
        "birthdate", "anniversary", "nickname", "given_name", "child", "grade", "gender",
        "membership", "status"]
      searchFilters := [
        ("search_name", { names := personNames }),
        ("search_name_or_email",
          { names := personNames, singleTokenContains := true, children := [emailArm] }),
        ("search_phone_number", { children := [phoneArm] }),
        ("search_phone_number_e164",
          { children := [⟨.phoneNumber, "person_pco_id", "e164", .digitsExact⟩] }),
        ("search_name_or_email_or_phone_number",
          { names := personNames, singleTokenContains := true, children := [emailArm, phoneArm] })]
      integers := ["grade", "child"] }
  | .email => {
      canQueryBy := ["created_at", "updated_at", "address", "location", "primary", "blocked"]
      canOrderBy := ["created_at", "updated_at", "address"]
      colAliases := [("primary", "is_primary")], integers := ["is_primary", "blocked"] }
  | .phoneNumber => {
      canQueryBy := ["created_at", "updated_at", "number", "location", "primary"]
      canOrderBy := ["created_at", "updated_at"]
      colAliases := [("primary", "is_primary")], integers := ["is_primary"] }
  | .socialProfile => {
      canQueryBy := ["created_at", "updated_at", "site", "url", "verified"]
      canOrderBy := ["created_at", "updated_at", "site", "url", "verified"]
      integers := ["verified"] }
  | .address => {
      canQueryBy := ["created_at", "updated_at", "city", "state", "zip", "street_line_1",
        "street_line_2", "location", "primary"]
      canOrderBy := ["created_at", "updated_at"]
      colAliases := [("primary", "is_primary")], integers := ["is_primary"] }
  | .fieldDatum => {
      canQueryBy := ["created_at", "updated_at", "field_definition_id", "value", "file"]
      canOrderBy := ["created_at", "updated_at", "value", "file"]
      colAliases := [("file", "file_url")], integers := ["value_bool"] }
  | .fieldDefinition => {
      canQueryBy := ["name", "slug", "data_type", "tab_id"]
      canOrderBy := ["name", "slug", "data_type", "tab_id"] }
  | .household => {
      canQueryBy := ["created_at", "updated_at", "name"]
      canOrderBy := ["created_at", "updated_at", "name"], integers := ["member_count"] }
  | .householdMembership => {
      canQueryBy := ["pending", "household_role"]
      canOrderBy := ["pending", "household_role", "person_name"], integers := ["pending"] }
  | .note => {
      canQueryBy := ["created_at", "updated_at", "note", "note_category_id"]
      canOrderBy := ["created_at", "updated_at", "note", "display_date", "note_category_id"] }
  | .list => {
      canQueryBy := ["created_at", "updated_at", "name", "id", "batch_completed_at"]
      canOrderBy := ["created_at", "updated_at", "name", "refreshed_at", "total_people"]
      integers := ["auto_refresh", "total_people"] }
  | .listResult => { canOrderBy := ["created_at", "updated_at"] }
  | .form => {
      canQueryBy := ["created_at", "updated_at", "active", "id"]
      canOrderBy := ["created_at", "updated_at", "name", "active", "submission_count"]
      integers := ["active", "archived", "submission_count"] }
  | .formSubmission => {
      canOrderBy := ["created_at", "updated_at"], integers := ["verified"] }
  | .campus | .maritalStatus | .namePrefix | .nameSuffix | .inactiveReason => {
      canQueryBy := ["created_at", "updated_at"], canOrderBy := ["created_at", "updated_at"] }
  | .personMerger => {}

/-! ## Columns -/

/-- `_col_for` -/
def Res.colFor (r : Res) (attr : String) : String :=
  match r.surface.colAliases.lookup attr with
  | some col => col
  | none =>
    if attr = "id" then "pco_id"
    else if attr = "created_at" then "pco_created_at"
    else if attr = "updated_at" then "pco_updated_at"
    else attr

/-- A row as a query returns it, with its key. -/
abbrev Held := String × Row

/-- The text of a column a filter or an order may name. -/
def Res.columnOf (r : Res) (col : String) (held : Held) : Option String :=
  if col = "pco_id" then some held.1
  else if col = "pco_created_at" then held.2.raw.textAt ["attributes", "created_at"]
  else if col = "pco_updated_at" then held.2.uat
  else r.column col held.2.raw

/-- Every attribute that can be filtered or ordered by has its column, and it is derived from the
stored document. -/
theorem columns_projected (r : Res) :
    ∀ attr ∈ r.surface.canQueryBy ++ r.surface.canOrderBy,
      r.colFor attr ∈ ["pco_id", "pco_created_at", "pco_updated_at"] ∨
        (r.info.projections.any fun p => p.1 = r.colFor attr && !(p.2 matches .plain)) = true := by
  cases r <;> decide

end PcoMirror
