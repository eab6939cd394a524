import PcoMirror.Lib.Disclosure
import PcoMirror.Lib.Headers
import PcoMirror.Lib.Iso8601
import PcoMirror.Lib.QueryString
import PcoMirror.Model.Pseudonym.Names

/-! The people of a whole document, replaced. -/

namespace PcoMirror.Pseudonym

open Text

/-! ## Kinds -/

/-- What an attribute holds. -/
inductive Kind where
  | name (kind : NameKind)
  | email
  | phone
  | street
  | city
  | state
  | postcode
  | date
  | url
  /-- `FREE_TEXT` -/
  | freeText
  /-- `KEEP` -/
  | keep
  /-- `OPAQUE` -/
  | unclassified
  deriving DecidableEq

/-- `BY_ATTRIBUTE` -/
def byAttribute : List (String × Kind) :=
  [("first_name", .name .first), ("given_name", .name .first), ("middle_name", .name .first),
    ("last_name", .name .last),
    ("nickname", .name .nick),
    ("name", .name .fullName), ("person_name", .name .fullName),
    ("primary_contact_name", .name .fullName),
    ("address", .email),
    ("number", .phone), ("e164", .phone), ("international", .phone), ("national", .phone),
    ("street", .street), ("street_line_1", .street), ("street_line_2", .street),
    ("city", .city), ("state", .state), ("zip", .postcode), ("postal_code", .postcode),
    ("birthdate", .date), ("anniversary", .date),
    ("avatar", .url), ("demographic_avatar_url", .url), ("remote_id", .unclassified),
    ("stripe_customer_identifier", .unclassified), ("login_identifier", .unclassified),
    ("medical_notes", .freeText), ("value", .freeText), ("config", .freeText),
    ("primary", .keep), ("blocked", .keep), ("location", .keep), ("child", .keep),
    ("status", .keep), ("grade", .keep), ("gender", .keep), ("membership", .keep),
    ("school_type", .keep), ("directory_status", .keep), ("passed_background_check", .keep),
    ("pending", .keep), ("household_role", .keep), ("member_count", .keep),
    ("data_type", .keep), ("slug", .keep), ("sequence", .keep), ("carrier", .keep),
    ("country_code", .keep), ("country_name", .keep), ("can_create_forms", .keep),
    ("can_email_lists", .keep), ("accounting_administrator", .keep),
    ("site_administrator", .keep), ("people_permissions", .keep),
    ("created_at", .keep), ("updated_at", .keep), ("inactivated_at", .keep),
    ("file_size", .keep), ("file_content_type", .keep),
    ("person_to_keep_id", .keep), ("person_to_remove_id", .keep),
    ("person_id", .keep), ("household_id", .keep), ("primary_contact_id", .keep),
    ("field_definition_id", .keep), ("primary_campus_id", .keep), ("gender_id", .keep),
    ("tab_id", .keep)]

/-- `kind_of` -/
def kindOf (name : String) : Kind :=
  (byAttribute.lookup (Http.lower (Http.trim name))).getD .unclassified

/-! ## Values -/

/-- Words to pick from. -/
structure Vocabulary where
  entries : List (List Char)
  nonempty : entries ≠ []

/-- The characters that regular expressions take for digits, and those that are letters. -/
structure Alphabet where
  /-- `\d` -/
  isDecimal : Char → Bool
  isLetter : Char → Bool
  not_decimal : ∀ c, isLetter c = true → isDecimal c = false

/-- One install's pseudonyms, with every vocabulary they are picked from. -/
structure Pseudonymiser extends Chooser, Alphabet where
  streetNames : Vocabulary
  streetTypes : Vocabulary
  cities : Vocabulary
  states : Vocabulary
  emailDomains : Vocabulary

/-- `_COUNTRY_CODE`: a leading `+` and its dialling code, with the white space before it. -/
def Alphabet.countryCode (a : Alphabet) (s : List Char) : List Char :=
  match s.dropWhile isSpace with
  | '+' :: rest =>
    let code := (rest.take 3).takeWhile a.isDecimal
    if code.isEmpty then [] else s.takeWhile isSpace ++ '+' :: code
  | _ => []

/-- A character that the time of day is made of. -/
def isTimeChar (c : Char) : Bool :=
  c.isDigit || c = ':' || c = '.' || c = '+' || c = '-' || c = 'Z'

/-- The year of a date, and the time that follows the day. -/
def Alphabet.dateParts (a : Alphabet) : List Char → Option (List Char × List Char)
  | y₁ :: y₂ :: y₃ :: y₄ :: '-' :: m₁ :: m₂ :: '-' :: d₁ :: d₂ :: tail =>
    if [y₁, y₂, y₃, y₄, m₁, m₂, d₁, d₂].all a.isDecimal &&
        (tail.isEmpty || tail.head? = some 'T' && tail.tail.all isTimeChar) then
      some ([y₁, y₂, y₃, y₄], tail)
    else none
  | _ => none

/-- An address with something on both sides of its one `@`. -/
def isAddress (s : List Char) : Bool :=
  s.count '@' = 1 && (s.splitOn '@').all fun part => !part.isEmpty

namespace Pseudonymiser

variable (p : Pseudonymiser)

/-- `digest`, of any kind of value -/
def digestAs (kind : String) (value : List Char) : ℕ :=
  p.mac (kind.toList ++ Char.ofNat 0 :: p.norm value)

/-- `fingerprint`: the first ten of the code's 64 hexadecimal digits, of the text as it is. -/
def fingerprint (value : List Char) : List Char :=
  let code := p.mac ("redacted-fingerprint".toList ++ Char.ofNat 0 :: value)
  (List.range 10).map fun i => Nat.digitChar (code / 16 ^ (63 - i) % 16)

def pickFrom (kind : String) (value : List Char) (vocabulary : Vocabulary) : List Char :=
  vocabulary.entries.get ⟨p.digestAs kind value % vocabulary.entries.length,
    Nat.mod_lt _ (List.length_pos_iff.mpr vocabulary.nonempty)⟩

def number (kind : String) (value : List Char) (low high : ℕ) : ℕ :=
  low + p.digestAs kind value % max 1 (high - low + 1)

def redacted (value : List Char) : List Char :=
  "«redacted:".toList ++ p.fingerprint value ++ "»".toList

/-- Each digit of a text, replaced by the one that its number among the digits stands for. -/
def replaceDigits (digit : ℕ → Char) : ℕ → List Char → List Char
  | _, [] => []
  | i, c :: s =>
    if p.isDecimal c then digit i :: replaceDigits digit (i + 1) s
    else c :: replaceDigits digit i s

/-- The digits that replace those of a text. -/
def digitOf (kind : String) (raw : List Char) (i : ℕ) : Char :=
  Nat.digitChar (p.number kind (raw ++ '#' :: Nat.toDigits 10 i) 0 9)

/-- `_email` -/
def email (v : List Char) : List Char :=
  let raw := strip v
  if !isAddress raw then p.redacted v
  else
    let part := raw.takeWhile (· ≠ '@')
    let person := Http.lower (String.ofList (p.first part ++ '.' :: p.last part))
    person.toList ++ Nat.toDigits 10 (p.number "email" raw 1 99) ++
      '@' :: p.pickFrom "email_domain" raw p.emailDomains

/-- `_phone` -/
def phone (raw : List Char) : List Char :=
  if !raw.any p.isDecimal then p.redacted raw
  else
    let head := p.countryCode raw
    head ++ p.replaceDigits (p.digitOf "phone" raw) 0 (raw.drop head.length)

/-- `_street` -/
def street (v : List Char) : List Char :=
  Nat.toDigits 10 (p.number "street" v 1 9999) ++ ' ' :: p.pickFrom "street_name" v p.streetNames ++
    ' ' :: p.pickFrom "street_type" v p.streetTypes

/-- `_postcode` -/
def postcode (raw : List Char) : List Char :=
  if !raw.any p.isDecimal then p.redacted raw
  else p.replaceDigits (p.digitOf "postcode" raw) 0 raw

/-- `_date` -/
def date (v : List Char) : List Char :=
  let raw := strip v
  match p.dateParts raw with
  | none => p.redacted v
  | some (year, tail) =>
    year ++ '-' :: Iso8601.pad2 (p.number "date" (raw ++ "#m".toList) 1 12) ++
      '-' :: Iso8601.pad2 (p.number "date" (raw ++ "#d".toList) 1 28) ++ tail

def avatar (v : List Char) : List Char :=
  "https://avatars.example/".toList ++
    List.leftpad 12 '0' (Nat.toDigits 10 (p.digestAs "url" v % 10 ^ 12))

/-- `_GENERATORS`, of a text that is neither kept nor redacted for its kind -/
def generatorOf : Kind → List Char → List Char
  | .name kind => p.generator kind
  | .email => p.email
  | .phone => p.phone
  | .street => p.street
  | .city => fun v => p.pickFrom "city" v p.cities
  | .state => fun v => p.pickFrom "state" v p.states
  | .postcode => p.postcode
  | .date => p.date
  | .url => p.avatar
  | .freeText | .unclassified => p.redacted
  | .keep => fun v => v

/-- `pseudonymise`, of a text of any kind -/
def text (kind : Kind) (value : String) : String :=
  if kind = .keep then value
  else if (strip value.toList).isEmpty then value
  else String.ofList (p.generatorOf kind value.toList)

/-- `value`: what is no text stays as it is. -/
def value (name : String) : Json → Json :=
  Json.mapText (p.text (kindOf name))

def attributes : Json → Json :=
  Json.mapMembers p.value

end Pseudonymiser

/-! ## Queries -/

/-- `_STRUCTURAL` -/
def structural : List String :=
  ["order", "include", "per_page", "offset", "page", "per-page"]

/-- `_is_structural` -/
def isStructural (key : String) : Bool :=
  structural.contains (Http.lower key) || "fields[".toList.isPrefixOf (Http.lower key).toList

def isBracket (c : Char) : Bool :=
  c = '[' || c = ']'

/-- What stands between the first brackets that have something between them. -/
def bracketed : List Char → Option (List Char)
  | [] => none
  | c :: s =>
    let inner := s.takeWhile fun c => !isBracket c
    if c = '[' && !inner.isEmpty && (s.dropWhile fun c => !isBracket c).head? = some ']' then
      some inner
    else bracketed s

/-- `_filtered_on` -/
def filteredOn (key : String) : String :=
  match bracketed key.toList with
  | some inner => String.ofList inner
  | none => key

example : filteredOn "where[created_at][gte]" = "created_at" := by decide

/-- `partition('?')`, where there is one: the path, and the parameters of the query. -/
def linkPath (url : String) : String :=
  (partition '?' url).1

def linkPairs (url : String) : List (String × String) :=
  parseQsl (partition '?' url).2.toList

namespace Pseudonymiser

variable (p : Pseudonymiser)

/-- `query`, of one parameter -/
def parameter (key raw : String) : String :=
  if isStructural key then raw else p.text (kindOf (filteredOn key)) raw

/-- `link`, of a link that is a text -/
def linkText (url : String) : String :=
  if url.toList.contains '?' then
    linkPath url ++ "?" ++
      urlencode (fun _ => false) ((linkPairs url).map fun pair => (pair.1, p.parameter pair.1 pair.2))
  else url

def link : Json → Json :=
  Json.mapText p.linkText

def links : Json → Json :=
  Json.mapMembers fun _ => p.link

/-! ## Documents -/

def resource : Json → Json :=
  Json.mapMembers fun key =>
    if key = "attributes" then p.attributes
    else if key = "links" then p.links
    else fun j => j

def document : Json → Json :=
  Json.mapMembers fun key =>
    if key = "data" then Json.mapObjects p.resource
    else if key = "included" then Json.mapItems p.resource
    else if key = "links" then p.links
    else fun j => j

end Pseudonymiser

end PcoMirror.Pseudonym
