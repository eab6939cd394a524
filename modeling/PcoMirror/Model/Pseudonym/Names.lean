import Mathlib.Data.List.DropRight
import PcoMirror.Lib.Words

/-! Turning a real name into a believable fake one, reproducibly. -/

namespace PcoMirror.Pseudonym

/-- A character that `re.IGNORECASE` takes for a letter in lower case. -/
def sameLetter (letter c : Char) : Bool :=
  c.toLower = letter || (letter = 's' && c = Char.ofNat 0x17f)

/-- `Household`, as `re.IGNORECASE` reads it. -/
def isHousehold (word : List Char) : Bool :=
  word.length = 9 && (List.zipWith sameLetter "household".toList word).all id

/-- The names that one kind of name is picked from: each is a word, and none of them a suffix. -/
structure Pool where
  names : List (List Char)
  nonempty : names ≠ []
  isWord : ∀ name ∈ names, Text.IsWord name
  not_household : ∀ name ∈ names, isHousehold name = false

/-- One install's keyed selection: HMAC-SHA256 under its secret, as a number, with Python's
case folding and the vocabularies. -/
structure Chooser where
  mac : List Char → ℕ
  casefold : List Char → List Char
  firstNames : Pool
  lastNames : Pool
  nicknames : Pool

/-- Names that are replaced by a name; the others are put together from parts. -/
inductive NameKind where
  | first | last | nick | fullName | householdName
  deriving DecidableEq

def NameKind.text : NameKind → String
  | .first => "first"
  | .last => "last"
  | .nick => "nick"
  | .fullName => "full_name"
  | .householdName => "household_name"

namespace Chooser

variable (c : Chooser)

/-- `_norm`: the form two spellings of the same thing must agree on. -/
def norm (value : List Char) : List Char :=
  c.casefold (Text.joined (Text.words value))

def digest (kind : NameKind) (value : List Char) : ℕ :=
  c.mac (kind.text.toList ++ Char.ofNat 0 :: c.norm value)

def pick (kind : NameKind) (value : List Char) (pool : Pool) : List Char :=
  pool.names.get ⟨c.digest kind value % pool.names.length,
    Nat.mod_lt _ (List.length_pos_iff.mpr pool.nonempty)⟩

/-- `_first` -/
def first (v : List Char) : List Char :=
  c.pick .first v c.firstNames

/-- `_last` -/
def last (v : List Char) : List Char :=
  c.pick .last v c.lastNames

def nick (v : List Char) : List Char :=
  c.pick .nick v c.nicknames

end Chooser

/-- `_HOUSEHOLD_SUFFIX`, of a stripped text: what stands before the suffix, and the suffix with the
white space in front of it. A dot takes no line break. -/
def householdSuffix (s : List Char) : Option (List Char × List Char) :=
  let word := s.rtakeWhile fun c => !Text.isSpace c
  let rest := s.rdropWhile fun c => !Text.isSpace c
  let family := Text.rstrip Text.isSpace rest
  if isHousehold word && !rest.isEmpty && !family.contains '\n' then
    some (family, s.drop family.length)
  else none

/-- `_full_name` -/
def Chooser.fullName (c : Chooser) (v : List Char) : List Char :=
  match householdSuffix (Text.strip v) with
  | some (family, suffix) => c.last family ++ suffix
  | none =>
    match Text.words v with
    | [] => []
    | [word] => c.first word
    | word :: words => Text.joined (c.first word :: words.map c.last)

/-- `_GENERATORS`, of the names. -/
def Chooser.generator (c : Chooser) : NameKind → List Char → List Char
  | .first => c.first
  | .last => c.last
  | .nick => c.nick
  | .fullName | .householdName => c.fullName

/-- `pseudonymise`, of a text that is a name: a blank one stays as it is. -/
def pseudonymise (c : Chooser) (kind : NameKind) (value : String) : String :=
  if (Text.strip value.toList).isEmpty then value
  else String.ofList (c.generator kind value.toList)

end PcoMirror.Pseudonym
