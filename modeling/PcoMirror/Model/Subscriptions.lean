import Mathlib.Data.List.Dedup
import PcoMirror.Model.Receiver

/-! What is shown of the webhook subscriptions, and which receivers raise the alarm. -/

namespace PcoMirror

/-- `CREDENTIAL_MIN_LEN` -/
def credentialMinLen : ℕ := 24

/-- `CREDENTIAL_BITS` -/
def credentialBits : ℕ := 100

/-- `token_is_credential`: long enough, and with `len * log2(distinct)` bits enough. -/
def tokenIsCredential (token : String) : Bool :=
  let chars := token.toList
  credentialMinLen ≤ chars.length && 2 ^ credentialBits ≤ chars.dedup.length ^ chars.length

/-- `trim(coalesce(authenticity_secret,'')) = ''` -/
def Subscription.blankInSql (sub : Subscription) : Bool :=
  (Text.sqlTrim sub.secret.toList).isEmpty

/-- A row of `listing`, which never holds the secret. -/
structure ListedSubscription where
  id : String
  eventName : String
  urlToken : String
  active : Bool
  lastEventAt : Option String
  unverified : Bool

def Subscription.listed (sub : Subscription) : ListedSubscription where
  id := sub.id
  eventName := sub.eventName
  urlToken := sub.urlToken
  active := sub.active
  lastEventAt := sub.lastEventAt
  unverified := sub.blankInSql

def World.listing (w : World) : List ListedSubscription :=
  (w.subscriptions.mergeSort fun s s' =>
    s.urlToken < s'.urlToken || (s.urlToken = s'.urlToken && s.eventName ≤ s'.eventName)).map
    Subscription.listed

/-- `unprotected_tokens`: the receivers that authenticate a delivery with nothing at all. -/
def World.unprotectedTokens (w : World) : List String :=
  let tokens := (w.subscriptions.filter fun s => s.active && s.blankInSql).map (·.urlToken)
  (tokens.dedup.mergeSort fun t t' => t ≤ t').filter fun token => !tokenIsCredential token

end PcoMirror
