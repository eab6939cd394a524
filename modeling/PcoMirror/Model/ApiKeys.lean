import PcoMirror.Lib.Headers
import PcoMirror.Lib.Iso8601
import PcoMirror.Model.Receiver

/-! The keys that apps show the mirror: minting one, reading it off a header, looking it up, and
revoking it. -/

namespace PcoMirror.ApiKeys

/-! ## What a header holds -/

/-- `TOKEN_PREFIX` -/
def tokenPrefix : String := "pcm"

/-- `PREFIX_LEN` -/
def prefixLen : ℕ := 8

/-- What six bits a digit of base64 stands for. -/
def base64Value (c : Char) : Option ℕ :=
  if 'A' ≤ c ∧ c ≤ 'Z' then some (c.toNat - 'A'.toNat)
  else if 'a' ≤ c ∧ c ≤ 'z' then some (c.toNat - 'a'.toNat + 26)
  else if '0' ≤ c ∧ c ≤ '9' then some (c.toNat - '0'.toNat + 52)
  else if c = '+' then some 62
  else if c = '/' then some 63
  else none

/-- `b64decode(s, validate=True)`: four digits are three bytes, and only the last four may be
padded. -/
def b64decode : List Char → Option (List UInt8)
  | [] => some []
  | [a, b, '=', '='] => do
    let a ← base64Value a
    let b ← base64Value b
    return [.ofNat (a * 4 + b / 16)]
  | [a, b, c, '='] => do
    let a ← base64Value a
    let b ← base64Value b
    let c ← base64Value c
    return [.ofNat (a * 4 + b / 16), .ofNat (b % 16 * 16 + c / 4)]
  | a :: b :: c :: d :: rest => do
    let a ← base64Value a
    let b ← base64Value b
    let c ← base64Value c
    let d ← base64Value d
    return .ofNat (a * 4 + b / 16) :: .ofNat (b % 16 * 16 + c / 4) :: .ofNat (c % 4 * 64 + d) ::
      (← b64decode rest)
  | _ => none

/-- `decode("utf-8")`, which refuses what is no text. -/
def utf8? (bytes : List UInt8) : Option String :=
  String.fromUTF8? ⟨bytes.toArray⟩

/-- Whether a text is meant to be a key. -/
def marked (s : String) : Bool :=
  (tokenPrefix ++ "_").toList.isPrefixOf s.toList

/-- A text that is not empty. -/
def nonempty (s : String) : Option String :=
  if s = "" then none else some s

/-- What a header holds for a key, once the white space around it is gone. -/
def tokenIn (value : String) : Option String :=
  let (scheme, rest) := Text.partition ' ' value
  if Http.lower scheme = "bearer" then nonempty (Http.trim rest)
  else if Http.lower scheme = "basic" then do
    let decoded ← utf8? (← b64decode (Http.trim rest).toList)
    let (user, password) := Text.partition ':' decoded
    [user, password].find? marked
  else if marked value then some value
  else none

/-- `bearer_token`: the key in an `Authorization` header, whichever way it came. -/
def bearerToken : Option String → Option String
  | none => none
  | some header => if header = "" then none else tokenIn (Http.trim header)

/-- The public half of a key, which its row is found by. -/
def publicHalf (key : String) : Option String :=
  match key.toList.splitOn '_' with
  | first :: second :: _ :: _ =>
    if first = tokenPrefix.toList ∧ second.length = prefixLen then some (String.ofList second)
    else none
  | _ => none

/-! ## Keys -/

/-- A row of `api_key`. -/
structure ApiKey where
  id : String
  publicHalf : String
  keyHash : List UInt8
  name : String
  scopes : String
  lastUsedAt : Option String := none
  disabledAt : Option String := none

def ApiKey.enabled (k : ApiKey) : Bool :=
  k.disabledAt.isNone

/-- `SCOPE_WRITE`, `SCOPE_PASSTHROUGH` and what reads everything: what an anonymous caller may do. -/
def allScopes : List String :=
  ["read:*", "write", "passthrough"]

/-- `parse_scopes` -/
def parseScopes (raw : String) : List String :=
  Http.items raw

/-- `secrets.token_hex` -/
def tokenHex {n : ℕ} (bytes : Vector UInt8 n) : String :=
  String.ofList (hexDigest bytes.toList)

/-- What `secrets` draws for a new key. -/
structure Draw where
  halves : Fin 10 → Vector UInt8 4
  secret : Vector UInt8 32
  id : Vector UInt8 8

/-- A public half no key has, out of ten that are drawn. -/
def freeHalf (keys : List ApiKey) (d : Draw) : Option String :=
  ((List.finRange 10).map fun i => tokenHex (d.halves i)).find? fun half =>
    !keys.any fun k => k.publicHalf = half

/-- The text of a key. -/
def keyOf (half : String) (d : Draw) : String :=
  tokenPrefix ++ "_" ++ half ++ "_" ++ tokenHex d.secret

-- `hash_key`, which is SHA-256.
variable (hashKey : String → List UInt8)

/-- `create`: the key, which is not kept, and the row that is. Where no public half is free, or the
id is taken, nothing is written. -/
def create (keys : List ApiKey) (d : Draw) (name scopes : String) : Option (String × ApiKey) := do
  let half ← freeHalf keys d
  let key := keyOf half d
  let id := tokenHex d.id
  if keys.any fun k => k.id = id then none
  else some (key, { id, publicHalf := half, keyHash := hashKey key, name, scopes })

/-- The row a key opens. -/
def find (keys : List ApiKey) (key : String) : Option ApiKey := do
  let half ← publicHalf key
  keys.find? fun k => k.publicHalf = half && k.enabled && k.keyHash = hashKey key

/-- `LAST_USED_RESOLUTION_S` -/
def lastUsedResolution : ℕ := 60

/-- `_touch` leaves a use that is recorded well enough alone. -/
def ApiKey.current (k : ApiKey) (now : String) : Bool :=
  match k.lastUsedAt.filter (· ≠ ""), Iso8601.minusSeconds now lastUsedResolution with
  | some last, some floor => floor ≤ last
  | _, _ => false

/-- `_touch` -/
def touch (keys : List ApiKey) (k : ApiKey) (now : String) : List ApiKey :=
  if k.current now then keys
  else keys.map fun k' => if k'.id = k.id then { k' with lastUsedAt := some now } else k'

/-- `authenticate`: the row of a valid credential, and the keys with the use recorded. -/
def authenticate (keys : List ApiKey) (header : Option String) (now : String) :
    Option ApiKey × List ApiKey :=
  match (bearerToken header).bind (find hashKey keys) with
  | some k => (some k, touch keys k now)
  | none => (none, keys)

/-- `any_enabled` -/
def anyEnabled (keys : List ApiKey) : Bool :=
  keys.any ApiKey.enabled

/-- `revoke`; it marks every row of the public half, and says whether one was enabled. -/
def revoke (keys : List ApiKey) (half now : String) : Bool × List ApiKey :=
  if keys.any fun k => k.publicHalf = half && k.enabled then
    (true, keys.map fun k => if k.publicHalf = half then { k with disabledAt := some now } else k)
  else (false, keys)

/-- What is done with the keys. -/
inductive Move where
  | create (d : Draw) (name scopes : String)
  | revoke (half now : String)
  | authenticate (header : Option String) (now : String)

def step (keys : List ApiKey) : Move → List ApiKey
  | .create d name scopes => keys ++ ((create hashKey keys d name scopes).map Prod.snd).toList
  | .revoke half now => (revoke keys half now).2
  | .authenticate header now => (authenticate hashKey keys header now).2

/-! ## The service -/

/-- `_authenticate` of the service: the caller's scopes, or what a 401 says. -/
def callerScopes (allowAnonymous : Bool) (keys : List ApiKey) (header : Option String)
    (now : String) : Except String (List String) × List ApiKey :=
  if allowAnonymous then (.ok allScopes, keys)
  else match authenticate hashKey keys header now with
    | (some k, keys) => (.ok (parseScopes k.scopes), keys)
    | (none, keys) =>
      (.error (if anyEnabled keys then "missing or invalid API key"
        else "no API keys configured — run `pcomirror create-api-key --name <app>`"), keys)

end PcoMirror.ApiKeys
