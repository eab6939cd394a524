import PcoMirror.Lib.Headers

/-! Who may read the API plane from a browser: the policy, the validator it comes out of, the
headers it puts on an answer, and the answer to a preflight. -/

namespace PcoMirror.Cors

open Http

/-- Any origin. -/
def any : String := "*"

/-- What a browser sends for a page with no origin of its own. -/
def null : String := "null"

def supportedMethods : List String :=
  ["GET", "POST", "PATCH", "DELETE"]

def defaultHeaders : List String :=
  ["Authorization", "Content-Type"]

def defaultExpose : List String :=
  ["X-Mirror-Source", "Location"]

/-- Where a refusal says what it refused. -/
def diagnosticHeader : String := "X-Mirror-Cors"

/-- Request headers a browser may send without asking. -/
def safelistedRequestHeaders : List String :=
  ["accept", "accept-language", "content-language", "content-type", "range"]

/-- Headers an HTTP client library adds on its own account. -/
def clientCacheRequestHeaders : List String :=
  ["Cache-Control", "Pragma", "Expires", "If-None-Match", "If-Modified-Since"]

/-- What `allows_header` will not refuse, whatever the policy says. -/
def neverRefused : List String :=
  safelistedRequestHeaders ++ clientCacheRequestHeaders.map lower

/-! ## Origins -/

def isHostChar (c : Char) : Bool :=
  c.isAlphanum || c = '.' || c = '_' || c = '~' || c = '-'

def isHexChar (c : Char) : Bool :=
  c.isDigit || ('a' ≤ c && c ≤ 'f') || ('A' ≤ c && c ≤ 'F') || c = ':' || c = '.'

/-- `(?::[0-9]{1,5})?$` -/
def isPort : List Char → Bool
  | [] => true
  | c :: digits => c = ':' && !digits.isEmpty && digits.length ≤ 5 && digits.all Char.isDigit

/-- What follows `https?://`, where that is how the text starts. -/
def afterScheme (s : List Char) : Option (List Char) :=
  if "http://".toList.isPrefixOf s then some (s.drop 7)
  else if "https://".toList.isPrefixOf s then some (s.drop 8)
  else none

/-- `_ORIGIN_RE` -/
def isOrigin (s : String) : Bool :=
  match afterScheme s.toList with
  | none => false
  | some ('[' :: rest) =>
    let host := rest.takeWhile isHexChar
    match rest.drop host.length with
    | ']' :: port => !host.isEmpty && isPort port
    | _ => false
  | some rest =>
    let host := rest.takeWhile isHostChar
    !host.isEmpty && isPort (rest.drop host.length)

/-- `_PATTERN_RE` -/
def isPattern (s : String) : Bool :=
  match afterScheme s.toList with
  | some ('*' :: '.' :: rest) =>
    let host := rest.takeWhile isHostChar
    !host.isEmpty && isPort (rest.drop host.length)
  | _ => false

/-- `_normalise` -/
def normalise (origin : String) : String :=
  lower (trim origin)

/-- `partition("://")`: what stands before it, and what stands after it. -/
def partitionScheme : List Char → List Char × List Char
  | [] => ([], [])
  | c :: rest =>
    if "://".toList.isPrefixOf (c :: rest) then ([], rest.drop 2)
    else
      let (before, after) := partitionScheme rest
      (c :: before, after)

/-- `_matches` -/
def matchesPattern (pattern origin : String) : Bool :=
  let (scheme, hostport) := partitionScheme pattern.toList
  let (originScheme, originHostport) := partitionScheme origin.toList
  if pattern = origin then true
  else if !"*.".toList.isPrefixOf hostport then false
  else if originScheme ≠ scheme then false
  else
    let suffix := hostport.drop 1
    suffix.isSuffixOf originHostport && originHostport.length > suffix.length

example : matchesPattern "https://*.example.org" "https://a.b.example.org" = true := by decide

/-! ## The policy -/

/-- Who may read this service from a browser, and what they may send. -/
structure Policy where
  origins : List String := []
  methods : List String := supportedMethods
  headers : List String := defaultHeaders
  expose : List String := defaultExpose
  maxAge : ℕ := 600
  allowCredentials : Bool := false
  deriving DecidableEq

namespace Policy

variable (policy : Policy)

def enabled : Bool :=
  !policy.origins.isEmpty

def anyOrigin : Bool :=
  any ∈ policy.origins

/-- Whether the response depends on which origin asked. -/
def variesByOrigin : Bool :=
  !policy.anyOrigin || policy.allowCredentials

def allowsOrigin (origin : Option String) : Bool :=
  let candidate := normalise (origin.getD "")
  if candidate = "" then false
  -- Syntax first: an origin that is not one can never reach a response header.
  else if candidate ≠ null && !isOrigin candidate then false
  else if policy.anyOrigin then true
  else policy.origins.any (matchesPattern · candidate)

/-- The `Access-Control-Allow-Origin` value for an allowed origin. -/
def echo (origin : String) : String :=
  if policy.anyOrigin && !policy.allowCredentials then any else normalise origin

def allowsMethod (method : String) : Bool :=
  upper method ∈ policy.methods

def allowsHeader (name : String) : Bool :=
  let lowered := lower (trim name)
  if lowered = "" || lowered ∈ neverRefused then true
  else any ∈ policy.headers || lowered ∈ policy.headers.map lower

/-- What `Access-Control-Allow-Headers` says. -/
def advertisedHeaders : List String :=
  if any ∈ policy.headers then [any]
  else policy.headers ++
    clientCacheRequestHeaders.filter fun h => lower h ∉ policy.headers.map lower

/-- Which of an `Access-Control-Request-Headers` list the policy will not take. -/
def refusedHeaders (asked : String) : List String :=
  (items asked).filter fun name => !policy.allowsHeader name

end Policy

/-! ## The validator -/

/-- A comma-separated text, or a sequence. -/
inductive Listish where
  | none
  | text (value : String)
  | sequence (values : List String)

/-- `_listish` -/
def Listish.items : Listish → List String
  | .none => []
  | .text value => Http.items value
  | .sequence values => (values.map trim).filter (· ≠ "")

/-- What `build` refuses. -/
inductive Malformed where
  | origin (value : String)
  | anyBesideOrigins
  | methods (unsupported : List String)
  | maxAge (value : String)
  | negativeMaxAge
  | credentialsWithAny (field : String)
  deriving DecidableEq

/-- `_pattern`: one configured origin, validated. -/
def pattern (raw : String) : Except Malformed String :=
  let value := trim raw
  let folded := lower value
  if value = any || folded = null then .ok folded
  else if isOrigin folded || isPattern folded then .ok folded
  else .error (.origin value)

structure Settings where
  origins : Listish := .none
  methods : Listish := .none
  headers : Listish := .none
  expose : Listish := .none
  maxAge : Option String := none
  allowCredentials : Bool := false

/-- `or`, between lists. -/
def orElse (given default : List String) : List String :=
  if given.isEmpty then default else given

/-- `build`: one set of values, validated into a policy. -/
def build (settings : Settings) : Except Malformed Policy := do
  if settings.origins.items.isEmpty then return {}
  let allowed := (← settings.origins.items.mapM pattern).eraseDups
  if any ∈ allowed ∧ allowed.length > 1 then throw .anyBesideOrigins
  let verbs := orElse (settings.methods.items.map upper).eraseDups supportedMethods
  let unsupported := verbs.filter (· ∉ supportedMethods)
  if unsupported ≠ [] then throw (.methods unsupported)
  let sends := orElse settings.headers.items.eraseDups defaultHeaders
  let reads := match settings.expose with
    | .none => defaultExpose
    | expose => expose.items.eraseDups
  let seconds ← match settings.maxAge.map trim with
    | none | some "" => pure 600
    | some value => match Text.int? value.toList with
      | none => throw (.maxAge value)
      | some seconds => if seconds < 0 then throw .negativeMaxAge else pure seconds.toNat
  if settings.allowCredentials then
    if any ∈ allowed then throw (.credentialsWithAny "origins")
    if any ∈ sends then throw (.credentialsWithAny "headers")
    if any ∈ reads then throw (.credentialsWithAny "expose")
  return { origins := allowed, methods := verbs, headers := sends, expose := reads,
           maxAge := seconds, allowCredentials := settings.allowCredentials }

/-! ## The answers -/

/-- `_safe`: request text made fit for a response header. -/
def safe (value : String) (limit : ℕ) : String :=
  String.ofList ((value.toList.filter fun c => 0x20 ≤ c.toNat && c.toNat ≤ 0x7e).take limit)

/-- `repr`, of printable ASCII. -/
def repr (value : String) : String :=
  let cs := value.toList
  let quote := if '\'' ∈ cs ∧ '"' ∉ cs then '"' else '\''
  String.ofList (quote :: (cs.flatMap fun c =>
    if c = '\\' || c = quote then ['\\', c] else [c]) ++ [quote])

def whereOrigins : String :=
  "set the allowed origins at /admin/cors or in PCOMIRROR_CORS_ORIGINS"

def whereMethods : String :=
  "set the allowed methods at /admin/cors or in PCOMIRROR_CORS_METHODS"

def whereHeaders : String :=
  "set the allowed request headers at /admin/cors or in PCOMIRROR_CORS_HEADERS"

/-- `_explain` -/
def explain (headers : Headers) (reason : String) : Headers :=
  set diagnosticHeader (safe reason 300) headers

/-- `add_vary`: a token merged into the first `Vary` there is. -/
def addVary (token : String) : Headers → Headers
  | [] => [("Vary", token)]
  | (name, value) :: rest =>
    if lower name = "vary" then
      let present := (elements value).map lower
      if lower token ∉ present ∧ any ∉ present then (name, value ++ ", " ++ token) :: rest
      else (name, value) :: rest
    else (name, value) :: addVary token rest

/-- `attach`: the headers of an actual request. -/
def attach (headers : Headers) (policy : Policy) (origin : Option String) : Headers :=
  if !policy.enabled then headers
  else
    let headers := if policy.variesByOrigin then addVary "Origin" headers else headers
    if !policy.allowsOrigin origin then headers
    else
      let headers := set "Access-Control-Allow-Origin" (policy.echo (origin.getD "")) headers
      let headers := if policy.allowCredentials then
        set "Access-Control-Allow-Credentials" "true" headers else headers
      if policy.expose.isEmpty then headers
      else set "Access-Control-Expose-Headers" (join policy.expose) headers

/-- What a request says of where it comes from and what it asks. A server takes the blanks off the
ends of a field. -/
structure Environ where
  method : String
  origin : Option String := none
  requestMethod : Option String := none
  requestHeaders : Option String := none
  trimmed : ∀ asked, requestMethod = some asked → trim asked = asked

def isPreflight (environ : Environ) : Bool :=
  environ.method = "OPTIONS" && environ.origin.getD "" ≠ "" && environ.requestMethod.getD "" ≠ ""

def originReason (policy : Policy) (origin : String) : String :=
  if policy.enabled then
    "origin " ++ repr (safe origin 120) ++ " is not allowed: " ++ whereOrigins
  else "cross-origin access is off: " ++ whereOrigins

def methodReason (asked : String) : String :=
  "method " ++ safe asked 16 ++ " is not allowed: " ++ whereMethods

def headersReason (refused : List String) : String :=
  "header" ++ (if refused.length > 1 then "s" else "") ++ " " ++
    join ((refused.take 5).map (safe · 40)) ++ " " ++
    (if refused.length > 1 then "are" else "is") ++ " not allowed: " ++ whereHeaders

/-- `preflight`: the headers of the answer, which is always 200 and an empty object. -/
def preflight (policy : Policy) (environ : Environ) : Headers :=
  let origin := environ.origin.getD ""
  let askedMethod := upper (trim (environ.requestMethod.getD ""))
  let askedHeaders := environ.requestHeaders.getD ""
  let headers := attach [("Cache-Control", "no-store")] policy (some origin)
  if (headers.lookup "Access-Control-Allow-Origin").isNone then
    explain headers (originReason policy origin)
  else
    let headers := set "Access-Control-Allow-Methods" (join policy.methods) headers
    let headers := set "Access-Control-Allow-Headers" (join policy.advertisedHeaders) headers
    let headers := set "Access-Control-Max-Age" (toString policy.maxAge) headers
    let refused := policy.refusedHeaders askedHeaders
    if askedMethod ≠ "" && !policy.allowsMethod askedMethod then
      explain headers (methodReason askedMethod)
    else if refused ≠ [] then explain headers (headersReason refused)
    else headers

/-- The headers of the answer to a request on a path that is eligible: a preflight is answered
here, and what was routed gets its headers, failures too. -/
def respond (policy : Policy) (environ : Environ) (routed : Headers) : Headers :=
  if policy.enabled && isPreflight environ then preflight policy environ
  else if policy.enabled then attach routed policy environ.origin
  else routed

end PcoMirror.Cors
