import Mathlib.Logic.Function.Basic
import PcoMirror.Lib.JsonText
import PcoMirror.Model.Cors

/-! The policy an operator stores, the environment's, and which of the two is in force: the page
wins, and the environment is the default. -/

namespace PcoMirror.Cors

open Http

/-- A text that may not be there. -/
def Listish.ofText : Option String → Listish
  | Option.none => .none
  | some value => .text value

/-- `_truthy`, of a text that may not be there. -/
def isTruthy (value : Option String) : Bool :=
  lower (trim (value.getD "")) ∈ ["1", "true", "yes", "on"]

/-- `from_env`: the default the operator page may override. -/
def fromEnv (env : String → Option String) : Except Malformed Policy :=
  build {
    origins := .ofText (env "PCOMIRROR_CORS_ORIGINS")
    methods := .ofText (env "PCOMIRROR_CORS_METHODS")
    headers := .ofText (env "PCOMIRROR_CORS_HEADERS")
    expose := .ofText (env "PCOMIRROR_CORS_EXPOSE_HEADERS")
    maxAge := env "PCOMIRROR_CORS_MAX_AGE"
    allowCredentials := isTruthy (env "PCOMIRROR_CORS_ALLOW_CREDENTIALS") }

/-- The fields of a policy, given to the validator. -/
def Policy.settings (policy : Policy) : Settings where
  origins := .sequence policy.origins
  methods := .sequence policy.methods
  headers := .sequence policy.headers
  expose := .sequence policy.expose
  maxAge := some (toString policy.maxAge)
  allowCredentials := policy.allowCredentials

/-! ## The stored text -/

/-- `asdict`, in the order of the names. -/
def Policy.members (policy : Policy) : List (String × Json) :=
  [("allow_credentials", .bool policy.allowCredentials),
    ("expose", .arr (policy.expose.map .str)),
    ("headers", .arr (policy.headers.map .str)),
    ("max_age", .int policy.maxAge),
    ("methods", .arr (policy.methods.map .str)),
    ("origins", .arr (policy.origins.map .str))]

/-- `encode` -/
def encode (policy : Policy) : String :=
  Json.dumps (.obj policy.members)

/-- A decoded value where a list is asked for. A number has no elements. -/
def Listish.ofJson : Json → Option Listish
  | .null => some .none
  | .str value => some (.text value)
  | .arr items => some (.sequence (items.map Json.pyStr))
  | .obj members => some (.sequence (members.map Prod.fst))
  | .bool _ | .int _ | .real _ => none

/-- `decode`: a stored policy, validated again, or nothing where that raises. -/
def decode (raw : String) : Option Policy :=
  match Json.loads raw with
  | some (.obj held) => do
    let get (field : String) : Json := (held.lookup field).getD .null
    let origins ← Listish.ofJson (get "origins")
    -- No origins is off, and then nothing else is looked at.
    if origins.items.isEmpty then return {}
    let methods ← Listish.ofJson (get "methods")
    let headers ← Listish.ofJson (get "headers")
    let expose ← Listish.ofJson ((held.lookup "expose").getD (.arr []))
    let maxAge := match get "max_age" with
      | .null => none
      | value => some value.pyStr
    (build { origins, methods, headers, expose, maxAge,
             allowCredentials := (get "allow_credentials").truthy }).toOption
  | _ => none

/-! ## The policy in force -/

/-- What `mirror_meta` holds under each key. -/
abbrev MirrorMeta := String → Option String

/-- Where an operator's policy is kept once they save one on the page. -/
def overrideKey : String := "cors_policy"

inductive Source where
  | environment
  | admin

/-- The policy in force, and where it came from. -/
structure Effective where
  policy : Policy
  source : Source
  default : Policy
  storedUnreadable : Bool

/-- `effective` -/
def effective (db : MirrorMeta) (default : Policy) : Effective :=
  match db overrideKey with
  | none => { policy := default, source := .environment, default, storedUnreadable := false }
  | some held =>
    match decode held with
    | none => { policy := default, source := .environment, default, storedUnreadable := true }
    | some stored => { policy := stored, source := .admin, default, storedUnreadable := false }

/-- `configure`: stores an operator's policy, or clears it back to the environment's. -/
def configure (db : MirrorMeta) (policy : Option Policy) : MirrorMeta :=
  Function.update db overrideKey (policy.map encode)

end PcoMirror.Cors
