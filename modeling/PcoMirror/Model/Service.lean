import PcoMirror.Model.ApiKeys
import PcoMirror.Model.Serving.Read

/-! The API plane as its callers meet it: a request is served with the scopes of the key it shows. -/

namespace PcoMirror

/-- A request on the API plane, but for who asks. -/
inductive ApiCall where
  | write (env : Env) (transport : Transport) (site : Site) (fuel : ℕ) (method : Mutation)
      (path : String) (body : Body)
  | read (env : Env) (transport : Transport) (site : Site) (u : Unicode) (fuel : ℕ)
      (path : String) (qs : Qs) (body : Body)

/-- `__call__`, for a caller with these scopes: how it ends, and what the process has become. -/
def ApiCall.serve (scopes : Except String (List String)) (w : World) :
    ApiCall → Except Fault Reply × Exchange
  | .write env transport site fuel method path body =>
    match (serveWrite env transport site fuel scopes method path body).run { world := w } with
    | .ok reply x => (.ok reply, x)
    | .error fault x => (.error fault, x)
  | .read env transport site u fuel path qs body =>
    match (serveRead env transport site u fuel scopes path qs body).run { world := w } with
    | .ok reply x => (.ok reply, x.toExchange)
    | .error fault x => (.error fault, x.toExchange)

/-- A request, with what its `Authorization` header says and the time it comes. -/
structure ApiRequest where
  call : ApiCall
  header : Option String
  now : String

/-- The mirror and the keys to it. -/
structure Service where
  world : World
  keys : List ApiKeys.ApiKey := []

/-- Something the mirror does of its own, something done with the keys, or a request that is
served. -/
inductive ServiceMove where
  | mirror (act : World → World)
  | keys (move : ApiKeys.Move)
  | ask (request : ApiRequest)

variable (hashKey : String → List UInt8) (allowAnonymous : Bool)

/-- What becomes of a request. -/
def Service.answer (s : Service) (request : ApiRequest) : Except Fault Reply × Exchange :=
  request.call.serve
    (ApiKeys.callerScopes hashKey allowAnonymous s.keys request.header request.now).1 s.world

def Service.step (s : Service) : ServiceMove → Service
  | .mirror act => { s with world := act s.world }
  | .keys move => { s with keys := ApiKeys.step hashKey s.keys move }
  | .ask request => {
      world := (s.answer hashKey allowAnonymous request).2.world
      keys := (ApiKeys.callerScopes hashKey allowAnonymous s.keys request.header request.now).2 }

end PcoMirror
