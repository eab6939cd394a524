import PcoMirror.Lib.Url
import PcoMirror.Model.World

/-! The URLs in what is served, pointed back at the mirror. -/

namespace PcoMirror

/-- What the serving code reads of its settings and of the libraries under it. -/
structure Site where
  /-- `pco_base_url` -/
  baseUrl : String
  /-- Whether a host passes the checks `urlsplit` makes on it. -/
  acceptsHost : List Char → Bool
  /-- What SQLite's JSON functions read in a text; `none` where it is malformed. -/
  readJson : String → Option Json

def Site.urlparse (site : Site) (url : String) : Except PyError Url.Parts :=
  match Url.urlparse site.acceptsHost url.toList with
  | some parts => .ok parts
  | none => .error .valueError

/-- `_hosts` -/
def Site.hosts (site : Site) : Except PyError (List String) := do
  let parsed ← site.urlparse site.baseUrl
  let canonical := "api.planningcenteronline.com"
  return if parsed.netloc.isEmpty then [canonical] else [canonical, String.ofList parsed.netloc]

def hasTwoSlashes (url : String) : Bool :=
  url.toList.tails.any (['/', '/'].isPrefixOf ·)

/-- `to_mirror_path`, of a text. -/
def Site.mirrorPath (site : Site) (url : String) : Except PyError String := do
  if !hasTwoSlashes url then return url
  let parsed ← site.urlparse url
  if !(← site.hosts).contains (String.ofList parsed.netloc) then return url
  let path := String.ofList parsed.path
  return if parsed.query.isEmpty then path else path ++ "?" ++ String.ofList parsed.query

/-- `to_mirror_path` -/
def Site.toMirrorPath (site : Site) : Json → Except PyError Json
  | .str url => return .str (← site.mirrorPath url)
  | j => return j

/-- One member of a `links` object; some are kept as they are. -/
def Site.rewriteLink (site : Site) (kept : String → Bool) (name : String) (v : Json) :
    Except PyError Json :=
  if kept name then .ok v else site.toMirrorPath v

def Site.rewriteLinks (site : Site) (kept : String → Bool) (links : List (String × Json)) :
    Except PyError (List (String × Json)) :=
  links.mapM fun e => return (e.1, ← site.rewriteLink kept e.1 e.2)

/-- Rewrites the `links` of an object, where it has an object there. -/
def Site.withLinks (site : Site) (kept : String → Bool) (members : List (String × Json)) :
    Except PyError (List (String × Json)) :=
  match members.lookup "links" with
  | some (.obj links) => return Json.assign "links" (.obj (← site.rewriteLinks kept links)) members
  | _ => return members

/-- One entry of `relationships`. -/
def Site.rewriteRelationship (site : Site) : Json → Except PyError Json
  | .obj rel => return .obj (← site.withLinks (fun _ => false) rel)
  | j => return j

/-- `rewrite_relationships` -/
def Site.rewriteRelationships (site : Site) (members : List (String × Json)) :
    Except PyError (List (String × Json)) :=
  match members.lookup "relationships" with
  | some (.obj rels) => do
    let rels ← rels.mapM fun e => return (e.1, ← site.rewriteRelationship e.2)
    return Json.assign "relationships" (.obj rels) members
  | _ => return members

/-- `rewrite_resource` -/
def Site.rewriteResource (site : Site) : Json → Except PyError Json
  | .obj members => do
    let members ← site.withLinks (· = "html") members
    return .obj (← site.rewriteRelationships members)
  | j => return j

/-- Rewrites each resource of a member that holds a list of them. -/
def Site.rewriteEach (site : Site) (key : String) (items : List Json)
    (members : List (String × Json)) : Except PyError (List (String × Json)) :=
  return Json.assign key (.arr (← items.mapM site.rewriteResource)) members

/-- Rewrites `data`, a record or a list of them. -/
def Site.rewriteData (site : Site) (members : List (String × Json)) :
    Except PyError (List (String × Json)) :=
  match members.lookup "data" with
  | some (.obj data) => return Json.assign "data" (← site.rewriteResource (.obj data)) members
  | some (.arr items) => site.rewriteEach "data" items members
  | _ => return members

/-- Whether Python can go through a value; what a text or an object yields is no resource. -/
def isIterable : Json → Bool
  | .arr _ | .obj _ | .str _ => true
  | _ => false

/-- Rewrites `included`, where it is truthy. -/
def Site.rewriteIncluded (site : Site) (members : List (String × Json)) :
    Except PyError (List (String × Json)) :=
  match members.lookup "included" with
  | some (.arr items) => site.rewriteEach "included" items members
  | some j => if j.truthy && !isIterable j then throw .typeError else return members
  | none => return members

/-- `rewrite_document` -/
def Site.rewriteDocument (site : Site) : Json → Except PyError Json
  | .obj members => do
    let members ← site.rewriteIncluded (← site.rewriteData members)
    return .obj (← site.withLinks (fun _ => false) members)
  | j => return j

end PcoMirror
