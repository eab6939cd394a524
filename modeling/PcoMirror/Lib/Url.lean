import Mathlib.Data.String.Basic
import Mathlib.Data.Nat.Notation

/-! URLs, taken apart the way Python's `urllib.parse` does. -/

namespace Url

/-- The parts of a URL; what is missing is empty. -/
structure Parts where
  scheme : List Char
  netloc : List Char
  path : List Char
  query : List Char
  fragment : List Char
  deriving DecidableEq

/-- The text up to the first `c`, and what follows it where there is one. -/
def cut (c : Char) (text : List Char) : List Char × Option (List Char) :=
  match text.span (· ≠ c) with
  | (before, _ :: rest) => (before, some rest)
  | (before, []) => (before, none)

/-- Leading control characters and blanks go, and so does every tab and line break. -/
def strip (url : List Char) : List Char :=
  (url.dropWhile (·.toNat ≤ 0x20)).filter fun c => c ≠ '\t' && c ≠ '\r' && c ≠ '\n'

def isSchemeChar (c : Char) : Bool :=
  c.isAlphanum || c = '+' || c = '-' || c = '.'

/-- A scheme starts with a letter and ends at the first colon. -/
def splitScheme (url : List Char) : List Char × List Char :=
  match cut ':' url with
  | (c :: cs, some rest) =>
    if c.isAlpha && cs.all isSchemeChar then ((c :: cs).map Char.toLower, rest) else ([], url)
  | _ => ([], url)

/-- `_splitnetloc`, after two slashes. -/
def splitNetloc (url : List Char) : List Char × List Char :=
  match url with
  | '/' :: '/' :: rest => rest.span fun c => c ≠ '/' && c ≠ '?' && c ≠ '#'
  | _ => ([], url)

/-- `urlsplit`; `none` where it raises `ValueError`. Whether a bracketed host is an address, and
whether a host hides a delimiter behind its normal form, is what `accepts` says. -/
def urlsplit (accepts : List Char → Bool) (url : List Char) : Option Parts :=
  let (scheme, rest) := splitScheme (strip url)
  let (netloc, rest) := splitNetloc rest
  if netloc.contains '[' != netloc.contains ']' || !netloc.isEmpty && !accepts netloc then none
  else
    let (rest, fragment) := cut '#' rest
    let (path, query) := cut '?' rest
    some ⟨scheme, netloc, path, query.getD [], fragment.getD []⟩

/-- The schemes whose paths may carry parameters. -/
def usesParams : List String :=
  ["", "ftp", "hdl", "prospero", "http", "https", "shttp", "rtsp", "rtsps", "sip", "sips", "mms",
    "sftp", "tel"]

/-- The path without the parameters of its last segment. -/
def dropParams (path : List Char) : List Char :=
  let (last, dirs) := path.reverse.span (· ≠ '/')
  dirs.reverse ++ (cut ';' last.reverse).1

/-- `urlparse` -/
def urlparse (accepts : List Char → Bool) (url : List Char) : Option Parts :=
  (urlsplit accepts url).map fun parts =>
    if usesParams.contains (String.ofList parts.scheme) then
      { parts with path := dropParams parts.path }
    else parts

example : urlparse (fun _ => true) "https://a.b/c;d/e;f?g=h#i".toList =
    some ⟨"https".toList, "a.b".toList, "/c;d/e".toList, "g=h".toList, "i".toList⟩ := by decide

example : urlparse (fun _ => true) "https://[a.b/c".toList = none := by decide

end Url
