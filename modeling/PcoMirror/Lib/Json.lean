import Mathlib.Data.List.Defs
import Mathlib.Data.String.Basic
import Mathlib.Tactic.SplitIfs

/-! JSON documents, read the way a Python dictionary and SQLite's JSON functions
read them. -/

/-- A parsed document. A number with a fraction or an exponent keeps its text. -/
inductive Json where
  | null
  | bool (b : Bool)
  | int (n : ℤ)
  | real (text : String)
  | str (s : String)
  | arr (items : List Json)
  | obj (members : List (String × Json))
  deriving Inhabited

namespace Json

mutual

/-- Equality of documents is decided member by member. -/
def decEq : (a b : Json) → Decidable (a = b)
  | null, null => isTrue rfl
  | bool a, bool b => decidable_of_iff (a = b) (by simp)
  | int a, int b => decidable_of_iff (a = b) (by simp)
  | real a, real b => decidable_of_iff (a = b) (by simp)
  | str a, str b => decidable_of_iff (a = b) (by simp)
  | arr a, arr b => @decidable_of_iff _ (a = b) (by simp) (decEqItems a b)
  | obj a, obj b => @decidable_of_iff _ (a = b) (by simp) (decEqMembers a b)
  | null, bool _ | null, int _ | null, real _ | null, str _ | null, arr _ | null, obj _
  | bool _, null | bool _, int _ | bool _, real _ | bool _, str _ | bool _, arr _ | bool _, obj _
  | int _, null | int _, bool _ | int _, real _ | int _, str _ | int _, arr _ | int _, obj _
  | real _, null | real _, bool _ | real _, int _ | real _, str _ | real _, arr _ | real _, obj _
  | str _, null | str _, bool _ | str _, int _ | str _, real _ | str _, arr _ | str _, obj _
  | arr _, null | arr _, bool _ | arr _, int _ | arr _, real _ | arr _, str _ | arr _, obj _
  | obj _, null | obj _, bool _ | obj _, int _ | obj _, real _ | obj _, str _ | obj _, arr _ =>
    isFalse nofun

def decEqItems : (xs ys : List Json) → Decidable (xs = ys)
  | [], [] => isTrue rfl
  | x :: xs, y :: ys =>
    @decidable_of_iff _ (x = y ∧ xs = ys) (by simp)
      (@instDecidableAnd _ _ (decEq x y) (decEqItems xs ys))
  | [], _ :: _ | _ :: _, [] => isFalse nofun

def decEqMembers : (xs ys : List (String × Json)) → Decidable (xs = ys)
  | [], [] => isTrue rfl
  | (k, x) :: xs, (l, y) :: ys =>
    @decidable_of_iff _ (k = l ∧ x = y ∧ xs = ys) (by simp [and_assoc])
      (@instDecidableAnd _ _ _ (@instDecidableAnd _ _ (decEq x y) (decEqMembers xs ys)))
  | [], _ :: _ | _ :: _, [] => isFalse nofun

end

instance : DecidableEq Json := decEq

/-! ## Members and paths -/

/-- The value an object holds under a key. -/
def member? (j : Json) (key : String) : Option Json :=
  match j with
  | obj members => members.lookup key
  | _ => none

/-- Follows object keys from the root of a document. -/
def at? (j : Json) : List String → Option Json
  | [] => some j
  | key :: path => (j.member? key).bind (·.at? path)

/-- Assigns a key of a member list, in place where the key is already there. -/
def assign (key : String) (value : Json) : List (String × Json) → List (String × Json)
  | [] => [(key, value)]
  | (k, v) :: rest => if k = key then (k, value) :: rest else (k, v) :: assign key value rest

theorem lookup_assign_of_ne {key other : String} (h : other ≠ key) (value : Json)
    (members : List (String × Json)) :
    (assign key value members).lookup other = members.lookup other := by
  have hne : (other == key) = false := by simpa using h
  induction members with
  | nil => simp [assign, List.lookup_cons, hne]
  | cons m members ih =>
      obtain ⟨k, v⟩ := m
      unfold assign
      split_ifs with hk
      · subst hk
        simp [List.lookup_cons, hne]
      · simp only [List.lookup_cons, ih]

theorem lookup_assign (key : String) (value : Json) (members : List (String × Json)) :
    (assign key value members).lookup key = some value := by
  induction members with
  | nil => simp [assign]
  | cons m members ih =>
      obtain ⟨k, v⟩ := m
      unfold assign
      split_ifs with hk
      · simp [hk]
      · have hne : (key == k) = false := by simpa using Ne.symm hk
        simp only [List.lookup_cons, hne, ih]

/-- Python's truth value of a decoded document. -/
def truthy : Json → Bool
  | null => false
  | bool b => b
  | int n => n != 0
  | real text => text != "0.0" && text != "-0.0"
  | str s => s != ""
  | arr items => !items.isEmpty
  | obj members => !members.isEmpty

/-! ## Text -/

/-- Four lower-case hexadecimal digits. -/
def hex4 (n : ℕ) : String :=
  String.ofList [Nat.digitChar (n / 4096 % 16), Nat.digitChar (n / 256 % 16),
    Nat.digitChar (n / 16 % 16), Nat.digitChar (n % 16)]

/-- One character of a JSON string, in ASCII. -/
def escapeChar (c : Char) : String :=
  let n := c.toNat
  if n = 0x22 then "\\\""
  else if n = 0x5c then "\\\\"
  else if n = 0x0a then "\\n"
  else if n = 0x0d then "\\r"
  else if n = 0x09 then "\\t"
  else if n = 0x08 then "\\b"
  else if n = 0x0c then "\\f"
  else if 0x20 ≤ n ∧ n ≤ 0x7e then c.toString
  else if n < 0x10000 then "\\u" ++ hex4 n
  else "\\u" ++ hex4 (0xd800 + (n - 0x10000) / 0x400) ++
    "\\u" ++ hex4 (0xdc00 + (n - 0x10000) % 0x400)

def renderString (s : String) : String :=
  "\"" ++ String.join (s.toList.map escapeChar) ++ "\""

mutual

/-- Compact JSON text, with no space after a separator. -/
def render : Json → String
  | null => "null"
  | bool b => if b then "true" else "false"
  | int n => toString n
  | real text => text
  | str s => renderString s
  | arr items => "[" ++ renderItems items ++ "]"
  | obj members => "\x7b" ++ renderMembers members ++ "\x7d"

def renderItems : List Json → String
  | [] => ""
  | [x] => render x
  | x :: y :: rest => render x ++ "," ++ renderItems (y :: rest)

def renderMembers : List (String × Json) → String
  | [] => ""
  | [(k, v)] => renderString k ++ ":" ++ render v
  | (k, v) :: kv :: rest =>
    renderString k ++ ":" ++ render v ++ "," ++ renderMembers (kv :: rest)

end

/-- The text SQLite's `->>` yields in a TEXT column; JSON null is SQL NULL. -/
def text? : Json → Option String
  | null => none
  | bool b => some (if b then "1" else "0")
  | int n => some (toString n)
  | real text => some text
  | str s => some s
  | j => some j.render

/-- `doc ->> path`, NULL where the path leads nowhere. -/
def textAt (j : Json) (path : List String) : Option String :=
  (j.at? path).bind text?

/-- Python's `str()` of a decoded value. -/
def pyStr : Json → String
  | null => "None"
  | bool b => if b then "True" else "False"
  | int n => toString n
  | real text => text
  | str s => s
  | j => j.render

/-- The key SQLite's `json_each` reports for an entry. -/
inductive EachKey where
  | label (key : String)
  | index (i : ℕ)
  deriving DecidableEq

/-- The keys of `json_each(doc, path)`: an object's labels, an array's positions,
and the last path label for the one row of a scalar. -/
def eachKeys (j : Json) (path : List String) : List EachKey :=
  match j.at? path with
  | none => []
  | some (obj members) => members.map fun m => .label m.1
  | some (arr items) => (List.range items.length).map .index
  | some _ => [.label (path.getLastD "")]

end Json
