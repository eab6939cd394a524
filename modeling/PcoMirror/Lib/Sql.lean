import Mathlib

/-! The part of SQLite the statements rest on: comparisons with NULL, text
functions, and tables with a primary key. -/

namespace Sql

/-! ## Values -/

/-- `a > b` holds only of two known values. -/
def gt (a b : Option String) : Bool :=
  match a, b with
  | some x, some y => decide (y < x)
  | _, _ => false

/-- `a >= b` holds only of two known values. -/
def ge (a b : Option String) : Bool :=
  match a, b with
  | some x, some y => decide (y ≤ x)
  | _, _ => false

@[simp] theorem gt_some (x y : String) : gt (some x) (some y) = true ↔ y < x := by
  simp [gt]

@[simp] theorem ge_some (x y : String) : ge (some x) (some y) = true ↔ y ≤ x := by
  simp [ge]

@[simp] theorem gt_none_left (b : Option String) : gt none b = false := rfl

@[simp] theorem gt_none_right (a : Option String) : gt a none = false := by
  cases a <;> rfl

@[simp] theorem ge_none_left (b : Option String) : ge none b = false := rfl

@[simp] theorem ge_none_right (a : Option String) : ge a none = false := by
  cases a <;> rfl

theorem gt_eq_true {a b : Option String} :
    gt a b = true ↔ ∃ x y, a = some x ∧ b = some y ∧ y < x := by
  cases a <;> cases b <;> simp

/-! ## Text functions -/

/-- `LIKE` on characters: `%` matches any run, `_` any one character, and letters
match without regard to ASCII case. -/
def likeChars : List Char → List Char → Bool
  | [], s => s.isEmpty
  | p :: ps, s =>
    if p = '%' then s.tails.any (likeChars ps)
    else match s with
      | [] => false
      | c :: cs => (p = '_' || p.toLower = c.toLower) && likeChars ps cs

def like (s pattern : String) : Bool :=
  likeChars pattern.toList s.toList

/-- `instr`: the 1-based position of the first occurrence, 0 when there is none. -/
def instrChars (s sub : List Char) : ℕ :=
  match s.tails.findIdx? (sub.isPrefixOf ·) with
  | some i => i + 1
  | none => 0

def instr (s sub : String) : ℕ :=
  instrChars s.toList sub.toList

/-- `substr(s, start)` for a start counted from 1. -/
def substr (s : String) (start : ℕ) : String :=
  String.ofList (s.toList.drop (start - 1))

/-- `substr(s, 1, length)`; a negative length takes nothing from the front. -/
def left (s : String) (length : ℤ) : String :=
  String.ofList (s.toList.take length.toNat)

/-- `CAST(s AS INTEGER)` of text: the longest integer prefix, held to 64 bits, and 0
without one. -/
def castInteger (s : String) : ℤ :=
  let body := s.toList.dropWhile Char.isWhitespace
  let digits (cs : List Char) : ℤ :=
    (cs.takeWhile Char.isDigit).foldl (fun n c => n * 10 + (c.toNat - '0'.toNat : ℕ)) 0
  let value := match body with
    | '-' :: cs => - digits cs
    | '+' :: cs => digits cs
    | cs => digits cs
  max (-2 ^ 63) (min value (2 ^ 63 - 1))

/-- `ORDER BY CAST(id AS INTEGER), id`. -/
def idLe (a b : String) : Bool :=
  castInteger a < castInteger b || (castInteger a = castInteger b && a ≤ b)

def sortIds (ids : List String) : List String :=
  ids.insertionSort fun a b => idLe a b

theorem mem_sortIds {id : String} {ids : List String} : id ∈ sortIds ids ↔ id ∈ ids :=
  List.mem_insertionSort _

/-! ## Tables -/

/-- A table with a text primary key: at most one row a key. -/
abbrev Table (α : Type) := AList (fun _ : String => α)

namespace Table

variable {α : Type}

/-- `UPDATE` without a `WHERE`: every row is rewritten in place. -/
def update (t : Table α) (f : String → α → α) : Table α where
  entries := t.entries.map (.map id f)
  nodupKeys := t.nodupKeys.map₂ f

/-- `SELECT id WHERE`: the keys of the rows a condition keeps. -/
def select (t : Table α) (p : String → α → Bool) : List String :=
  (t.entries.filter fun e => p e.1 e.2).map (·.1)

@[simp] theorem lookup_update (t : Table α) (f : String → α → α) (id : String) :
    (t.update f).lookup id = (t.lookup id).map (f id) := by
  exact List.dlookup_map₂ (f := f) id

/-- An `UPDATE` that rewrites no row. -/
theorem update_eq_self {t : Table α} {f : String → α → α}
    (h : ∀ id row, t.lookup id = some row → f id row = row) : t.update f = t := by
  have hentry : ∀ e ∈ t.entries, Sigma.map id f e = id e := by
    intro e he
    have hrow := h e.1 e.2 (AList.mem_lookup_iff.mpr he)
    rw [Sigma.map, hrow]
    rfl
  exact AList.ext ((List.map_congr_left hentry).trans (List.map_id _))

/-- A key is erased with the one row it has. -/
theorem entries_erase (t : Table α) (id : String) :
    (t.erase id).entries = t.entries.filter fun e => e.1 != id := by
  obtain ⟨entries, hnodup⟩ := t
  change entries.kerase id = _
  simp only
  induction entries with
  | nil => rfl
  | cons e entries ih =>
      rw [List.nodupKeys_cons] at hnodup
      by_cases he : e.1 = id
      · rw [List.kerase_cons_eq he.symm, List.filter_cons_of_neg (by simpa using he), eq_comm,
          List.filter_eq_self]
        intro e' he'
        have hkey : e'.1 ∈ entries.keys := List.mem_keys_of_mem he'
        exact bne_iff_ne.mpr fun heq => hnodup.1 (he.trans heq.symm ▸ hkey)
      · rw [List.kerase_cons_ne (Ne.symm he), List.filter_cons_of_pos (by simpa using he),
          ih hnodup.2]

/-- Writing one row moves none of the others. -/
theorem entries_insert_filter (t : Table α) (id : String) (row : α) :
    (t.insert id row).entries.filter (fun e => e.1 != id) =
      t.entries.filter fun e => e.1 != id := by
  rw [AList.entries_insert, List.filter_cons_of_neg (by simp)]
  change (t.erase id).entries.filter _ = _
  rw [entries_erase, List.filter_filter]
  simp

/-- A selection from which one id is left out. -/
theorem select_filter_ne (t : Table α) (p : String → α → Bool) (id : String) :
    (t.select p).filter (· != id) =
      ((t.entries.filter fun e => e.1 != id).filter fun e => p e.1 e.2).map (·.1) := by
  rw [select, List.filter_map, List.filter_filter, List.filter_filter]
  congr 2
  funext e
  exact Bool.and_comm _ _

theorem nodup_select (t : Table α) (p : String → α → Bool) : (t.select p).Nodup := by
  have hkeys : (t.entries.map Sigma.fst).Nodup := t.nodupKeys
  exact hkeys.sublist (List.filter_sublist.map _)

theorem mem_select {t : Table α} {p : String → α → Bool} {id : String} :
    id ∈ t.select p ↔ ∃ row, t.lookup id = some row ∧ p id row = true := by
  simp only [select, List.mem_map, List.mem_filter, Sigma.exists, exists_and_right, exists_eq_right]
  constructor
  · rintro ⟨row, hmem, hp⟩
    exact ⟨row, AList.mem_lookup_iff.mpr hmem, hp⟩
  · rintro ⟨row, hrow, hp⟩
    exact ⟨row, AList.mem_lookup_iff.mp hrow, hp⟩

end Table

end Sql
