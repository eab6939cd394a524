import PcoMirror.Model.Serving.Filter

/-! The order of a collection: whatever tokens are asked for, the id settles every tie, so no two
rows share a place. -/

namespace PcoMirror

theorem idLe_total (a b : String) : Sql.idLe a b = true ∨ Sql.idLe b a = true := by
  simp only [Sql.idLe, Bool.or_eq_true, Bool.and_eq_true, decide_eq_true_eq]
  rcases lt_trichotomy (Sql.castInteger a) (Sql.castInteger b) with h | h | h
  · exact .inl (.inl h)
  · rcases le_total a b with hle | hle
    · exact .inl (.inr ⟨h, hle⟩)
    · exact .inr (.inr ⟨h.symm, hle⟩)
  · exact .inr (.inl h)

theorem idLe_trans {a b c : String} (hab : Sql.idLe a b = true) (hbc : Sql.idLe b c = true) :
    Sql.idLe a c = true := by
  simp only [Sql.idLe, Bool.or_eq_true, Bool.and_eq_true, decide_eq_true_eq] at *
  rcases hab with hab | ⟨hab, hle⟩
  · rcases hbc with hbc | ⟨hbc, _⟩
    · exact .inl (hab.trans hbc)
    · exact .inl (hbc ▸ hab)
  · rcases hbc with hbc | ⟨hbc, hle'⟩
    · exact .inl (hab ▸ hbc)
    · exact .inr ⟨hab.trans hbc, hle.trans hle'⟩

theorem idLe_antisymm {a b : String} (hab : Sql.idLe a b = true) (hba : Sql.idLe b a = true) :
    a = b := by
  simp only [Sql.idLe, Bool.or_eq_true, Bool.and_eq_true, decide_eq_true_eq] at *
  rcases hab with hab | ⟨hab, hle⟩
  · rcases hba with hba | ⟨hba, _⟩ <;> omega
  · rcases hba with hba | ⟨_, hle'⟩
    · omega
    · exact le_antisymm hle hle'

variable {u : Unicode} {r : Res}

/-- What one token of `order` compares. -/
def OrderKey.ascending (u : Unicode) (r : Res) (key : OrderKey) (a b : Held) : Ordering :=
  if key.numeric then
    compareOn (fun held => (r.columnOf key.col held).map Sql.castInteger) a b
  else compareOn (fun held => (r.columnOf key.col held).map u.sortKey) a b

instance (key : OrderKey) : Std.TransCmp (key.ascending u r) := by
  obtain ⟨col, desc, numeric⟩ := key
  cases numeric with
  | true =>
      exact inferInstanceAs
        (Std.TransCmp (compareOn fun held => (r.columnOf col held).map Sql.castInteger))
  | false =>
      exact inferInstanceAs
        (Std.TransCmp (compareOn fun held => (r.columnOf col held).map u.sortKey))

theorem OrderKey.compare_eq (key : OrderKey) (a b : Held) :
    key.compare u r a b = if key.desc then key.ascending u r b a else key.ascending u r a b := by
  have hswap : key.ascending u r b a = (key.ascending u r a b).swap :=
    Std.OrientedCmp.eq_swap
  rw [hswap]
  rfl

instance (key : OrderKey) : Std.TransCmp (key.compare u r) := by
  have heq := funext fun a => funext (key.compare_eq (u := u) (r := r) a)
  rw [heq]
  cases key.desc with
  | true => exact @Std.TransCmp.opposite _ (key.ascending u r) _
  | false => exact inferInstanceAs (Std.TransCmp (key.ascending u r))

/-! ## Rows -/

theorem rowLe_total (keys : List OrderKey) (a b : Held) :
    rowLe u r keys a b = true ∨ rowLe u r keys b a = true := by
  induction keys with
  | nil => exact idLe_total a.1 b.1
  | cons key keys ih =>
      have hswap : key.compare u r b a = (key.compare u r a b).swap := Std.OrientedCmp.eq_swap
      simp only [rowLe]
      rw [hswap]
      cases key.compare u r a b with
      | lt => exact .inl rfl
      | gt => exact .inr rfl
      | eq => exact ih

theorem rowLe_trans {keys : List OrderKey} {a b c : Held} (hab : rowLe u r keys a b = true)
    (hbc : rowLe u r keys b c = true) : rowLe u r keys a c = true := by
  induction keys with
  | nil => exact idLe_trans hab hbc
  | cons key keys ih =>
      simp only [rowLe] at hab hbc ⊢
      cases h₁ : key.compare u r a b with
      | gt => simp [h₁] at hab
      | lt =>
          cases h₂ : key.compare u r b c with
          | gt => simp [h₂] at hbc
          | lt => rw [Std.TransCmp.lt_trans h₁ h₂]
          | eq => rw [Std.TransCmp.lt_of_lt_of_eq h₁ h₂]
      | eq =>
          cases h₂ : key.compare u r b c with
          | gt => simp [h₂] at hbc
          | lt => rw [Std.TransCmp.lt_of_eq_of_lt h₁ h₂]
          | eq =>
              rw [Std.TransCmp.eq_trans h₁ h₂]
              simp only [h₁] at hab
              simp only [h₂] at hbc
              exact ih hab hbc

/-- Rows that stand in the same place are one row. -/
theorem rowLe_antisymm {keys : List OrderKey} {a b : Held} (hab : rowLe u r keys a b = true)
    (hba : rowLe u r keys b a = true) : a.1 = b.1 := by
  induction keys with
  | nil => exact idLe_antisymm hab hba
  | cons key keys ih =>
      have hswap : key.compare u r b a = (key.compare u r a b).swap := Std.OrientedCmp.eq_swap
      simp only [rowLe] at hab hba
      rw [hswap] at hba
      cases h : key.compare u r a b with
      | lt => simp [h] at hba
      | gt => simp [h] at hab
      | eq =>
          simp only [h] at hab hba
          exact ih hab hba

instance (keys : List OrderKey) : Std.Total fun a b => rowLe u r keys a b = true :=
  ⟨rowLe_total keys⟩

instance (keys : List OrderKey) : IsTrans Held fun a b => rowLe u r keys a b = true :=
  ⟨fun _ _ _ => rowLe_trans⟩

theorem sortRows_perm (keys : List OrderKey) (rows : List Held) :
    (sortRows u r keys rows).Perm rows :=
  List.perm_insertionSort _ rows

end PcoMirror
