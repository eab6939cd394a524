import Mathlib.Data.List.Forall2
import PcoMirror.Lib.Json

/-! What a function gives away: of two arguments that differ only where they may, the results are
the same exactly where what is given away is the same. -/

variable {α β γ : Type} {V W : α → α → Prop}

/-- Of arguments that `V` relates, `f` tells apart those that `W` does not relate. -/
def Discloses (f : α → β) (V W : α → α → Prop) : Prop :=
  ∀ ⦃a b⦄, V a b → (f a = f b ↔ W a b)

namespace Discloses

/-- What is left as it is gives all of itself away. -/
theorem unchanged (V : α → α → Prop) : Discloses (fun a : α => a) V Eq :=
  fun _ _ _ => Iff.rfl

/-- Nothing is lost to what can be read back. -/
theorem comp_injective {g : β → γ} (hg : Function.Injective g) {f : α → β} (h : Discloses f V W) :
    Discloses (fun a => g (f a)) V W := by
  intro a b hab
  rw [hg.eq_iff]
  exact h hab

theorem map {f : α → β} (h : Discloses f V W) :
    Discloses (List.map f) (List.Forall₂ V) (List.Forall₂ W) := by
  intro xs ys hxs
  induction hxs with
  | nil => simp
  | cons hab _ ih =>
      rw [List.map_cons, List.map_cons, List.cons_eq_cons, List.forall₂_cons, h hab, ih]

/-- What stands under a key, where the keys are given away. -/
theorem entry {κ : Type} {f : κ → α → β} {V W : κ → α → α → Prop}
    (h : ∀ key, Discloses (f key) (V key) (W key)) :
    Discloses (fun e : κ × α => (e.1, f e.1 e.2)) (fun e e' => e.1 = e'.1 ∧ V e.1 e.2 e'.2)
      (fun e e' => e.1 = e'.1 ∧ W e.1 e.2 e'.2) := by
  rintro ⟨key, a⟩ ⟨key', b⟩ ⟨hkey, hab⟩
  simp only at hkey hab ⊢
  subst hkey
  rw [Prod.mk.injEq]
  exact and_congr_right fun _ => h key hab

end Discloses

/-! ## Documents -/

namespace Json

def mapText (f : String → String) : Json → Json
  | str s => str (f s)
  | j => j

def mapItems (f : Json → Json) : Json → Json
  | arr items => arr (items.map f)
  | j => j

def mapMembers (f : String → Json → Json) : Json → Json
  | obj members => obj (members.map fun m => (m.1, f m.1 m.2))
  | j => j

/-- An object itself, or each item of a list. -/
def mapObjects (f : Json → Json) : Json → Json
  | obj members => f (obj members)
  | arr items => arr (items.map f)
  | j => j

/-- Two documents that may differ in their text. -/
inductive Texts (R : String → String → Prop) : Json → Json → Prop
  | text {s t : String} : R s t → Texts R (str s) (str t)
  | same (j : Json) : Texts R j j

/-- Two documents that may differ in the items of a list. -/
inductive Items (R : Json → Json → Prop) : Json → Json → Prop
  | items {xs ys : List Json} : List.Forall₂ R xs ys → Items R (arr xs) (arr ys)
  | same (j : Json) : Items R j j

/-- Two documents that may differ in what stands under the keys of an object. -/
inductive Members (R : String → Json → Json → Prop) : Json → Json → Prop
  | members {ms ns : List (String × Json)} :
      List.Forall₂ (fun m n => m.1 = n.1 ∧ R m.1 m.2 n.2) ms ns → Members R (obj ms) (obj ns)
  | same (j : Json) : Members R j j

/-- Two documents that may differ as objects, or in the items of a list. -/
inductive Objects (R : Json → Json → Prop) : Json → Json → Prop
  | object {ms ns : List (String × Json)} : R (obj ms) (obj ns) → Objects R (obj ms) (obj ns)
  | items {xs ys : List Json} : List.Forall₂ R xs ys → Objects R (arr xs) (arr ys)
  | same (j : Json) : Objects R j j

mutual

/-- Two documents that may differ in their texts, wherever these stand. -/
inductive Throughout (R : String → String → Prop) : Json → Json → Prop
  | text {s t : String} : R s t → Throughout R (str s) (str t)
  | items {xs ys : List Json} : ThroughoutItems R xs ys → Throughout R (arr xs) (arr ys)
  | members {ms ns : List (String × Json)} : ThroughoutMembers R ms ns →
      Throughout R (obj ms) (obj ns)
  | same (j : Json) : Throughout R j j

inductive ThroughoutItems (R : String → String → Prop) : List Json → List Json → Prop
  | nil : ThroughoutItems R [] []
  | cons {x y : Json} {xs ys : List Json} : Throughout R x y → ThroughoutItems R xs ys →
      ThroughoutItems R (x :: xs) (y :: ys)

inductive ThroughoutMembers (R : String → String → Prop) :
    List (String × Json) → List (String × Json) → Prop
  | nil : ThroughoutMembers R [] []
  | cons {x y : Json} {xs ys : List (String × Json)} (key : String) : Throughout R x y →
      ThroughoutMembers R xs ys → ThroughoutMembers R ((key, x) :: xs) ((key, y) :: ys)

end

/-- Where only texts are replaced, a document is given away but for its text. -/
theorem discloses_mapText {f : String → String} {V : Json → Json → Prop}
    {R : String → String → Prop} (h : ∀ s t, V (str s) (str t) → (f s = f t ↔ R s t)) :
    Discloses (mapText f) V (Texts R) := by
  intro a b hab
  constructor
  · intro heq
    cases a with
    | str s =>
        cases b with
        | str t => exact .text ((h s t hab).mp (str.inj heq))
        | _ => cases heq
    | _ =>
        cases b with
        | str t => cases heq
        | _ => exact Eq.subst (motive := Texts R _) heq (.same _)
  · intro hR
    cases hR with
    | text hst => exact congrArg str ((h _ _ hab).mpr hst)
    | same => rfl

theorem discloses_mapItems {f : Json → Json} {V W : Json → Json → Prop} (h : Discloses f V W) :
    Discloses (mapItems f) (Items V) (Items W) := by
  intro a b hab
  cases hab with
  | same => exact iff_of_true rfl (.same a)
  | items hxs =>
      constructor
      · intro heq
        exact .items ((h.map hxs).mp (arr.inj heq))
      · intro hW
        cases hW with
        | same => rfl
        | items hW => exact congrArg arr ((h.map hxs).mpr hW)

theorem discloses_mapMembers {f : String → Json → Json} {V W : String → Json → Json → Prop}
    (h : ∀ key, Discloses (f key) (V key) (W key)) :
    Discloses (mapMembers f) (Members V) (Members W) := by
  intro a b hab
  cases hab with
  | same => exact iff_of_true rfl (.same a)
  | members hms =>
      have hmap := (Discloses.entry h).map hms
      constructor
      · intro heq
        exact .members (hmap.mp (obj.inj heq))
      · intro hW
        cases hW with
        | same => rfl
        | members hW => exact congrArg obj (hmap.mpr hW)

theorem discloses_mapObjects {f : Json → Json} {V W : Json → Json → Prop} (h : Discloses f V W) :
    Discloses (mapObjects f) (Objects V) (Objects W) := by
  intro a b hab
  cases hab with
  | same => exact iff_of_true rfl (.same a)
  | object hms =>
      constructor
      · intro heq
        exact .object ((h hms).mp heq)
      · intro hW
        cases hW with
        | same => rfl
        | object hW => exact (h hms).mpr hW
  | items hxs =>
      constructor
      · intro heq
        exact .items ((h.map hxs).mp (arr.inj heq))
      · intro hW
        cases hW with
        | same => rfl
        | items hW => exact congrArg arr ((h.map hxs).mpr hW)

end Json
