import Mathlib.Data.List.DropRight
import PcoMirror.Lib.Text

/-! The words of a text: words that are joined are found again, and what becomes of them while a
text is typed. -/

namespace Text

variable {s t w : List Char} {ws ps qs : List (List Char)}

/-- Words with one space between them. -/
def joined (ws : List (List Char)) : List Char :=
  [' '].intercalate ws

@[simp] theorem joined_nil : joined [] = [] := rfl

@[simp] theorem joined_singleton (w : List Char) : joined [w] = w :=
  List.intercalate_singleton

theorem joined_cons (w : List Char) (h : ws ≠ []) : joined (w :: ws) = w ++ ' ' :: joined ws := by
  rw [joined, List.intercalate_cons_of_ne_nil h, joined, List.append_assoc, List.singleton_append]

/-! ## Finding words -/

theorem words_of_forall (hne : s ≠ []) (h : ∀ c ∈ s, isSpace c = false) : words s = [s] := by
  rw [words, List.splitOnP_eq_singleton h]
  simp [hne]

theorem words_append_cons (s t : List Char) {c : Char} (hc : isSpace c = true) :
    words (s ++ c :: t) = words s ++ words t := by
  rw [words, List.splitOnP_append_cons s t hc, List.filter_append]
  rfl

/-- A part between separators is a piece of the text. -/
theorem infix_of_mem_splitOnP {p : Char → Bool} (h : w ∈ s.splitOnP p) : w <:+: s := by
  have hpieces : ∃ first rest, s.splitOnP p = first :: rest ∧ first <+: s ∧
      ∀ w ∈ rest, w <:+: s := by
    clear h
    induction s with
    | nil => exact ⟨[], [], by simp, List.nil_prefix, nofun⟩
    | cons c s ih =>
        obtain ⟨first, rest, hsplit, hfirst, hrest⟩ := ih
        rw [List.splitOnP_cons_eq_if_modifyHead, hsplit]
        split_ifs
        · refine ⟨[], first :: rest, rfl, List.nil_prefix, fun w hw => ?_⟩
          rcases List.mem_cons.mp hw with rfl | hw
          · exact List.infix_cons hfirst.isInfix
          · exact List.infix_cons (hrest w hw)
        · exact ⟨c :: first, rest, rfl, List.prefix_cons_inj c |>.mpr hfirst,
            fun w hw => List.infix_cons (hrest w hw)⟩
  obtain ⟨first, rest, hsplit, hfirst, hrest⟩ := hpieces
  rw [hsplit] at h
  rcases List.mem_cons.mp h with rfl | h
  · exact hfirst.isInfix
  · exact hrest w h

theorem not_space_of_mem_splitOnP {p : Char → Bool} (h : w ∈ s.splitOnP p) :
    ∀ c ∈ w, p c = false := by
  induction s generalizing w with
  | nil =>
      obtain rfl : w = [] := by simpa using h
      exact nofun
  | cons c s ih =>
      rw [List.splitOnP_cons_eq_if_modifyHead] at h
      split_ifs at h with hc
      · rcases List.mem_cons.mp h with rfl | h
        · exact nofun
        · exact ih h
      · obtain ⟨first, rest, hsplit⟩ := List.exists_cons_of_ne_nil (List.splitOnP_ne_nil p s)
        rw [hsplit] at ih h
        rcases List.mem_cons.mp h with rfl | h
        · rw [List.forall_mem_cons]
          exact ⟨by simpa using hc, ih List.mem_cons_self⟩
        · exact ih (List.mem_cons_of_mem first h)

/-- Text that is a word. -/
structure IsWord (w : List Char) : Prop where
  ne_nil : w ≠ []
  not_space : ∀ c ∈ w, isSpace c = false

theorem isWord_of_mem_words (h : w ∈ words s) : IsWord w := by
  obtain ⟨hmem, hne⟩ := List.mem_filter.mp h
  exact ⟨by simpa using hne, not_space_of_mem_splitOnP hmem⟩

theorem infix_of_mem_words (h : w ∈ words s) : w <:+: s :=
  infix_of_mem_splitOnP (List.mem_of_mem_filter h)

/-- A text without words is blank. -/
theorem isSpace_of_words_eq_nil (h : words s = []) : ∀ c ∈ s, isSpace c = true := by
  induction s with
  | nil => exact nofun
  | cons c s ih =>
      by_cases hc : isSpace c = true
      · have hsplit : words (c :: s) = words s := words_append_cons [] s hc
        rw [List.forall_mem_cons]
        exact ⟨hc, ih (hsplit ▸ h)⟩
      · obtain ⟨first, rest, hfirst⟩ := List.exists_cons_of_ne_nil (List.splitOnP_ne_nil isSpace s)
        rw [words, List.splitOnP_cons_eq_if_modifyHead, if_neg hc, hfirst] at h
        cases h

/-- Words that are joined are found again. -/
theorem words_joined (h : ∀ w ∈ ws, IsWord w) : words (joined ws) = ws := by
  induction ws with
  | nil => rfl
  | cons w ws ih =>
      rw [List.forall_mem_cons] at h
      cases ws with
      | nil => rw [joined_singleton, words_of_forall h.1.ne_nil h.1.not_space]
      | cons w' ws =>
          rw [joined_cons w (List.cons_ne_nil w' ws), words_append_cons _ _ (by decide), ih h.2,
            words_of_forall h.1.ne_nil h.1.not_space, List.singleton_append]

/-- Words that are joined without a space between them are one word. -/
theorem eq_singleton_of_not_mem_joined (hne : ws ≠ []) (h : ' ' ∉ joined ws) : ∃ w, ws = [w] := by
  cases ws with
  | nil => exact absurd rfl hne
  | cons w ws =>
      cases ws with
      | nil => exact ⟨w, rfl⟩
      | cons w' ws =>
          rw [joined_cons w (List.cons_ne_nil w' ws)] at h
          exact absurd (List.mem_append_right w List.mem_cons_self) h

/-! ## Leading words -/

/-- Words that are the beginnings of the leading words of a text. -/
inductive Leads : (probe words : List (List Char)) → Prop
  | nil (words : List (List Char)) : Leads [] words
  | cons {p word : List Char} {probe words : List (List Char)} : p <+: word → Leads probe words →
      Leads (p :: probe) (word :: words)

theorem Leads.trans (h : Leads ps qs) (h' : Leads qs ws) : Leads ps ws := by
  induction h generalizing ws with
  | nil => exact .nil ws
  | cons hstarts _ ih =>
      cases h' with
      | cons hstarts' h' => exact .cons (hstarts.trans hstarts') (ih h')

theorem leads_iff : Leads ps ws ↔
    (ps.length ≤ ws.length && (ps.zip ws).all fun (p, w) => p.isPrefixOf w) = true := by
  induction ps generalizing ws with
  | nil => simp [Leads.nil]
  | cons p ps ih =>
      cases ws with
      | nil =>
          refine iff_of_false ?_ (by simp)
          rintro ⟨⟩
      | cons w ws =>
          have hsplit : Leads (p :: ps) (w :: ws) ↔ p <+: w ∧ Leads ps ws := by
            constructor
            · rintro (_ | ⟨hstarts, h⟩)
              exact ⟨hstarts, h⟩
            · exact fun h => .cons h.1 h.2
          rw [hsplit, ih]
          simp [and_left_comm]

/-! ## Typing -/

/-- The words of a text that is being typed: the last one may go on, and others may follow. -/
inductive Typed : (before after : List (List Char)) → Prop
  | nil (after : List (List Char)) : Typed [] after
  | last {a b : List Char} (rest : List (List Char)) : a <+: b → Typed [a] (b :: rest)
  | cons (word : List Char) {before after : List (List Char)} : Typed before after →
      Typed (word :: before) (word :: after)

theorem Typed.leads (h : Typed ps qs) : Leads ps qs := by
  induction h with
  | nil qs => exact .nil qs
  | last rest h => exact .cons h (.nil rest)
  | cons w _ ih => exact .cons List.prefix_rfl ih

theorem Typed.ne_nil (h : Typed ps qs) (hne : ps ≠ []) : qs ≠ [] := by
  cases h with
  | nil => exact absurd rfl hne
  | last rest _ => exact List.cons_ne_nil _ _
  | cons w _ => exact List.cons_ne_nil _ _

theorem Typed.joined_of_typed (h : Typed ps qs) : joined ps <+: joined qs := by
  have hhead : ∀ (w : List Char) (ws : List (List Char)), w <+: joined (w :: ws) := by
    intro w ws
    cases ws with
    | nil =>
        simp only [joined_singleton, List.prefix_rfl]
    | cons w' ws =>
        rw [joined_cons w (List.cons_ne_nil w' ws)]
        exact List.prefix_append _ _
  induction h with
  | nil => exact List.nil_prefix
  | last rest h =>
      rw [joined_singleton]
      exact h.trans (hhead _ rest)
  | @cons w ps qs h ih =>
      cases hps : ps with
      | nil =>
          rw [joined_singleton]
          exact hhead w qs
      | cons p ps' =>
          have hne : ps ≠ [] := hps ▸ List.cons_ne_nil p ps'
          rw [← hps, joined_cons w hne, joined_cons w (h.ne_nil hne)]
          exact (List.prefix_append_right_inj w).mpr (List.prefix_cons_inj ' ' |>.mpr ih)

theorem Typed.map (h : Typed ps qs) {f : List Char → List Char}
    (hf : ∀ a b, a <+: b → f a <+: f b) : Typed (ps.map f) (qs.map f) := by
  induction h with
  | nil qs => exact .nil _
  | last rest h => exact .last _ (hf _ _ h)
  | cons w _ ih => exact .cons _ ih

theorem Typed.modifyHead (h : Typed ps qs) (hne : ps ≠ []) (c : Char) :
    Typed (ps.modifyHead (c :: ·)) (qs.modifyHead (c :: ·)) := by
  cases h with
  | nil => exact absurd rfl hne
  | last rest h => exact .last rest (List.prefix_cons_inj c |>.mpr h)
  | cons w h => exact .cons (c :: w) h

theorem Typed.filter_ne_nil (h : Typed ps qs) :
    Typed (ps.filter (!·.isEmpty)) (qs.filter (!·.isEmpty)) := by
  induction h with
  | nil qs => exact .nil _
  | @last a b rest h =>
      cases a with
      | nil => exact .nil _
      | cons c a =>
          cases b with
          | nil => simp at h
          | cons d b => exact .last _ h
  | cons w _ ih =>
      cases w with
      | nil => exact ih
      | cons c w => exact .cons (c :: w) ih

theorem typed_words (h : s <+: t) : Typed (words s) (words t) := by
  obtain ⟨rest, rfl⟩ := h
  refine Typed.filter_ne_nil ?_
  induction s with
  | nil =>
      obtain ⟨first, others, hsplit⟩ := List.exists_cons_of_ne_nil (List.splitOnP_ne_nil isSpace rest)
      rw [List.nil_append, hsplit, List.splitOnP_nil]
      exact .last others List.nil_prefix
  | cons c s ih =>
      rw [List.cons_append, List.splitOnP_cons_eq_if_modifyHead,
        List.splitOnP_cons_eq_if_modifyHead]
      split_ifs
      · exact .cons [] ih
      · exact ih.modifyHead (List.splitOnP_ne_nil isSpace s) c

/-! ## Padding -/

theorem rdropWhile_append {α : Type*} {p : α → Bool} {xs ys : List α} (hys : ∀ y ∈ ys, p y = true)
    (hxs : ∀ h : xs ≠ [], ¬ p (xs.getLast h) = true) : (xs ++ ys).rdropWhile p = xs := by
  have hreverse : ∀ y ∈ ys.reverse, p y = true := fun y hy => hys y (List.mem_reverse.mp hy)
  rw [List.rdropWhile, List.reverse_append, List.dropWhile_append_of_pos hreverse]
  exact List.rdropWhile_eq_self_iff.mpr hxs

theorem rtakeWhile_append {α : Type*} {p : α → Bool} {xs ys : List α} (hys : ∀ y ∈ ys, p y = true)
    (hxs : ∀ h : xs ≠ [], ¬ p (xs.getLast h) = true) : (xs ++ ys).rtakeWhile p = ys := by
  have hsplit := List.rdropWhile_append_rtakeWhile (p := p) (l := xs ++ ys)
  rw [rdropWhile_append hys hxs] at hsplit
  exact List.append_cancel_left hsplit

/-- White space throughout. -/
def Blank (s : List Char) : Prop :=
  ∀ c ∈ s, isSpace c = true

theorem words_of_blank (h : Blank s) : words s = [] := by
  induction s with
  | nil => rfl
  | cons c s ih =>
      obtain ⟨hc, hs⟩ := List.forall_mem_cons.mp h
      exact (words_append_cons [] s hc).trans (ih hs)

theorem words_blank_append (h : Blank s) (t : List Char) : words (s ++ t) = words t := by
  induction s with
  | nil => rfl
  | cons c s ih =>
      obtain ⟨hc, hs⟩ := List.forall_mem_cons.mp h
      exact (words_append_cons [] (s ++ t) hc).trans (ih hs)

theorem words_append_blank (s : List Char) (h : Blank t) : words (s ++ t) = words s := by
  cases t with
  | nil => rw [List.append_nil]
  | cons c t =>
      obtain ⟨hc, ht⟩ := List.forall_mem_cons.mp h
      rw [words_append_cons s t hc, words_of_blank ht, List.append_nil]

/-- What follows a word is blank where the text has no other. -/
theorem exists_of_words_eq_singleton (h : words s = [w]) :
    ∃ before after, Blank before ∧ Blank after ∧ IsWord w ∧ s = before ++ (w ++ after) := by
  set rest := s.dropWhile isSpace with hrest
  have hbefore : Blank (s.takeWhile isSpace) := fun c hc => List.mem_takeWhile_imp hc
  have hs : s = s.takeWhile isSpace ++ rest := List.takeWhile_append_dropWhile.symm
  rw [hs, words_blank_append hbefore] at h
  set word := rest.takeWhile fun c => !isSpace c with hword
  have hsplit : rest = word ++ rest.dropWhile fun c => !isSpace c :=
    List.takeWhile_append_dropWhile.symm
  have hchars : ∀ c ∈ word, isSpace c = false := by
    intro c hc
    simpa using List.mem_takeWhile_imp hc
  have hne : word ≠ [] := by
    intro hnil
    cases hcons : rest with
    | nil =>
        rw [hcons] at h
        cases h
    | cons c rest' =>
        have hspace := List.head_dropWhile_not (p := isSpace) (l := s) (by simp [← hrest, hcons])
        simp only [← hrest, hcons, List.head_cons] at hspace
        simp [hword, hcons, hspace] at hnil
  have hafter : words rest = word :: words (rest.dropWhile fun c => !isSpace c) := by
    cases hcons : rest.dropWhile fun c => !isSpace c with
    | nil =>
        rw [hcons, List.append_nil] at hsplit
        rw [hsplit, words_of_forall hne hchars]
        rfl
    | cons c after =>
        have hspace := List.head_dropWhile_not (p := fun c => !isSpace c) (l := rest)
          (by simp [hcons])
        simp only [hcons, List.head_cons, Bool.not_eq_false'] at hspace
        conv_lhs => rw [hsplit, hcons, words_append_cons word after hspace,
          words_of_forall hne hchars]
        exact congrArg _ (words_append_cons [] after hspace).symm
  rw [h] at hafter
  obtain ⟨rfl, hnil⟩ := List.cons.inj hafter
  exact ⟨_, _, hbefore, isSpace_of_words_eq_nil hnil.symm, ⟨hne, hchars⟩, by rw [← hsplit]; exact hs⟩

/-- Text that begins and ends in a word. -/
structure Trimmed (s : List Char) : Prop where
  front : ∃ w rest, IsWord w ∧ s = w ++ rest
  back : ∃ rest w, IsWord w ∧ s = rest ++ w

theorem IsWord.trimmed (h : IsWord w) : Trimmed w :=
  ⟨⟨w, [], h, (List.append_nil w).symm⟩, ⟨[], w, h, rfl⟩⟩

theorem Trimmed.append (hs : Trimmed s) (ht : Trimmed t) (between : List Char) :
    Trimmed (s ++ (between ++ t)) := by
  obtain ⟨w, rest, hw, rfl⟩ := hs.front
  obtain ⟨rest', w', hw', rfl⟩ := ht.back
  exact ⟨⟨w, rest ++ (between ++ (rest' ++ w')), hw, by simp⟩,
    ⟨w ++ rest ++ between ++ rest', w', hw', by simp⟩⟩

theorem trimmed_joined (hne : ws ≠ []) (h : ∀ w ∈ ws, IsWord w) : Trimmed (joined ws) := by
  induction ws with
  | nil => exact absurd rfl hne
  | cons w ws ih =>
      obtain ⟨hw, hws⟩ := List.forall_mem_cons.mp h
      by_cases hlast : ws = []
      · rw [hlast, joined_singleton]
        exact hw.trimmed
      · rw [joined_cons w hlast]
        exact hw.trimmed.append (ih hlast hws) [' ']

theorem dropWhile_blank_append (h : Blank s) (hw : IsWord w) :
    (s ++ (w ++ t)).dropWhile isSpace = w ++ t := by
  rw [List.dropWhile_append_of_pos h]
  cases w with
  | nil => exact absurd rfl hw.ne_nil
  | cons c w => rw [List.cons_append, List.dropWhile_cons_of_neg (by simp [hw.not_space c])]

/-- Stripping takes the white space around a text that begins and ends in a word. -/
theorem Trimmed.strip_eq (h : Trimmed s) {before after : List Char} (hbefore : Blank before)
    (hafter : Blank after) : strip (before ++ (s ++ after)) = s := by
  obtain ⟨w, rest, hw, hfront⟩ := h.front
  obtain ⟨rest', w', hw', hback⟩ := h.back
  have hdrop : (before ++ (s ++ after)).dropWhile isSpace = s ++ after := by
    rw [hfront, List.append_assoc, dropWhile_blank_append hbefore hw]
  have hreverse : IsWord w'.reverse :=
    ⟨by simpa using hw'.ne_nil, fun c hc => hw'.not_space c (List.mem_reverse.mp hc)⟩
  rw [strip, hdrop, rstrip, hback, List.reverse_append, List.reverse_append,
    dropWhile_blank_append (fun c hc => hafter c (List.mem_reverse.mp hc)) hreverse]
  simp

theorem Trimmed.words_ne_nil (h : Trimmed s) : words s ≠ [] := by
  obtain ⟨w, rest, hw, rfl⟩ := h.front
  intro hnil
  obtain ⟨c, w, rfl⟩ := List.exists_cons_of_ne_nil hw.ne_nil
  have hspace := isSpace_of_words_eq_nil hnil c (by simp)
  rw [hw.not_space c List.mem_cons_self] at hspace
  cases hspace

end Text
