import Mathlib.Data.List.TakeDrop
import Mathlib.Data.List.TakeWhile
import PcoMirror.Lib.QueryString
import PcoMirror.Lib.Url

/-! Links to a server that names its resources by path: what a client sends of a link, and
what a WSGI server reads of it. -/

namespace Url

open Text

/-- What is not in ASCII is percent-encoded on the way. -/
def toAscii (text : List Char) : List Char :=
  text.flatMap fun c =>
    if isAscii c then [c] else (String.utf8EncodeChar c).flatMap fun b => (percent b).toList

/-- What a client sends of a link: all but its fragment. -/
def sent (link : List Char) : List Char :=
  toAscii (link.takeWhile (· ≠ '#'))

/-- `unquote`, as Latin-1 -/
def latin1 (path : List Char) : List Char :=
  (unquoteBytes path).map fun b => Char.ofNat b.toNat

/-- `PATH_INFO` and `QUERY_STRING` -/
def environ (target : List Char) : List Char × List Char :=
  (latin1 (cut '?' target).1, (cut '?' target).2.getD [])

/-- A path that a link may hold as it is: nothing in it needs to be encoded, and nothing reads as if
it were. -/
def plainPath : List Char → Bool
  | [] => true
  | '%' :: a :: b :: rest =>
    !((hexValue a).isSome && (hexValue b).isSome) && plainPath (a :: b :: rest)
  | c :: rest => isAscii c && c ≠ '?' && c ≠ '#' && plainPath rest

example : environ (sent "/a b/%41?c=é#d".toList) = ("/a b/A".toList, "c=%C3%A9".toList) := by
  decide +kernel

/-! ## What comes back of a path -/

theorem hexValue_ascii {c : Char} (h : (hexValue c).isSome = true) : isAscii c = true := by
  have hle {d : Char} (hd : c ≤ d) (hlt : d.toNat < 0x80) : isAscii c = true := by
    rw [isAscii, decide_eq_true_eq]
    exact lt_of_le_of_lt (UInt32.le_iff_toNat_le.mp hd) hlt
  unfold hexValue at h
  split_ifs at h with hdigit hlower hupper
  · exact hle hdigit.2 (by decide)
  · exact hle hlower.2 (by decide)
  · exact hle hupper.2 (by decide)
  · cases h

theorem toAscii_cons_of_ascii {c : Char} (hc : isAscii c = true) (rest : List Char) :
    toAscii (c :: rest) = c :: toAscii rest := by
  rw [toAscii, List.flatMap_cons, if_pos hc]
  rfl

theorem latin1_cons {c : Char} (hc : isAscii c = true) (hne : c ≠ '%') (rest : List Char) :
    latin1 (toAscii (c :: rest)) = c :: latin1 (toAscii rest) := by
  rw [isAscii, decide_eq_true_eq] at hc
  rw [toAscii_cons_of_ascii (decide_eq_true hc), latin1, unquoteBytes_cons hne, List.map_cons,
    UInt8.toNat_ofNat', Nat.mod_eq_of_lt (by omega), Char.ofNat_toNat, latin1]

theorem utf8EncodeChar_of_not_ascii {c : Char} (hc : isAscii c = false) :
    ∃ a b bs, String.utf8EncodeChar c = a :: b :: bs ∧ ∀ x ∈ a :: b :: bs, 0x80 ≤ x.toNat := by
  rw [isAscii, decide_eq_false_iff_not] at hc
  have hlead : ¬ c.val.toNat ≤ 0x7f := fun h => hc (Nat.lt_succ_of_le h)
  rw [String.utf8EncodeChar]
  simp only [hlead, if_false]
  split_ifs
  all_goals
    refine ⟨_, _, _, rfl, ?_⟩
    simp only [List.forall_mem_cons, List.not_mem_nil, false_imp_iff, implies_true, and_true,
      UInt8.toNat_ofNat']
    omega

/-- A character outside ASCII comes back as its bytes, each a character outside ASCII. -/
theorem latin1_encoded {c : Char} (hc : isAscii c = false) (rest : List Char) :
    ∃ d e ds, latin1 (toAscii (c :: rest)) = d :: e :: ds ++ latin1 (toAscii rest) ∧
      ∀ x ∈ d :: e :: ds, isAscii x = false := by
  obtain ⟨a, b, bs, hbytes, hhigh⟩ := utf8EncodeChar_of_not_ascii hc
  refine ⟨Char.ofNat a.toNat, Char.ofNat b.toNat, bs.map fun b => Char.ofNat b.toNat, ?_, ?_⟩
  · rw [toAscii, List.flatMap_cons, if_neg (by simp [hc]), latin1, unquoteBytes_percents, hbytes,
      List.map_append, List.map_cons, List.map_cons]
    rfl
  · intro x hx
    obtain ⟨byte, hbyte, rfl⟩ : ∃ byte ∈ a :: b :: bs, x = Char.ofNat byte.toNat := by
      simpa [eq_comm] using hx
    have hlt : byte.toNat < 256 := byte.toNat_lt
    have hle := hhigh byte hbyte
    have hvalid : byte.toNat.isValidChar := .inl (by omega)
    have hread : (Char.ofNat byte.toNat).toNat = byte.toNat := by
      rw [Char.ofNat, dif_pos hvalid]
      rfl
    rw [isAscii, decide_eq_false_iff_not, hread]
    omega

/-- Two digits after a percent sign are read as one character. -/
theorem latin1_escape {a b : Char} (ha : (hexValue a).isSome = true)
    (hb : (hexValue b).isSome = true) (rest : List Char) :
    ∃ d, latin1 (toAscii ('%' :: a :: b :: rest)) = d :: latin1 (toAscii rest) := by
  obtain ⟨x, hx⟩ := Option.isSome_iff_exists.mp ha
  obtain ⟨y, hy⟩ := Option.isSome_iff_exists.mp hb
  refine ⟨Char.ofNat (UInt8.ofNat (16 * x + y)).toNat, ?_⟩
  rw [toAscii_cons_of_ascii (by decide), toAscii_cons_of_ascii (hexValue_ascii ha),
    toAscii_cons_of_ascii (hexValue_ascii hb), latin1, unquoteBytes]
  simp only [hx, hy]
  rfl

/-- What starts with a digit once it is in ASCII started with it before. -/
theorem of_toAscii_eq_cons {a : Char} (ha : (hexValue a).isSome = true) {text tail : List Char}
    (h : toAscii text = a :: tail) : ∃ rest, text = a :: rest ∧ toAscii rest = tail := by
  cases text with
  | nil => cases h
  | cons c rest =>
      cases hc : isAscii c with
      | true =>
          rw [toAscii_cons_of_ascii hc] at h
          obtain ⟨rfl, htail⟩ := List.cons_eq_cons.mp h
          exact ⟨rest, rfl, htail⟩
      | false =>
          obtain ⟨b, _, bs, hbytes, _⟩ := utf8EncodeChar_of_not_ascii hc
          rw [toAscii, List.flatMap_cons, if_neg (by simp [hc]), hbytes, List.flatMap_cons,
            toList_percent] at h
          obtain ⟨rfl, _⟩ := List.cons_eq_cons.mp h
          exact absurd ha (by decide)

/-- A percent sign without two digits behind it comes back as it is. -/
theorem latin1_percent {rest : List Char}
    (h : ∀ a b tail, rest = a :: b :: tail → ¬ ((hexValue a).isSome && (hexValue b).isSome) = true) :
    latin1 (toAscii ('%' :: rest)) = '%' :: latin1 (toAscii rest) := by
  rw [toAscii_cons_of_ascii (by decide), latin1, latin1]
  cases htext : toAscii rest with
  | nil => rfl
  | cons a tail => cases tail with
    | nil => rfl
    | cons b tail =>
        rw [unquoteBytes]
        cases ha : hexValue a with
        | none => rfl
        | some x => cases hb : hexValue b with
          | none => rfl
          | some y =>
              obtain ⟨rest', rfl, htail⟩ := of_toAscii_eq_cons (by simp [ha]) htext
              obtain ⟨rest', rfl, _⟩ := of_toAscii_eq_cons (by simp [hb]) htail
              exact absurd (h a b rest' rfl) (by simp [ha, hb])

/-! ## Paths that come back -/

/-- How the first character of a text comes back. -/
inductive Echoed (c : Char) (rest : List Char) : Prop where
  | kept (hascii : isAscii c = true)
      (hread : latin1 (toAscii (c :: rest)) = c :: latin1 (toAscii rest))
      (hplain : plainPath (c :: rest) = (c ≠ '?' && c ≠ '#' && plainPath rest))
  | escape (a b d : Char) (tail : List Char) (htext : c :: rest = '%' :: a :: b :: tail)
      (ha : isAscii a = true) (hb : isAscii b = true)
      (hread : latin1 (toAscii (c :: rest)) = d :: latin1 (toAscii tail))
      (hplain : plainPath (c :: rest) = false)
  | encoded (d e : Char) (ds : List Char) (hc : isAscii c = false)
      (hread : latin1 (toAscii (c :: rest)) = d :: e :: ds ++ latin1 (toAscii rest))
      (hds : ∀ x ∈ d :: e :: ds, isAscii x = false) (hplain : plainPath (c :: rest) = false)

theorem plainPath_cons {c : Char} {rest : List Char}
    (h : ∀ a b tail, c = '%' → rest = a :: b :: tail →
      ¬ ((hexValue a).isSome && (hexValue b).isSome) = true) :
    plainPath (c :: rest) = (isAscii c && c ≠ '?' && c ≠ '#' && plainPath rest) := by
  by_cases hc : c = '%'
  · subst hc
    cases rest with
    | nil => rfl
    | cons a rest => cases rest with
      | nil => rfl
      | cons b tail =>
          rw [plainPath, Bool.eq_false_iff.mpr (h a b tail rfl rfl)]
          rfl
  · rw [plainPath]
    rintro _ _ _ rfl
    exact absurd rfl hc

theorem echoed (c : Char) (rest : List Char) : Echoed c rest := by
  by_cases hescape : ∃ a b tail, c = '%' ∧ rest = a :: b :: tail ∧
      ((hexValue a).isSome && (hexValue b).isSome) = true
  · obtain ⟨a, b, tail, rfl, rfl, hdigits⟩ := hescape
    obtain ⟨ha, hb⟩ := Bool.and_eq_true_iff.mp hdigits
    obtain ⟨d, hread⟩ := latin1_escape ha hb tail
    exact .escape a b d tail rfl (hexValue_ascii ha) (hexValue_ascii hb) hread
      (by rw [plainPath, hdigits]; rfl)
  · have hpercent : ∀ a b tail, c = '%' → rest = a :: b :: tail →
        ¬ ((hexValue a).isSome && (hexValue b).isSome) = true :=
      fun a b tail hc hrest hdigits => hescape ⟨a, b, tail, hc, hrest, hdigits⟩
    cases hc : isAscii c with
    | true =>
        refine .kept hc ?_ (by rw [plainPath_cons hpercent, hc, Bool.true_and])
        by_cases hsign : c = '%'
        · subst hsign
          exact latin1_percent fun a b tail => hpercent a b tail rfl
        · exact latin1_cons hc hsign rest
    | false =>
        obtain ⟨d, e, ds, hread, hds⟩ := latin1_encoded hc rest
        exact .encoded d e ds hc hread hds (by rw [plainPath_cons hpercent, hc]; rfl)

/-- What is read is never the text itself and, before it, more in ASCII. -/
theorem latin1_ne_ahead {n : ℕ} : ∀ (text ahead extra : List Char), text.length ≤ n →
    ahead ≠ [] → (∀ c ∈ ahead, isAscii c = true) →
    latin1 (toAscii text) ≠ ahead ++ (text ++ extra) := by
  induction n with
  | zero =>
      intro text ahead extra hle hne _ heq
      obtain rfl := List.length_eq_zero_iff.mp (Nat.le_zero.mp hle)
      obtain ⟨l, ahead, rfl⟩ := List.exists_cons_of_ne_nil hne
      cases heq
  | succ n ih =>
      intro text ahead extra hle hne hascii heq
      obtain ⟨l, ahead, rfl⟩ := List.exists_cons_of_ne_nil hne
      cases text with
      | nil => cases heq
      | cons c rest =>
          have hlength : rest.length ≤ n := Nat.le_of_succ_le_succ hle
          cases echoed c rest with
          | kept hc hread _ =>
              rw [hread, List.cons_append] at heq
              have htail := (List.cons_eq_cons.mp heq).2
              refine ih rest (ahead ++ [c]) extra hlength (by simp) ?_
                (by simpa using htail)
              intro x hx
              rcases List.mem_append.mp hx with hx | hx
              · exact hascii x (.tail _ hx)
              · rw [List.mem_singleton.mp hx]
                exact hc
          | escape a b d tail htext ha hb hread _ =>
              rw [hread, htext] at heq
              have htail := (List.cons_eq_cons.mp heq).2
              rw [(List.cons_eq_cons.mp htext).2] at hlength
              refine ih tail (ahead ++ ['%', a, b]) extra
                (by simp only [List.length_cons] at hlength; omega) (by simp) ?_
                (by simpa using htail)
              intro x hx
              rcases List.mem_append.mp hx with hx | hx
              · exact hascii x (.tail _ hx)
              · simp only [List.mem_cons, List.not_mem_nil, or_false] at hx
                rcases hx with rfl | rfl | rfl
                · decide
                · exact ha
                · exact hb
          | encoded d e ds _ hread hds _ =>
              rw [hread, List.cons_append, List.cons_append, List.cons_append] at heq
              rw [(List.cons_eq_cons.mp heq).1] at hds
              exact absurd (hascii l (.head _)) (by simp [hds l (.head _)])

/-- Once it is ahead outside ASCII, it stays so. -/
theorem append_latin1_ne {text ahead extra : List Char} (hne : ahead ≠ [])
    (hahead : ∀ c ∈ ahead, isAscii c = false) (hextra : ∀ c ∈ extra.head?, isAscii c = true) :
    ahead ++ latin1 (toAscii text) ≠ text ++ extra := by
  induction text generalizing ahead with
  | nil =>
      intro heq
      obtain ⟨l, ahead, rfl⟩ := List.exists_cons_of_ne_nil hne
      rw [List.nil_append, List.cons_append] at heq
      exact absurd (hextra l (by rw [← heq]; rfl)) (by simp [hahead l (.head _)])
  | cons c rest ih =>
      intro heq
      obtain ⟨l, ahead, rfl⟩ := List.exists_cons_of_ne_nil hne
      rw [List.cons_append, List.cons_append] at heq
      obtain ⟨rfl, heq⟩ := List.cons_eq_cons.mp heq
      cases echoed l rest with
      | kept hc _ _ => exact absurd hc (by simp [hahead l (.head _)])
      | escape _ _ _ _ htext _ _ _ _ =>
          rw [(List.cons_eq_cons.mp htext).1] at hahead
          exact absurd (hahead '%' (.head _)) (by decide)
      | encoded d e ds _ hread hds _ =>
          rw [hread, ← List.append_assoc] at heq
          refine ih (by simp) ?_ heq
          intro x hx
          rcases List.mem_append.mp hx with hx | hx
          · exact hahead x (.tail _ hx)
          · exact hds x hx

/-- A text comes back, with nothing added that starts in ASCII, just when it is plain. -/
theorem latin1_eq_append {text extra : List Char} (hend : ∀ c ∈ text, c ≠ '?' ∧ c ≠ '#')
    (hextra : ∀ c ∈ extra.head?, isAscii c = true) :
    latin1 (toAscii text) = text ++ extra ↔ plainPath text = true ∧ extra = [] := by
  induction text with
  | nil =>
      rw [List.nil_append]
      exact ⟨fun heq => ⟨rfl, heq.symm⟩, fun h => h.2.symm⟩
  | cons c rest ih =>
      have hc := hend c (.head _)
      have ih := ih fun x hx => hend x (.tail _ hx)
      cases echoed c rest with
      | kept _ hread hplain => simpa [hread, hplain, hc] using ih
      | escape a b d tail htext ha hb hread hplain =>
          refine ⟨fun heq => ?_, fun h => by simp [hplain] at h⟩
          rw [hread, htext] at heq
          refine absurd (List.cons_eq_cons.mp heq).2
            (latin1_ne_ahead tail [a, b] extra (Nat.le_refl _) (by simp) ?_)
          simp [ha, hb]
      | encoded d e ds hascii hread hds hplain =>
          refine ⟨fun heq => ?_, fun h => by simp [hplain] at h⟩
          rw [hread] at heq
          refine absurd (List.cons_eq_cons.mp heq).2 (append_latin1_ne (by simp) ?_ hextra)
          exact fun x hx => hds x (.tail _ hx)

theorem plainPath_all {path : List Char} (h : plainPath path = true) :
    ∀ c ∈ path, isAscii c = true ∧ c ≠ '?' ∧ c ≠ '#' := by
  induction path with
  | nil => nofun
  | cons c rest ih =>
      cases echoed c rest with
      | kept hascii _ hplain =>
          simp only [hplain, Bool.and_eq_true, decide_eq_true_eq] at h
          exact List.forall_mem_cons.mpr ⟨⟨hascii, h.1⟩, ih h.2⟩
      | escape _ _ _ _ _ _ _ _ hplain => simp [hplain] at h
      | encoded _ _ _ _ _ _ hplain => simp [hplain] at h

/-! ## Links -/

theorem cut_eq (c : Char) (text : List Char) :
    (cut c text).1 = text.takeWhile (· ≠ c) ∧
      (cut c text).2.getD [] = (text.dropWhile (· ≠ c)).drop 1 := by
  rw [cut, List.span_eq_takeWhile_dropWhile]
  cases text.dropWhile (· ≠ c) <;> exact ⟨rfl, rfl⟩

theorem toAscii_of_ascii {text : List Char} (h : ∀ c ∈ text, isAscii c = true) :
    toAscii text = text := by
  induction text with
  | nil => rfl
  | cons c rest ih =>
      rw [toAscii_cons_of_ascii (h c (.head _)), ih fun x hx => h x (.tail _ hx)]

/-- Encoding a character adds no question mark. -/
theorem takeWhile_toAscii (text : List Char) :
    (toAscii text).takeWhile (· ≠ '?') = toAscii (text.takeWhile (· ≠ '?')) := by
  induction text with
  | nil => rfl
  | cons c rest ih =>
      cases hc : isAscii c with
      | true =>
          rw [toAscii_cons_of_ascii hc, List.takeWhile_cons, List.takeWhile_cons, ih]
          split_ifs
          · rw [toAscii_cons_of_ascii hc]
          · rfl
      | false =>
          have hne : c ≠ '?' := by
            rintro rfl
            exact absurd hc (by decide)
          have hmarks : ∀ x ∈ (String.utf8EncodeChar c).flatMap fun b => (percent b).toList,
              decide (x ≠ '?') = true := by
            intro x hx
            rw [decide_eq_true_eq]
            rintro rfl
            exact percents_plain _ (by decide) hx
          rw [List.takeWhile_cons_of_pos (by simpa using hne), toAscii, List.flatMap_cons,
            if_neg (by simp [hc]), List.takeWhile_append_of_pos hmarks, toAscii, List.flatMap_cons,
            if_neg (by simp [hc])]
          exact congrArg (_ ++ ·) ih

/-- The path of a link comes back just when it is plain. -/
theorem environ_path (path query : List Char) :
    (environ (sent (path ++ '?' :: query))).1 = path ↔ plainPath path = true := by
  let ends (c : Char) : Bool := decide (c ≠ '?' ∧ c ≠ '#')
  have hread : (environ (sent (path ++ '?' :: query))).1 =
      latin1 (toAscii (path.takeWhile ends)) := by
    rw [environ, (cut_eq _ _).1, sent, takeWhile_toAscii, List.takeWhile_takeWhile]
    simp only [decide_eq_true_eq]
    rw [List.takeWhile_append, List.takeWhile_cons_of_neg (by simp)]
    split_ifs with hwhole
    · rw [List.append_nil, List.IsPrefix.eq_of_length (List.takeWhile_prefix _) hwhole]
    · rfl
  have hend : ∀ c ∈ path.takeWhile ends, c ≠ '?' ∧ c ≠ '#' := by
    intro c hc
    simpa [ends] using List.mem_takeWhile_imp hc
  have hextra : ∀ c ∈ (path.dropWhile ends).head?, isAscii c = true := by
    intro c hc
    have hnot : ends c = false := by
      have := List.head?_dropWhile_not ends path
      rw [hc] at this
      exact this
    by_cases hmark : c = '?'
    · rw [hmark]
      decide
    · have hhash : c = '#' := by simpa [ends, hmark] using hnot
      rw [hhash]
      decide
  rw [hread]
  constructor
  · intro heq
    have hsplit := (latin1_eq_append hend hextra).mp
      (heq.trans List.takeWhile_append_dropWhile.symm)
    have hwhole : path.takeWhile ends = path := by
      conv_rhs => rw [← List.takeWhile_append_dropWhile (p := ends) (l := path), hsplit.2]
      rw [List.append_nil]
    exact hwhole ▸ hsplit.1
  · intro hplain
    have hwhole : path.takeWhile ends = path :=
      List.takeWhile_eq_self_iff.mpr fun c hc => by simpa [ends] using (plainPath_all hplain c hc).2
    have hback := (@latin1_eq_append _ [] hend nofun).mpr ⟨hwhole.symm ▸ hplain, rfl⟩
    rw [List.append_nil] at hback
    exact hback.trans hwhole

/-- Of a link with a plain path, the query comes back as well. -/
theorem environ_link {path query : List Char} (hplain : plainPath path = true)
    (hquery : ∀ c ∈ query, isAscii c = true ∧ c ≠ '#') :
    environ (sent (path ++ '?' :: query)) = (path, query) := by
  refine Prod.ext ((environ_path path query).mpr hplain) ?_
  have hpath := plainPath_all hplain
  have hsent : sent (path ++ '?' :: query) = path ++ '?' :: query := by
    have hwhole : ∀ c ∈ path ++ '?' :: query, isAscii c = true ∧ c ≠ '#' := by
      intro c hc
      rcases List.mem_append.mp hc with hc | hc
      · exact ⟨(hpath c hc).1, (hpath c hc).2.2⟩
      · rcases List.mem_cons.mp hc with rfl | hc
        · decide
        · exact hquery c hc
    rw [sent, List.takeWhile_eq_self_iff.mpr fun c hc => decide_eq_true (hwhole c hc).2,
      toAscii_of_ascii fun c hc => (hwhole c hc).1]
  rw [environ, hsent, (cut_eq _ _).2, List.dropWhile_append_of_pos,
    List.dropWhile_cons_of_neg (by simp), List.drop_one, List.tail_cons]
  exact fun c hc => decide_eq_true (hpath c hc).2.1

end Url
