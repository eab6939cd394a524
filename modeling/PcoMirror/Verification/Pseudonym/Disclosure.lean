import PcoMirror.Model.Pseudonym.Document
import PcoMirror.Verification.Pseudonym.Names

/-! What reaches a report of the texts that pseudonyms stand for. -/

namespace PcoMirror.Pseudonym

open Text Json

variable {p : Pseudonymiser} {n : ℕ} {kind : Kind} {s t : List Char}

/-- The chooser is a constant. -/
def Pseudonymiser.constant (p : Pseudonymiser) (n : ℕ) : Pseudonymiser :=
  { p with mac := fun _ => n }

/-! ## Shapes -/

/-- One character for another: digits for digits and letters for letters. -/
def Alphabet.SameSign (a : Alphabet) (c d : Char) : Prop :=
  c = d ∨ a.isDecimal c = true ∧ a.isDecimal d = true ∨ a.isLetter c = true ∧ a.isLetter d = true

/-- Two texts of the shape that a kind keeps. -/
def Alphabet.Alike (a : Alphabet) : Kind → List Char → List Char → Prop
  | .name .fullName, s, t | .name .householdName, s, t =>
    (words s).length = (words t).length ∧
      (householdSuffix (strip s)).map (·.2) = (householdSuffix (strip t)).map (·.2)
  | .email, s, t => isAddress (strip s) = isAddress (strip t)
  | .phone, s, t => List.Forall₂ a.SameSign s t ∧ a.countryCode s = a.countryCode t
  | .postcode, s, t => List.Forall₂ a.SameSign s t
  | .date, s, t => a.dateParts (strip s) = a.dateParts (strip t)
  | .keep, s, t => s = t
  | _, _, _ => True

/-- What is blank stays blank. -/
def Alphabet.SameShape (a : Alphabet) (kind : Kind) (s t : String) : Prop :=
  ((strip s.toList).isEmpty = (strip t.toList).isEmpty) ∧ a.Alike kind s.toList t.toList

/-- The letters that stand among digits. -/
def Alphabet.lettersAmongDigits (a : Alphabet) (s : List Char) : List Char :=
  if s.any a.isDecimal then s.filter a.isLetter else []

/-- What of a text is copied beside its shape: white space where there is nothing else, and the
letters that stand among the digits of a phone number or a postcode. -/
def Alphabet.copied (a : Alphabet) (kind : Kind) (s : String) : List Char :=
  if kind = .keep then []
  else if (strip s.toList).isEmpty then s.toList
  else match kind with
    | .phone | .postcode => a.lettersAmongDigits s.toList
    | _ => []

/-! ## Digits -/

namespace Alphabet

variable {a : Alphabet}

theorem SameSign.isDecimal_eq {c d : Char} (h : a.SameSign c d) :
    a.isDecimal c = a.isDecimal d := by
  rcases h with rfl | ⟨hc, hd⟩ | ⟨hc, hd⟩
  · rfl
  · rw [hc, hd]
  · rw [a.not_decimal c hc, a.not_decimal d hd]

theorem any_isDecimal_eq (h : List.Forall₂ a.SameSign s t) :
    s.any a.isDecimal = t.any a.isDecimal := by
  induction h with
  | nil => rfl
  | cons hcd _ ih => rw [List.any_cons, List.any_cons, hcd.isDecimal_eq, ih]

/-- Without their digits, texts of one shape differ in their letters alone. -/
theorem map_digit_eq_iff (digit : Char) (h : List.Forall₂ a.SameSign s t) :
    (s.map fun c => if a.isDecimal c then digit else c) =
        (t.map fun c => if a.isDecimal c then digit else c) ↔
      s.filter a.isLetter = t.filter a.isLetter := by
  induction h with
  | nil => simp
  | @cons c d s t hcd _ ih =>
      rw [List.map_cons, List.map_cons, List.cons_eq_cons, ih]
      rcases hcd with rfl | ⟨hc, hd⟩ | ⟨hc, hd⟩
      · by_cases hc : a.isLetter c = true
        · simp [hc]
        · simp [hc]
      · have hc' : a.isLetter c = false := by
          by_contra hletter
          simp [a.not_decimal c (by simpa using hletter)] at hc
        have hd' : a.isLetter d = false := by
          by_contra hletter
          simp [a.not_decimal d (by simpa using hletter)] at hd
        simp [hc, hd, hc', hd']
      · simp [hc, hd, a.not_decimal c hc, a.not_decimal d hd]

theorem countryCode_prefix (s : List Char) : a.countryCode s <+: s := by
  rw [countryCode]
  split
  · rename_i rest hrest
    simp only
    split_ifs
    · exact List.nil_prefix
    · conv_rhs => rw [← List.takeWhile_append_dropWhile (p := isSpace) (l := s), hrest]
      rw [List.prefix_append_right_inj, List.prefix_cons_inj]
      exact (List.takeWhile_prefix _).trans (List.take_prefix 3 rest)
  · exact List.nil_prefix

end Alphabet

/-! ## Texts -/

namespace Pseudonymiser

theorem redacted_constant (s t : List Char) :
    (p.constant n).redacted s = (p.constant n).redacted t :=
  rfl

theorem fullName_constant (hlength : (words s).length = (words t).length)
    (hsuffix : (householdSuffix (strip s)).map (·.2) = (householdSuffix (strip t)).map (·.2)) :
    (p.constant n).fullName s = (p.constant n).fullName t := by
  have hlast : ∀ ws ws' : List (List Char), ws.length = ws'.length →
      ws.map (p.constant n).last = ws'.map (p.constant n).last := by
    intro ws ws' h
    refine List.ext_getElem (by simpa using h) fun i _ _ => ?_
    rw [List.getElem_map, List.getElem_map]
    rfl
  rw [Chooser.fullName, Chooser.fullName]
  cases hs : householdSuffix (strip s) with
  | some parts =>
      cases ht : householdSuffix (strip t) with
      | none => simp [hs, ht] at hsuffix
      | some parts' =>
          rw [hs, ht] at hsuffix
          exact congrArg ((p.constant n).last parts.1 ++ ·) (Option.some.inj hsuffix)
  | none =>
      cases ht : householdSuffix (strip t) with
      | some parts => simp [hs, ht] at hsuffix
      | none =>
          simp only
          cases hws : words s with
          | nil =>
              cases hwt : words t with
              | nil => rfl
              | cons w' ws' => simp [hws, hwt] at hlength
          | cons w ws =>
              cases hwt : words t with
              | nil => simp [hws, hwt] at hlength
              | cons w' ws' =>
                  rw [hws, hwt, List.length_cons, List.length_cons, Nat.add_right_cancel_iff]
                    at hlength
                  cases ws with
                  | nil =>
                      cases ws' with
                      | nil => rfl
                      | cons _ _ => cases hlength
                  | cons v vs =>
                      cases ws' with
                      | nil => cases hlength
                      | cons v' vs' =>
                          exact congrArg (fun rest => joined ((p.constant n).first w :: rest))
                            (hlast _ _ hlength)

theorem email_constant (h : isAddress (strip s) = isAddress (strip t)) :
    (p.constant n).email s = (p.constant n).email t := by
  rw [email, email]
  simp only [h]
  rfl

theorem date_constant (h : p.dateParts (strip s) = p.dateParts (strip t)) :
    (p.constant n).date s = (p.constant n).date t := by
  rw [date, date]
  rw [show (p.constant n).dateParts (strip s) = (p.constant n).dateParts (strip t) from h]
  rfl

theorem digitOf_constant (kind : String) (raw : List Char) (i : ℕ) :
    (p.constant n).digitOf kind raw i = Nat.digitChar (n % 10) := by
  simp [digitOf, number, digestAs, constant]

/-- Every digit becomes the same one. -/
theorem replaceDigits_constant (kind : String) (raw : List Char) (i : ℕ) (s : List Char) :
    (p.constant n).replaceDigits ((p.constant n).digitOf kind raw) i s =
      s.map fun c => if p.isDecimal c then Nat.digitChar (n % 10) else c := by
  induction s generalizing i with
  | nil => rfl
  | cons c s ih =>
      rw [replaceDigits, List.map_cons, ih, ih, digitOf_constant]
      change (if p.isDecimal c = true then _ else _) = _
      split_ifs
      · rfl
      · rfl

theorem any_constant (s : List Char) : s.any (p.constant n).isDecimal = s.any p.isDecimal :=
  rfl

theorem countryCode_constant (s : List Char) : (p.constant n).countryCode s = p.countryCode s :=
  rfl

/-- What two texts begin with alike does not tell them apart. -/
theorem filter_drop_eq_iff {head : List Char} (hs : head <+: s) (ht : head <+: t)
    {q : Char → Bool} : (s.drop head.length).filter q = (t.drop head.length).filter q ↔
      s.filter q = t.filter q := by
  obtain ⟨rest, rfl⟩ := hs
  obtain ⟨rest', rfl⟩ := ht
  simp

theorem postcode_constant_eq_iff (h : List.Forall₂ p.SameSign s t) :
    (p.constant n).postcode s = (p.constant n).postcode t ↔
      p.lettersAmongDigits s = p.lettersAmongDigits t := by
  have hany := Alphabet.any_isDecimal_eq h
  rw [Alphabet.lettersAmongDigits, Alphabet.lettersAmongDigits, ← hany, postcode, postcode, any_constant, any_constant, ← hany]
  by_cases hs : s.any p.isDecimal = true
  · simp only [hs, Bool.not_true, Bool.false_eq_true, if_false, if_true]
    rw [replaceDigits_constant, replaceDigits_constant, Alphabet.map_digit_eq_iff _ h]
  · simp only [hs, Bool.not_false, if_true, Bool.false_eq_true, if_false, iff_true]
    exact redacted_constant s t

theorem phone_constant_eq_iff (h : List.Forall₂ p.SameSign s t)
    (hcode : p.countryCode s = p.countryCode t) :
    (p.constant n).phone s = (p.constant n).phone t ↔
      p.lettersAmongDigits s = p.lettersAmongDigits t := by
  have hany := Alphabet.any_isDecimal_eq h
  rw [Alphabet.lettersAmongDigits, Alphabet.lettersAmongDigits, ← hany, phone, phone, any_constant, any_constant, ← hany]
  by_cases hs : s.any p.isDecimal = true
  · simp only [hs, Bool.not_true, Bool.false_eq_true, if_false, if_true]
    have hs' := Alphabet.countryCode_prefix (a := p.toAlphabet) s
    have ht' := hcode ▸ Alphabet.countryCode_prefix (a := p.toAlphabet) t
    rw [replaceDigits_constant, replaceDigits_constant, countryCode_constant, countryCode_constant,
      ← hcode, List.append_cancel_left_eq, Alphabet.map_digit_eq_iff _ (List.forall₂_drop _ h),
      filter_drop_eq_iff hs' ht']
  · simp only [hs, Bool.not_false, if_true, Bool.false_eq_true, if_false, iff_true]
    exact redacted_constant s t

/-- A constant choice tells texts of one shape apart by what is copied of them. -/
theorem text_constant_eq_iff {s t : String} (h : p.SameShape kind s t) :
    (p.constant n).text kind s = (p.constant n).text kind t ↔ p.copied kind s = p.copied kind t := by
  obtain ⟨hblank, halike⟩ := h
  unfold text Alphabet.copied
  rw [← hblank]
  by_cases hkind : kind = .keep
  · subst hkind
    simpa using String.toList_inj.mp halike
  · rw [if_neg hkind, if_neg hkind, if_neg hkind, if_neg hkind]
    by_cases hs : (strip s.toList).isEmpty = true
    · rw [if_pos hs, if_pos hs, if_pos hs, if_pos hs, String.toList_inj]
    · rw [if_neg hs, if_neg hs, if_neg hs, if_neg hs, String.ofList_inj]
      cases kind with
      | phone => exact phone_constant_eq_iff halike.1 halike.2
      | postcode => exact postcode_constant_eq_iff halike
      | keep => exact absurd rfl hkind
      | email => exact iff_of_true (email_constant halike) rfl
      | date => exact iff_of_true (date_constant halike) rfl
      | name kind =>
          cases kind with
          | fullName | householdName =>
              exact iff_of_true (fullName_constant halike.1 halike.2) rfl
          | first | last | nick => exact iff_of_true rfl rfl
      | street | city | state | url | freeText | unclassified => exact iff_of_true rfl rfl

end Pseudonymiser

/-! ## Links -/

namespace Alphabet

variable (a : Alphabet)

/-- What one parameter of a query may differ in: the value that it filters by. -/
def SameParameter (key raw raw' : String) : Prop :=
  if isStructural key then raw = raw' else a.SameShape (kindOf (filteredOn key)) raw raw'

def CopiedParameter (key raw raw' : String) : Prop :=
  if isStructural key then raw = raw'
  else a.copied (kindOf (filteredOn key)) raw = a.copied (kindOf (filteredOn key)) raw'

/-- Two links that differ only in what their queries filter by. -/
def SameLink (url url' : String) : Prop :=
  url = url' ∨
    (url.toList.contains '?' = true ∧ url'.toList.contains '?' = true) ∧
      linkPath url = linkPath url' ∧
      List.Forall₂ (fun x y => x.1 = y.1 ∧ a.SameParameter x.1 x.2 y.2)
        (linkPairs url) (linkPairs url')

/-- Two links with the same copied in the values of their queries. -/
def CopiedLink (url url' : String) : Prop :=
  List.Forall₂ (fun x y => x.1 = y.1 ∧ a.CopiedParameter x.1 x.2 y.2)
    (linkPairs url) (linkPairs url')

theorem CopiedLink.refl (url : String) : a.CopiedLink url url := by
  refine List.forall₂_same.mpr fun x _ => ⟨rfl, ?_⟩
  unfold CopiedParameter
  split_ifs
  · rfl
  · rfl

end Alphabet

namespace Pseudonymiser

theorem discloses_parameter (key : String) :
    Discloses ((p.constant n).parameter key) (p.SameParameter key) (p.CopiedParameter key) := by
  intro raw raw' h
  unfold Alphabet.SameParameter at h
  unfold parameter Alphabet.CopiedParameter
  split_ifs at h ⊢
  · rfl
  · exact text_constant_eq_iff h

theorem discloses_linkText :
    Discloses (p.constant n).linkText p.SameLink p.CopiedLink := by
  rintro url url' (rfl | ⟨⟨hurl, hurl'⟩, hpath, hpairs⟩)
  · exact iff_of_true rfl (Alphabet.CopiedLink.refl _ url)
  · have hplain : QuerySafe fun _ => false := by simp [QuerySafe]
    have hpair := Discloses.entry (discloses_parameter (p := p) (n := n))
    have hwritten := hpair.map.comp_injective (urlencode_injective hplain) hpairs
    rw [linkText, linkText, if_pos hurl, if_pos hurl', ← hpath]
    exact Iff.trans (String.append_right_inj _) hwritten

end Pseudonymiser

/-! ## Documents -/

/-- Two resources that differ in nothing but their attributes, their links and their
relationships. -/
def Resources (attributes : String → Json → Json → Prop) (links relationships : Json → Json → Prop) :
    Json → Json → Prop :=
  Members fun key =>
    if key = "attributes" then Members attributes
    else if key = "links" then links
    else if key = "relationships" then relationships
    else Eq

/-- Two documents that differ in nothing but their resources and their links. -/
def Documents (resources links : Json → Json → Prop) : Json → Json → Prop :=
  Members fun key =>
    if key = "data" then Objects resources
    else if key = "included" then Items resources
    else if key = "links" then links
    else Eq

namespace Alphabet

variable (a : Alphabet)

/-- Links that differ only in what their queries filter by; a link may be an object that holds its
address. -/
def SameLinks : Json → Json → Prop :=
  Members fun _ link link' =>
    Texts a.SameLink link link' ∨
      Members (fun key => if key = "href" then Texts a.SameLink else Eq) link link'

/-- Documents that differ only in the texts inside their attributes, at any depth, and in what the
queries of their links filter by; every such text has the shape of the other. -/
def SameOutline : Json → Json → Prop :=
  Documents
    (Resources (fun name => Throughout (a.SameShape (kindOf name))) a.SameLinks
      (Members fun _ => Members fun key => if key = "links" then a.SameLinks else Eq))
    a.SameLinks

def CopiedLinks : Json → Json → Prop :=
  Members fun _ => Texts a.CopiedLink

/-- Documents that do not differ inside the lists and objects that attributes and links hold, nor
in their relationships; and of whose other texts the same is copied. -/
def SameCopies : Json → Json → Prop :=
  Documents
    (Resources (fun name => Texts fun s t => a.copied (kindOf name) s = a.copied (kindOf name) t)
      a.CopiedLinks Eq)
    a.CopiedLinks

variable {a}

theorem SameLink.of_links {s t : String} (h : Texts a.SameLink (.str s) (.str t) ∨
    Members (fun key => if key = "href" then Texts a.SameLink else Eq) (.str s) (.str t)) :
    a.SameLink s t := by
  rcases h with h | h
  · cases h with
    | text h => exact h
    | same => exact .inl rfl
  · cases h
    exact .inl rfl

end Alphabet

namespace Pseudonymiser

theorem discloses_attributes :
    Discloses (p.constant n).attributes
      (Members fun name => Throughout (p.SameShape (kindOf name)))
      (Members fun name => Texts fun s t => p.copied (kindOf name) s = p.copied (kindOf name) t) := by
  refine discloses_mapMembers fun name => discloses_mapText fun s t h => ?_
  cases h with
  | text h => exact text_constant_eq_iff h
  | same => exact iff_of_true rfl rfl

theorem discloses_links : Discloses (p.constant n).links p.SameLinks p.CopiedLinks :=
  discloses_mapMembers fun _ => discloses_mapText fun _ _ h => discloses_linkText (Alphabet.SameLink.of_links h)

theorem discloses_resource {relationships : Json → Json → Prop} :
    Discloses (p.constant n).resource
      (Resources (fun name => Throughout (p.SameShape (kindOf name))) p.SameLinks relationships)
      (Resources (fun name => Texts fun s t => p.copied (kindOf name) s = p.copied (kindOf name) t)
        p.CopiedLinks Eq) := by
  refine discloses_mapMembers fun key => ?_
  split_ifs
  · exact discloses_attributes
  · exact discloses_links
  · exact Discloses.unchanged _
  · exact Discloses.unchanged _

/-- With a constant for the keyed choice, documents of one outline become the same exactly where
nothing copied tells them apart. -/
theorem document_discloses_iff (p : Pseudonymiser) (n : ℕ) {body body' : Json}
    (h : p.SameOutline body body') :
    (p.constant n).document body = (p.constant n).document body' ↔ p.SameCopies body body' := by
  refine discloses_mapMembers (fun key => ?_) h
  split_ifs
  · exact discloses_mapObjects discloses_resource
  · exact discloses_mapItems discloses_resource
  · exact discloses_links
  · exact Discloses.unchanged _

end Pseudonymiser

def ellery : Pseudonymiser where
  toChooser := marcusEllery
  isDecimal := Char.isDigit
  isLetter c := c.isAlpha && !c.isDigit
  not_decimal := by simp
  streetNames := ⟨["Mill".toList], List.cons_ne_nil _ _⟩
  streetTypes := ⟨["Lane".toList], List.cons_ne_nil _ _⟩
  cities := ⟨["Riverton".toList], List.cons_ne_nil _ _⟩
  states := ⟨["OH".toList], List.cons_ne_nil _ _⟩
  emailDomains := ⟨["example.org".toList], List.cons_ne_nil _ _⟩

/-- A document of one person. -/
def onePerson (attributes : Json) : Json :=
  .obj [("data", .obj [("type", .str "Person"), ("id", .str "1"), ("attributes", attributes)])]

theorem sameOutline_onePerson {a : Alphabet} {attributes attributes' : Json}
    (h : Members (fun name => Throughout (a.SameShape (kindOf name))) attributes attributes') :
    a.SameOutline (onePerson attributes) (onePerson attributes') := by
  refine .members (.cons ⟨rfl, ?_⟩ .nil)
  rw [if_pos rfl]
  exact .object (.members (.cons ⟨rfl, rfl⟩ (.cons ⟨rfl, rfl⟩ (.cons ⟨rfl, h⟩ .nil))))

theorem document_discloses_iff_notes :
    (ellery.constant 7).document (onePerson (.obj [("medical_notes", .str "asthma")])) =
      (ellery.constant 7).document (onePerson (.obj [("medical_notes", .str "eczema")])) := by
  refine (Pseudonymiser.document_discloses_iff ellery 7 (sameOutline_onePerson ?_)).mpr ?_
  · exact .members (.cons ⟨rfl, .text ⟨by decide, trivial⟩⟩ .nil)
  · refine .members (.cons ⟨rfl, ?_⟩ .nil)
    rw [if_pos rfl]
    exact .object (.members (.cons ⟨rfl, rfl⟩ (.cons ⟨rfl, rfl⟩
      (.cons ⟨rfl, .members (.cons ⟨rfl, .text rfl⟩ .nil)⟩ .nil))))

/-- A text in a list passes as it is, though nobody has classified its attribute. -/
theorem document_discloses_list :
    ¬ ∀ (p : Pseudonymiser) (n : ℕ) (body body' : Json), p.SameOutline body body' →
      (p.constant n).document body = (p.constant n).document body' := by
  intro h
  have hsame := h ellery 7 (onePerson (.obj [("conditions", .arr [.str "asthma"])]))
    (onePerson (.obj [("conditions", .arr [.str "eczema"])]))
    (sameOutline_onePerson (.members (.cons ⟨rfl, .items (.cons (.text ⟨by decide, trivial⟩) .nil)⟩
      .nil)))
  revert hsame
  decide +kernel

end PcoMirror.Pseudonym
