import PcoMirror.Verification.Cors.Answers
import PcoMirror.Verification.Cors.RoundTrip

/-! Which origins a policy allows, part by part: what a scheme, a host and a port are, what stands
under a wildcard, and the strings the code compares. -/

namespace PcoMirror.Cors

open Http

/-! ## Origins and wildcards -/

inductive Scheme where
  | http
  | https

def Scheme.text : Scheme → List Char
  | http => "http".toList
  | https => "https".toList

/-- The name of a host. -/
structure HostName where
  text : List Char
  nonempty : text ≠ []
  plain : ∀ c ∈ text, isHostChar c = true

/-- The address of a host, which an origin has in brackets. -/
structure Address where
  digits : List Char
  nonempty : digits ≠ []
  plain : ∀ c ∈ digits, isHexChar c = true

inductive Host where
  | name (host : HostName)
  | address (host : Address)

def Host.text : Host → List Char
  | .name host => host.text
  | .address host => '[' :: (host.digits ++ [']'])

structure Port where
  digits : List Char
  nonempty : digits ≠ []
  short : digits.length ≤ 5
  plain : ∀ c ∈ digits, c.isDigit = true

def portText : Option Port → List Char
  | none => []
  | some port => ':' :: port.digits

/-- `scheme://host[:port]` -/
structure Origin where
  scheme : Scheme
  host : Host
  port : Option Port

def Origin.text (origin : Origin) : String :=
  String.ofList (origin.scheme.text ++ "://".toList ++ (origin.host.text ++ portText origin.port))

/-- `scheme://*.base[:port]` -/
structure Wildcard where
  scheme : Scheme
  base : HostName
  port : Option Port

def Wildcard.text (wildcard : Wildcard) : String :=
  String.ofList (wildcard.scheme.text ++ "://".toList ++
    '*' :: '.' :: (wildcard.base.text ++ portText wildcard.port))

/-- A wildcard covers what stands under its base, with its scheme and its port. -/
structure Wildcard.Covers (wildcard : Wildcard) (origin : Origin) : Prop where
  scheme : origin.scheme = wildcard.scheme
  port : origin.port = wildcard.port
  host : ∃ before, before ≠ [] ∧ origin.host.text = before ++ '.' :: wildcard.base.text

/-! ## The regular expressions -/

theorem isPort_iff {s : List Char} : isPort s = true ↔ ∃ port, portText port = s := by
  cases s with
  | nil => exact iff_of_true rfl ⟨none, rfl⟩
  | cons c digits =>
      simp only [isPort, Bool.and_eq_true, decide_eq_true_eq, Bool.not_eq_true',
        List.isEmpty_eq_false_iff, List.all_eq_true]
      constructor
      · rintro ⟨⟨⟨rfl, hne⟩, hshort⟩, hdigits⟩
        exact ⟨some ⟨digits, hne, hshort, hdigits⟩, rfl⟩
      · rintro ⟨port, hport⟩
        cases port with
        | none => cases hport
        | some port =>
            obtain ⟨rfl, rfl⟩ := List.cons_eq_cons.mp hport
            exact ⟨⟨⟨rfl, port.nonempty⟩, port.short⟩, port.plain⟩

theorem afterScheme_text (scheme : Scheme) (rest : List Char) :
    afterScheme (scheme.text ++ "://".toList ++ rest) = some rest := by
  cases scheme <;> rfl

theorem afterScheme_iff {s rest : List Char} :
    afterScheme s = some rest ↔ ∃ scheme : Scheme, s = scheme.text ++ "://".toList ++ rest := by
  constructor
  · intro h
    rw [afterScheme] at h
    split at h
    · case isTrue hhttp =>
        obtain ⟨after, rfl⟩ := List.isPrefixOf_iff_prefix.mp hhttp
        exact ⟨.http, by rw [← Option.some.inj h]; rfl⟩
    · split at h
      · case isTrue hhttps =>
          obtain ⟨after, rfl⟩ := List.isPrefixOf_iff_prefix.mp hhttps
          exact ⟨.https, by rw [← Option.some.inj h]; rfl⟩
      · cases h
  · rintro ⟨scheme, rfl⟩
    exact afterScheme_text scheme rest

/-- A run of characters of one kind, and a port. -/
theorem takeWhile_port {p : Char → Bool} {host rest : List Char} (hhost : ∀ c ∈ host, p c = true)
    (hrest : ∀ c ∈ rest.head?, p c = false) : (host ++ rest).takeWhile p = host := by
  rw [List.takeWhile_append_of_pos hhost]
  cases rest with
  | nil => simp
  | cons c rest => simp [hrest c rfl]

theorem head_portText {port : Option Port} {c : Char} (h : c ∈ (portText port).head?) : c = ':' := by
  cases port with
  | none => cases h
  | some port => exact (Option.some.inj h).symm

/-- A name and a port, read greedily. -/
theorem name_port_iff {s : List Char} :
    (!(s.takeWhile isHostChar).isEmpty &&
        isPort (s.drop (s.takeWhile isHostChar).length)) = true ↔
      ∃ (name : HostName) (port : Option Port), s = name.text ++ portText port := by
  have hsplit : s.takeWhile isHostChar ++ s.drop (s.takeWhile isHostChar).length = s :=
    (List.prefix_iff_eq_append.mp (List.takeWhile_prefix isHostChar))
  rw [Bool.and_eq_true, Bool.not_eq_true', List.isEmpty_eq_false_iff, isPort_iff]
  constructor
  · rintro ⟨hne, port, hport⟩
    refine ⟨⟨s.takeWhile isHostChar, hne, fun c hc => List.mem_takeWhile_imp hc⟩, port, ?_⟩
    rw [hport, hsplit]
  · rintro ⟨name, port, rfl⟩
    have hhost : (name.text ++ portText port).takeWhile isHostChar = name.text := by
      refine takeWhile_port name.plain fun c hc => ?_
      rw [head_portText hc]
      decide
    rw [hhost, List.drop_left]
    exact ⟨name.nonempty, port, rfl⟩

/-- An address in brackets and a port, read greedily. -/
theorem isOrigin_of_bracket {s : String} {rest : List Char}
    (hscheme : afterScheme s.toList = some ('[' :: rest)) : isOrigin s = true ↔
      ∃ (address : Address) (port : Option Port),
        rest = address.digits ++ ']' :: portText port := by
  have hsplit : rest.takeWhile isHexChar ++ rest.drop (rest.takeWhile isHexChar).length = rest :=
    (List.prefix_iff_eq_append.mp (List.takeWhile_prefix isHexChar))
  rw [isOrigin, hscheme]
  simp only
  constructor
  · intro h
    split at h
    · case h_1 after hafter =>
        rw [Bool.and_eq_true, Bool.not_eq_true', List.isEmpty_eq_false_iff, isPort_iff] at h
        obtain ⟨hne, port, hport⟩ := h
        refine ⟨⟨rest.takeWhile isHexChar, hne, fun c hc => List.mem_takeWhile_imp hc⟩, port, ?_⟩
        rw [hport, ← hafter, hsplit]
    · cases h
  · rintro ⟨address, port, rfl⟩
    have hhost : (address.digits ++ ']' :: portText port).takeWhile isHexChar = address.digits :=
      takeWhile_port address.plain fun c hc => by cases hc; decide
    rw [hhost, List.drop_left]
    simp only
    rw [Bool.and_eq_true, Bool.not_eq_true', List.isEmpty_eq_false_iff]
    exact ⟨address.nonempty, isPort_iff.mpr ⟨port, rfl⟩⟩

theorem isOrigin_of_name {s : String} {rest : List Char} (hscheme : afterScheme s.toList = some rest)
    (hbracket : rest.head? ≠ some '[') : isOrigin s = true ↔
      ∃ (name : HostName) (port : Option Port), rest = name.text ++ portText port := by
  rw [isOrigin, hscheme]
  split
  · rename_i heq
    cases heq
  · rename_i heq
    cases heq
    exact absurd rfl hbracket
  · rename_i heq
    cases heq
    exact name_port_iff

theorem Origin.toList_text (origin : Origin) : origin.text.toList =
    origin.scheme.text ++ "://".toList ++ (origin.host.text ++ portText origin.port) :=
  String.toList_ofList

theorem HostName.head (name : HostName) (rest : List Char) :
    ∃ c cs, name.text ++ rest = c :: cs ∧ isHostChar c = true := by
  obtain ⟨c, cs, hcons⟩ := List.exists_cons_of_ne_nil name.nonempty
  exact ⟨c, cs ++ rest, by rw [hcons, List.cons_append], name.plain c (by simp [hcons])⟩

theorem isOrigin_iff {s : String} : isOrigin s = true ↔ ∃ origin : Origin, origin.text = s := by
  constructor
  · intro h
    cases hscheme : afterScheme s.toList with
    | none =>
        rw [isOrigin, hscheme] at h
        cases h
    | some rest =>
        obtain ⟨scheme, hs⟩ := afterScheme_iff.mp hscheme
        by_cases hbracket : rest.head? = some '['
        · obtain ⟨after, rfl⟩ := List.head?_eq_some_iff.mp hbracket
          obtain ⟨address, port, rfl⟩ := (isOrigin_of_bracket hscheme).mp h
          refine ⟨⟨scheme, .address address, port⟩, ?_⟩
          rw [← String.toList_inj, Origin.toList_text, hs]
          simp [Host.text]
        · obtain ⟨name, port, rfl⟩ := (isOrigin_of_name hscheme hbracket).mp h
          refine ⟨⟨scheme, .name name, port⟩, ?_⟩
          rw [← String.toList_inj, Origin.toList_text, hs]
          rfl
  · rintro ⟨origin, rfl⟩
    obtain ⟨scheme, host, port⟩ := origin
    have hscheme : afterScheme (Origin.text ⟨scheme, host, port⟩).toList =
        some (host.text ++ portText port) := by
      rw [Origin.toList_text]
      exact afterScheme_text scheme _
    cases host with
    | name name =>
        obtain ⟨c, cs, hcons, hc⟩ := name.head (portText port)
        have hbracket : (name.text ++ portText port).head? ≠ some '[' := by
          rw [hcons]
          rintro ⟨⟩
          cases hc
        exact (isOrigin_of_name hscheme hbracket).mpr ⟨name, port, rfl⟩
    | address address =>
        have hbracket : afterScheme (Origin.text ⟨scheme, .address address, port⟩).toList =
            some ('[' :: (address.digits ++ ']' :: portText port)) := by
          rw [hscheme]
          simp [Host.text]
        exact (isOrigin_of_bracket hbracket).mpr ⟨address, port, rfl⟩

theorem Wildcard.toList_text (wildcard : Wildcard) : wildcard.text.toList =
    wildcard.scheme.text ++ "://".toList ++
      '*' :: '.' :: (wildcard.base.text ++ portText wildcard.port) :=
  String.toList_ofList

theorem isPattern_iff {s : String} :
    isPattern s = true ↔ ∃ wildcard : Wildcard, wildcard.text = s := by
  constructor
  · intro h
    rw [isPattern] at h
    split at h
    · case h_1 rest hscheme =>
        obtain ⟨scheme, hs⟩ := afterScheme_iff.mp hscheme
        obtain ⟨name, port, rfl⟩ := name_port_iff.mp h
        refine ⟨⟨scheme, name, port⟩, ?_⟩
        rw [← String.toList_inj, Wildcard.toList_text, hs]
    · cases h
  · rintro ⟨wildcard, rfl⟩
    rw [isPattern, Wildcard.toList_text, afterScheme_text]
    exact name_port_iff.mpr ⟨wildcard.base, wildcard.port, rfl⟩

/-! ## The comparison -/

theorem partitionScheme_text (scheme : Scheme) (rest : List Char) :
    partitionScheme (scheme.text ++ "://".toList ++ rest) = (scheme.text, rest) := by
  cases scheme <;> rfl

/-- A text does not end in a colon and digits. -/
def Portless (s : List Char) : Prop :=
  ∀ front digits, s = front ++ ':' :: digits → ¬∀ c ∈ digits, c.isDigit = true

/-- Where neither text ends in what could be a port, the ports are told from the rest. -/
theorem append_portText_inj {a b : List Char} {p q : Option Port} (ha : Portless a)
    (hb : Portless b) (h : a ++ portText p = b ++ portText q) : a = b ∧ portText p = portText q := by
  have hsame {digits rest extra : List Char} (hdigits : ∀ c ∈ digits, c.isDigit = true)
      (heq : ':' :: digits = extra ++ ':' :: rest) : extra = [] := by
    cases extra with
    | nil => rfl
    | cons c extra =>
        have hcolon := hdigits ':' (by simp [(List.cons_eq_cons.mp heq).2])
        cases hcolon
  cases p with
  | none =>
      cases q with
      | none => simpa [portText] using h
      | some q => exact absurd q.plain (ha b q.digits (by simpa [portText] using h))
  | some p =>
      cases q with
      | none => exact absurd p.plain (hb a p.digits (by simpa [portText] using h.symm))
      | some q =>
          rcases List.append_eq_append_iff.mp h with ⟨extra, hb, hp⟩ | ⟨extra, ha, hq⟩
          · have hnil := hsame p.plain hp
            subst hnil
            exact ⟨by rw [hb, List.append_nil], hp⟩
          · have hnil := hsame q.plain hq
            subst hnil
            exact ⟨by rw [ha, List.append_nil], hq.symm⟩

theorem portless_host (host : Host) : Portless host.text := by
  intro front digits heq hdigits
  cases host with
  | name name =>
      have hcolon := name.plain ':' (by simp [show name.text = _ from heq])
      cases hcolon
  | address address =>
      have hlast : (front ++ ':' :: digits).getLast? = some ']' := by
        rw [← heq, Host.text, ← List.cons_append, List.getLast?_append]
        rfl
      have hmem : ']' ∈ ':' :: digits := by
        rw [List.getLast?_append_of_ne_nil _ (List.cons_ne_nil _ _)] at hlast
        exact List.mem_of_getLast? hlast
      rcases List.mem_cons.mp hmem with hcolon | hdigit
      · cases hcolon
      · cases hdigits _ hdigit

theorem portless_under (before : List Char) (base : HostName) :
    Portless (before ++ '.' :: base.text) := by
  intro front digits heq hdigits
  rcases List.append_eq_append_iff.mp heq with ⟨extra, -, hbase⟩ | ⟨extra, -, hport⟩
  · have hmem : ':' ∈ '.' :: base.text := by simp [hbase]
    rcases List.mem_cons.mp hmem with hdot | hname
    · cases hdot
    · cases base.plain _ hname
  · have hmem : '.' ∈ ':' :: digits := by simp [hport]
    rcases List.mem_cons.mp hmem with hcolon | hdigit
    · cases hcolon
    · cases hdigits _ hdigit

theorem portText_inj {p q : Option Port} (h : portText p = portText q) : p = q := by
  cases p with
  | none =>
      cases q with
      | none => rfl
      | some q => cases h
  | some p =>
      cases q with
      | none => cases h
      | some q =>
          cases p
          cases q
          cases h
          rfl

theorem star_ne_host (host : Host) (rest after : List Char) :
    '*' :: after ≠ host.text ++ rest := by
  cases host with
  | name name =>
      obtain ⟨c, cs, hcons, hc⟩ := name.head rest
      rw [Host.text, hcons]
      rintro ⟨⟩
      cases hc
  | address address => nofun

theorem scheme_text_inj {a b : Scheme} (h : a.text = b.text) : a = b := by
  cases a <;> cases b <;> first | rfl | cases h

/-- The suffix that the code compares is the base of the wildcard, with its dot and its port. -/
theorem matchesPattern_wildcard (wildcard : Wildcard) (origin : Origin) :
    matchesPattern wildcard.text origin.text = true ↔ wildcard.Covers origin := by
  have hpattern : partitionScheme wildcard.text.toList = (wildcard.scheme.text,
      '*' :: '.' :: (wildcard.base.text ++ portText wildcard.port)) := by
    rw [Wildcard.toList_text, partitionScheme_text]
  have horigin : partitionScheme origin.text.toList =
      (origin.scheme.text, origin.host.text ++ portText origin.port) := by
    rw [Origin.toList_text, partitionScheme_text]
  have hne : wildcard.text ≠ origin.text := by
    intro heq
    rw [heq, horigin, Prod.mk.injEq] at hpattern
    exact star_ne_host _ _ _ hpattern.2.symm
  rw [matchesPattern, hpattern, horigin]
  simp only [if_neg hne, show "*.".toList.isPrefixOf
    ('*' :: '.' :: (wildcard.base.text ++ portText wildcard.port)) = true from rfl, Bool.not_true,
    Bool.false_eq_true, if_false, List.drop_succ_cons, List.drop_zero]
  constructor
  · intro h
    split_ifs at h with hscheme
    rw [ne_eq, not_not] at hscheme
    rw [Bool.and_eq_true, List.isSuffixOf_iff_suffix, decide_eq_true_eq] at h
    obtain ⟨⟨before, hbefore⟩, hlength⟩ := h
    have hparts : (before ++ '.' :: wildcard.base.text) ++ portText wildcard.port =
        origin.host.text ++ portText origin.port := by
      rw [← hbefore, List.append_assoc, List.cons_append]
    obtain ⟨hhost, hport⟩ :=
      append_portText_inj (portless_under before wildcard.base) (portless_host origin.host) hparts
    refine ⟨scheme_text_inj hscheme, (portText_inj hport).symm, before, ?_, hhost.symm⟩
    rintro rfl
    rw [← hbefore, List.nil_append] at hlength
    exact lt_irrefl _ hlength
  · rintro ⟨hscheme, hport, before, hne, hhost⟩
    have hhostport : origin.host.text ++ portText origin.port =
        before ++ '.' :: (wildcard.base.text ++ portText wildcard.port) := by
      rw [hhost, hport, List.append_assoc, List.cons_append]
    have hlength := List.length_pos_of_ne_nil hne
    rw [if_neg (by rw [hscheme]; exact not_not_intro rfl), hhostport, Bool.and_eq_true,
      List.isSuffixOf_iff_suffix, decide_eq_true_eq, List.length_append]
    exact ⟨List.suffix_append _ _, by omega⟩

theorem not_matchesPattern_null (wildcard : Wildcard) :
    matchesPattern wildcard.text null = false := by
  have hpattern : partitionScheme wildcard.text.toList = (wildcard.scheme.text,
      '*' :: '.' :: (wildcard.base.text ++ portText wildcard.port)) := by
    rw [Wildcard.toList_text, partitionScheme_text]
  have hnull : partitionScheme null.toList = (null.toList, []) := by decide
  have hne : wildcard.text ≠ null := by
    intro heq
    rw [heq, hnull, Prod.mk.injEq] at hpattern
    cases hpattern.2
  have hscheme : null.toList ≠ wildcard.scheme.text := by
    cases wildcard.scheme <;> decide
  rw [matchesPattern, hpattern, hnull]
  simp only [if_neg hne, if_pos hscheme, ite_self]

/-- An entry that is no wildcard matches what it says, and nothing else. -/
theorem eq_of_matchesPattern {entry value : String} (hentry : IsConfigured entry)
    (hplain : ∀ wildcard : Wildcard, wildcard.text ≠ entry)
    (h : matchesPattern entry value = true) : entry = value := by
  have hstar : "*.".toList.isPrefixOf (partitionScheme entry.toList).2 = false := by
    rcases hentry with rfl | rfl | horigin | hpattern
    · decide
    · decide
    · obtain ⟨origin, rfl⟩ := isOrigin_iff.mp horigin
      rw [Origin.toList_text, partitionScheme_text, Bool.eq_false_iff]
      intro hprefix
      obtain ⟨after, hafter⟩ := List.isPrefixOf_iff_prefix.mp hprefix
      exact star_ne_host _ _ _ hafter
    · obtain ⟨wildcard, heq⟩ := isPattern_iff.mp hpattern
      exact absurd heq (hplain wildcard)
  by_contra hne
  rw [matchesPattern] at h
  simp only [if_neg hne, hstar, Bool.not_false, if_true, Bool.false_eq_true] at h

/-! ## The policy -/

/-- A text that a browser may send for an origin. -/
def IsOriginText (value : String) : Prop :=
  value = null ∨ ∃ origin : Origin, origin.text = value

/-- What a policy says of an origin: it takes any, it lists this one, or it lists a wildcard over
it. -/
def Policy.Lists (policy : Policy) (value : String) : Prop :=
  any ∈ policy.origins ∨ value ∈ policy.origins ∨
    ∃ (wildcard : Wildcard) (origin : Origin), wildcard.text ∈ policy.origins ∧
      origin.text = value ∧ wildcard.Covers origin

theorem lists_iff {policy : Policy} {value : String}
    (hconfigured : ∀ entry ∈ policy.origins, IsConfigured entry) (hvalue : IsOriginText value) :
    policy.Lists value ↔ any ∈ policy.origins ∨
      policy.origins.any (matchesPattern · value) = true := by
  rw [Policy.Lists, List.any_eq_true]
  refine or_congr_right ⟨?_, ?_⟩
  · rintro (hlisted | ⟨wildcard, origin, hlisted, rfl, hcovers⟩)
    · refine ⟨value, hlisted, ?_⟩
      rw [matchesPattern]
      simp
    · exact ⟨wildcard.text, hlisted, (matchesPattern_wildcard wildcard origin).mpr hcovers⟩
  · rintro ⟨entry, hlisted, hmatches⟩
    by_cases hplain : ∀ wildcard : Wildcard, wildcard.text ≠ entry
    · exact .inl (eq_of_matchesPattern (hconfigured entry hlisted) hplain hmatches ▸ hlisted)
    · simp only [ne_eq, not_forall, not_not] at hplain
      obtain ⟨wildcard, rfl⟩ := hplain
      rcases hvalue with rfl | ⟨origin, rfl⟩
      · rw [not_matchesPattern_null] at hmatches
        cases hmatches
      · exact .inr ⟨wildcard, origin, hlisted, rfl,
          (matchesPattern_wildcard wildcard origin).mp hmatches⟩

theorem isOriginText_iff {value : String} :
    IsOriginText value ↔ value = null ∨ isOrigin value = true := by
  rw [IsOriginText, isOrigin_iff]

/-- The syntax comes first, and then the list. -/
theorem allowsOrigin_iff {policy : Policy}
    (hconfigured : ∀ entry ∈ policy.origins, IsConfigured entry) (origin : Option String) :
    policy.allowsOrigin origin = true ↔ IsOriginText (normalise (origin.getD "")) ∧
      policy.Lists (normalise (origin.getD "")) := by
  rw [Policy.allowsOrigin]
  generalize normalise (origin.getD "") = value
  rw [isOriginText_iff]
  by_cases hvalue : value = null ∨ isOrigin value = true
  · have hne : value ≠ "" := by
      rintro rfl
      exact absurd hvalue (by decide)
    have hsyntax : ¬(decide (value ≠ null) && !isOrigin value) = true := by
      simpa [or_iff_not_imp_left] using hvalue
    rw [if_neg hne, if_neg hsyntax, and_iff_right hvalue,
      lists_iff hconfigured (isOriginText_iff.mpr hvalue)]
    by_cases hany : any ∈ policy.origins
    · simp [Policy.anyOrigin, hany]
    · simp [Policy.anyOrigin, hany]
  · have hsyntax : (decide (value ≠ null) && !isOrigin value) = true := by
      simpa [not_or] using hvalue
    rw [if_pos hsyntax, ite_self]
    exact iff_of_false Bool.false_ne_true fun h => hvalue h.1

theorem configured_of_build {settings : Settings} {policy : Policy}
    (h : build settings = .ok policy) : ∀ entry ∈ policy.origins, IsConfigured entry := by
  intro entry hentry
  rcases built_of_build h with rfl | hbuilt
  · cases hentry
  · exact (configured_of_pattern (hbuilt.patterns entry hentry)).2

theorem lookup_attach_origin (policy : Policy) (headers : Headers) (origin : Option String) :
    (attach headers policy origin).lookup "Access-Control-Allow-Origin" =
      if policy.allowsOrigin origin then some (policy.echo (origin.getD ""))
      else headers.lookup "Access-Control-Allow-Origin" := by
  cases hallows : policy.allowsOrigin origin with
  | true => rw [attach_allowed hallows, lookup_permit_origin, if_pos rfl]
  | false =>
      rw [if_neg Bool.false_ne_true]
      cases henabled : policy.enabled with
      | false => rw [attach_off henabled]
      | true => rw [attach_refused henabled hallows, lookup_vary (by decide) (by decide)]

/-- What an answer tells a browser of its origin is what the policy allows, or was there before. -/
theorem lookup_respond_origin {policy : Policy} {environ : Environ} {routed : Headers}
    {told : String}
    (h : (respond policy environ routed).lookup "Access-Control-Allow-Origin" = some told) :
    policy.allowsOrigin environ.origin = true ∧ told = policy.echo (environ.origin.getD "") ∨
      routed.lookup "Access-Control-Allow-Origin" = some told := by
  have hattach (headers : Headers)
      (h : (attach headers policy environ.origin).lookup "Access-Control-Allow-Origin" = some told) :
      policy.allowsOrigin environ.origin = true ∧ told = policy.echo (environ.origin.getD "") ∨
        headers.lookup "Access-Control-Allow-Origin" = some told := by
    rw [lookup_attach_origin] at h
    split at h
    · case isTrue hallows => exact .inl ⟨hallows, (Option.some.inj h).symm⟩
    · exact .inr h
  rw [respond] at h
  split at h
  · left
    cases hallows : policy.allowsOrigin environ.origin with
    | true =>
        rw [lookup_preflight_origin hallows] at h
        exact ⟨rfl, (Option.some.inj h).symm⟩
    | false =>
        obtain ⟨reason, heq⟩ := preflight_refused hallows
        rw [heq, explain, lookup_set_ne (by decide)] at h
        rcases hattach _ h with ⟨htrue, -⟩ | hbefore
        · rw [hallows] at htrue
          cases htrue
        · cases hbefore
  · split at h
    · exact hattach routed h
    · exact .inr h

/-- An origin is allowed when it is written as one and the policy lists it, and nothing that is not
written as one is told back to a browser. -/
theorem allowsOrigin_exact {settings : Settings} {policy : Policy}
    (h : build settings = .ok policy) :
    (∀ origin : Option String, policy.allowsOrigin origin = true ↔
      IsOriginText (normalise (origin.getD "")) ∧ policy.Lists (normalise (origin.getD ""))) ∧
    ∀ (environ : Environ) (routed : Headers) (told : String),
      (respond policy environ routed).lookup "Access-Control-Allow-Origin" = some told →
        told = any ∨ told = normalise (environ.origin.getD "") ∧ IsOriginText told ∨
          routed.lookup "Access-Control-Allow-Origin" = some told := by
  have hallows := allowsOrigin_iff (configured_of_build h)
  refine ⟨hallows, fun environ routed told htold => ?_⟩
  rcases lookup_respond_origin htold with ⟨hallowed, rfl⟩ | hbefore
  · rw [Policy.echo]
    split
    · exact .inl rfl
    · exact .inr (.inl ⟨rfl, ((hallows environ.origin).mp hallowed).1⟩)
  · exact .inr (.inr hbefore)

def wildcardSettings : Settings where
  origins := .text "https://*.Example.org:8443, null"

def wildcardPolicy : Policy where
  origins := ["https://*.example.org:8443", "null"]

/-- A name under the base is allowed, in whatever case it comes; the base itself, and a name that
only ends like it, are not. -/
theorem allowsOrigin_exact_wildcard :
    wildcardPolicy.Lists (normalise "HTTPS://a.b.Example.org:8443") ∧
      ¬(IsOriginText (normalise "https://example.org:8443") ∧
        wildcardPolicy.Lists (normalise "https://example.org:8443")) ∧
      ¬(IsOriginText (normalise "https://evilexample.org:8443") ∧
        wildcardPolicy.Lists (normalise "https://evilexample.org:8443")) := by
  have h := (allowsOrigin_exact (show build wildcardSettings = .ok wildcardPolicy by
    decide +kernel)).1
  refine ⟨((h (some "HTTPS://a.b.Example.org:8443")).mp (by decide +kernel)).2, ?_, ?_⟩
  · exact (h (some "https://example.org:8443")).not.mp (by decide +kernel)
  · exact (h (some "https://evilexample.org:8443")).not.mp (by decide +kernel)

end PcoMirror.Cors
