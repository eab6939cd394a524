import PcoMirror.Lib.Words
import PcoMirror.Model.Registration

/-! `PCOMIRROR_SUBSCRIPTIONS` gives back the subscriptions that were written into it, in either form. -/

namespace PcoMirror.Registration

open Text

variable {spec : Spec} {specs : List Spec} {s t : List Char}

/-- A subscription that is written down has an id and an event. -/
structure Spec.Named (spec : Spec) : Prop where
  id : spec.subscriptionId ≠ ""
  event : spec.event ≠ ""

/-! ## JSON -/

/-- A subscription, as an entry of the JSON form. -/
def Spec.members (spec : Spec) : List (String × Json) :=
  [("id", .str spec.subscriptionId), ("event", .str spec.event), ("token", .str spec.urlToken),
    ("secret", .str spec.secret)]

/-- The JSON form. -/
def jsonForm (specs : List Spec) : String :=
  Json.dumps (.arr (specs.map fun spec => .obj spec.members))

theorem textOr_str {members : List (String × Json)} {key value : String}
    (h : members.lookup key = some (.str value)) : textOr members key = value := by
  by_cases hempty : value = ""
  · simp [textOr, h, Json.truthy, hempty]
  · simp [textOr, h, Json.truthy, Json.pyStr, hempty]

/-- An entry reads as it was written if it is one the form takes at all. -/
theorem jsonEntry_members (i : ℕ) : jsonEntry i (.obj spec.members) = .ok spec ↔ spec.Named := by
  have htext : (⟨textOr spec.members "id", textOr spec.members "event",
      textOr spec.members "secret", textOr spec.members "token"⟩ : Spec) = spec := by
    rw [textOr_str (rfl : spec.members.lookup "id" = some (.str spec.subscriptionId)),
      textOr_str (rfl : spec.members.lookup "event" = some (.str spec.event)),
      textOr_str (rfl : spec.members.lookup "secret" = some (.str spec.secret)),
      textOr_str (rfl : spec.members.lookup "token" = some (.str spec.urlToken))]
  have hlacking : (["id", "event"].filter fun key =>
      !((spec.members.lookup key).any Json.truthy)) = [] ↔ spec.Named := by
    rw [List.filter_eq_nil_iff]
    constructor
    · intro h
      have hid := h "id" (by simp)
      have hevent := h "event" (by simp)
      simp [Spec.members, Json.truthy, List.lookup] at hid hevent
      exact ⟨hid, hevent⟩
    · intro h key hkey
      have hid := h.id
      have hevent := h.event
      simp only [List.mem_cons, List.not_mem_nil, or_false] at hkey
      rcases hkey with rfl | rfl <;> simpa [Spec.members, Json.truthy, List.lookup]
  simp only [jsonEntry, htext]
  split_ifs with h
  · exact iff_of_true rfl (hlacking.mp h)
  · exact iff_of_false (fun hthrow => by cases hthrow) fun hnamed => h (hlacking.mpr hnamed)

theorem mapM_jsonEntry (specs : List Spec) (i : ℕ) :
    ((specs.map fun spec => Json.obj spec.members).zipIdx i).mapM (fun e => jsonEntry e.2 e.1) =
        .ok specs ↔ ∀ spec ∈ specs, spec.Named := by
  induction specs generalizing i with
  | nil => simp [pure, Except.pure]
  | cons spec specs ih =>
      rw [List.forall_mem_cons, ← ih (i + 1), ← jsonEntry_members i, List.map_cons,
        List.zipIdx_cons, List.mapM_cons]
      constructor
      · intro h
        cases hentry : jsonEntry i (.obj spec.members) with
        | error text =>
            rw [hentry] at h
            cases h
        | ok read =>
            cases hrest : ((specs.map fun spec => Json.obj spec.members).zipIdx (i + 1)).mapM
                fun e => jsonEntry e.2 e.1 with
            | error text =>
                rw [hentry, hrest] at h
                cases h
            | ok rest =>
                rw [hentry, hrest] at h
                cases h
                exact ⟨rfl, rfl⟩
      · intro h
        rw [h.1, h.2]
        rfl

theorem plain_jsonForm (specs : List Spec) :
    (Json.arr (specs.map fun spec => .obj spec.members)).Plain := by
  refine .arr fun item hitem => ?_
  obtain ⟨spec, -, rfl⟩ := List.mem_map.mp hitem
  refine .obj (by simp [Spec.members]) fun member hmember => ?_
  simp only [Spec.members, List.mem_cons, List.not_mem_nil, or_false] at hmember
  rcases hmember with rfl | rfl | rfl | rfl <;> exact .str _

theorem isWord_singleton {c : Char} (h : isSpace c = false) : IsWord [c] :=
  ⟨by simp, fun d hd => by rw [List.mem_singleton.mp hd, h]⟩

theorem strip_trimmed (h : Trimmed s) : strip s = s := by
  have hblank : Blank [] := fun c hc => by cases hc
  simpa using h.strip_eq hblank hblank

/-- The JSON form gives the subscriptions back just where each has an id and an event. -/
theorem parse_jsonForm (specs : List Spec) :
    parseSubscriptions (some (jsonForm specs)) = .ok specs ↔ ∀ spec ∈ specs, spec.Named := by
  have htrimmed : Trimmed (Json.arr (specs.map fun spec => .obj spec.members)).write :=
    Trimmed.append (isWord_singleton (c := '[') (by decide)).trimmed
      (isWord_singleton (c := ']') (by decide)).trimmed _
  have htrim : Http.trim (jsonForm specs) = jsonForm specs := by
    rw [jsonForm, Json.dumps, Http.trim, String.toList_ofList, strip_trimmed htrimmed]
  have hne : jsonForm specs ≠ "" := by
    intro hempty
    have := congrArg String.toList hempty
    simp [jsonForm, Json.dumps, Json.write] at this
  have hhead : (jsonForm specs).toList.head? = some '[' := by
    simp [jsonForm, Json.dumps, Json.write]
  have hloads : Json.loads (jsonForm specs) = some _ := Json.loads_dumps (plain_jsonForm specs)
  simp only [parseSubscriptions, Option.getD_some, htrim, hne, hhead, hloads, if_false, if_true]
  exact mapM_jsonEntry specs 0

/-! ## The compact form -/

/-- An entry: four parts between colons, with white space around them, of which only the secret may
have colons in it. -/
inductive Entry (spec : Spec) : List Char → Prop where
  | parts {id event token secret : List Char} (hid : strip id = spec.subscriptionId.toList)
      (hevent : strip event = spec.event.toList) (htoken : strip token = spec.urlToken.toList)
      (hsecret : strip secret = spec.secret.toList)
      (hcolon : ':' ∉ id ∧ ':' ∉ event ∧ ':' ∉ token) :
      Entry spec (id ++ ':' :: (event ++ ':' :: (token ++ ':' :: secret)))

/-- What stands between the commas: entries, and here and there nothing. -/
inductive Layout : List (List Char) → List Spec → Prop where
  | nil : Layout [] []
  | blank {part parts specs} (hblank : Blank part) (hrest : Layout parts specs) :
      Layout (part :: parts) specs
  | entry {part parts spec specs} (hentry : Entry spec (strip part)) (hnamed : spec.Named)
      (hrest : Layout parts specs) : Layout (part :: parts) (spec :: specs)

theorem splitAtMost_append {c : Char} (h : c ∉ s) (n : ℕ) (t : List Char) :
    splitAtMost c (n + 1) (s ++ c :: t) = s :: splitAtMost c n t := by
  have hall : ∀ d ∈ s, decide (d ≠ c) = true := fun d hd => decide_eq_true fun heq => h (heq ▸ hd)
  rw [splitAtMost, if_pos (by simp), List.takeWhile_append_of_pos hall,
    List.dropWhile_append_of_pos hall]
  simp

/-- Where there is more than one part, the first ends at the first separator. -/
theorem exists_of_splitAtMost {c : Char} {n : ℕ} {a b : List Char} {rest : List (List Char)}
    (h : splitAtMost c n s = a :: b :: rest) :
    ∃ m t, n = m + 1 ∧ c ∉ a ∧ s = a ++ c :: t ∧ splitAtMost c m t = b :: rest := by
  cases n with
  | zero => simp [splitAtMost] at h
  | succ m =>
      rw [splitAtMost] at h
      split_ifs at h with hmem
      · obtain ⟨rfl, hrest⟩ := List.cons.inj h
        obtain ⟨d, t, hdrop⟩ := List.exists_cons_of_ne_nil (l := s.dropWhile (· ≠ c)) fun hnil => by
          have hall := List.dropWhile_eq_nil_iff.mp hnil c hmem
          simp at hall
        have hd : d = c := by
          have hnot := List.head_dropWhile_not (p := fun d => decide (d ≠ c)) (l := s)
            (by simp only [hdrop, ne_eq, reduceCtorEq, not_false_eq_true])
          simpa only [hdrop, List.head_cons, decide_eq_false_iff_not, not_not] using hnot
        refine ⟨m, t, rfl, fun hmem => ?_, ?_, ?_⟩
        · have hne := List.mem_takeWhile_imp hmem
          simp at hne
        · rw [hd] at hdrop
          rw [← hdrop, List.takeWhile_append_dropWhile]
        · rw [hdrop] at hrest
          exact hrest
      · cases h

theorem splitAtMost_three {id event token secret : List Char} :
    splitAtMost ':' 3 s = [id, event, token, secret] ↔
      (':' ∉ id ∧ ':' ∉ event ∧ ':' ∉ token) ∧
        s = id ++ ':' :: (event ++ ':' :: (token ++ ':' :: secret)) := by
  constructor
  · intro h
    obtain ⟨m, t, hm, hid, rfl, h⟩ := exists_of_splitAtMost h
    cases hm
    obtain ⟨m, t, hm, hevent, rfl, h⟩ := exists_of_splitAtMost h
    cases hm
    obtain ⟨m, t, hm, htoken, rfl, h⟩ := exists_of_splitAtMost h
    cases hm
    cases h
    exact ⟨⟨hid, hevent, htoken⟩, rfl⟩
  · intro h
    obtain ⟨⟨hid, hevent, htoken⟩, rfl⟩ := h
    rw [splitAtMost_append hid, splitAtMost_append hevent, splitAtMost_append htoken, splitAtMost]

/-- An entry that is accepted has four parts. -/
theorem exists_of_compactEntry (h : compactEntry (String.ofList s) = .ok spec) :
    ∃ id event token secret, splitAtMost ':' 3 s = [id, event, token, secret] := by
  rw [compactEntry, String.toList_ofList] at h
  split at h
  · rename_i hparts
    obtain ⟨id, parts, hid, -, hparts⟩ := List.map_eq_cons_iff.mp hparts
    obtain ⟨event, parts, rfl, -, hparts⟩ := List.map_eq_cons_iff.mp hparts
    obtain ⟨token, parts, rfl, -, hparts⟩ := List.map_eq_cons_iff.mp hparts
    obtain ⟨secret, parts, rfl, -, hparts⟩ := List.map_eq_cons_iff.mp hparts
    rw [List.map_eq_nil_iff.mp hparts] at hid
    exact ⟨id, event, token, secret, hid⟩
  · cases h

/-- An entry is accepted just as the form says. -/
theorem compactEntry_iff :
    compactEntry (String.ofList s) = .ok spec ↔ Entry spec s ∧ spec.Named := by
  constructor
  · intro h
    obtain ⟨id, event, token, secret, hparts⟩ := exists_of_compactEntry h
    rw [compactEntry, String.toList_ofList, hparts] at h
    obtain ⟨hcolon, rfl⟩ := splitAtMost_three.mp hparts
    simp only [List.map_cons, List.map_nil] at h
    split_ifs at h with hnamed
    cases h
    rw [not_or] at hnamed
    exact ⟨.parts (by simp) (by simp) (by simp) (by simp) hcolon, hnamed.1, hnamed.2⟩
  · intro h
    obtain ⟨hentry, hnamed⟩ := h
    cases hentry with
    | parts hid hevent htoken hsecret hcolon =>
        rw [compactEntry, String.toList_ofList, splitAtMost_three.mpr ⟨hcolon, rfl⟩]
        simp only [List.map_cons, List.map_nil, hid, hevent, htoken, hsecret, String.ofList_toList,
          hnamed.id, hnamed.event, or_self, if_false]
        rfl

theorem mapM_compactEntry {parts : List (List Char)} :
    ((parts.map fun part => String.ofList (strip part)).filter (· ≠ "")).mapM compactEntry =
      .ok specs ↔ Layout parts specs := by
  induction parts generalizing specs with
  | nil =>
      constructor
      · intro h
        cases h
        exact .nil
      · intro h
        cases h
        rfl
  | cons part parts ih =>
      by_cases hblank : Blank part
      · rw [List.map_cons, strip_eq_nil.mpr hblank, List.filter_cons_of_neg (by simp), ih]
        constructor
        · exact .blank hblank
        · intro h
          cases h with
          | blank hblank hrest => exact hrest
          | entry hentry hnamed hrest =>
              rw [strip_eq_nil.mpr hblank] at hentry
              have hread := compactEntry_iff.mpr ⟨hentry, hnamed⟩
              cases hread
      · have hne : String.ofList (strip part) ≠ "" := by
          intro hempty
          have hnil := congrArg String.toList hempty
          rw [String.toList_ofList] at hnil
          exact hblank (strip_eq_nil.mp hnil)
        rw [List.map_cons, List.filter_cons_of_pos (by simpa using hne), List.mapM_cons]
        constructor
        · intro h
          cases hread : compactEntry (String.ofList (strip part)) with
          | error text =>
              rw [hread] at h
              cases h
          | ok spec =>
              cases hrest : ((parts.map fun part => String.ofList (strip part)).filter
                  (· ≠ "")).mapM compactEntry with
              | error text =>
                  rw [hread, hrest] at h
                  cases h
              | ok rest =>
                  rw [hread, hrest] at h
                  cases h
                  obtain ⟨hentry, hnamed⟩ := compactEntry_iff.mp hread
                  exact .entry hentry hnamed (ih.mp hrest)
        · intro h
          cases h with
          | blank hblank' hrest => exact absurd hblank' hblank
          | entry hentry hnamed hrest =>
              rw [compactEntry_iff.mpr ⟨hentry, hnamed⟩, ih.mpr hrest]
              rfl

/-- The compact form is accepted just where it is laid out as the form says. -/
theorem parse_compact {value : String} (hform : (Http.trim value).toList.head? ≠ some '[') :
    parseSubscriptions (some value) = .ok specs ↔ Layout (value.toList.splitOn ',') specs := by
  have helements : Http.elements value =
      (value.toList.splitOn ',').map fun part => String.ofList (strip part) := by
    rw [Http.elements, commas, List.map_map]
    refine List.map_congr_left fun part _ => ?_
    simp [Http.trim]
  rw [← mapM_compactEntry, ← helements, ← Http.items, ← Http.items_trim]
  simp only [parseSubscriptions, Option.getD_some]
  split_ifs with hempty
  · rw [hempty]
    rfl
  · rfl

/-- `PCOMIRROR_SUBSCRIPTIONS` gives back what was written into it. In the JSON form that is any list of
subscriptions with ids and events. In the compact form a list is read just where the text is laid
out as its entries between commas, and any other text is refused. -/
theorem subscriptions_read (specs : List Spec) :
    (parseSubscriptions (some (jsonForm specs)) = .ok specs ↔ ∀ spec ∈ specs, spec.Named) ∧
    ∀ value : String, (Http.trim value).toList.head? ≠ some '[' →
      (parseSubscriptions (some value) = .ok specs ↔ Layout (value.toList.splitOn ',') specs) :=
  ⟨parse_jsonForm specs, fun _ hform => parse_compact hform⟩

end PcoMirror.Registration
