import Mathlib.Data.Multiset.Sort
import Mathlib.Data.Option.Basic
import PcoMirror.Verification.Divergence.Staleness

/-! A comparison finds nothing exactly where the two documents agree. -/

namespace PcoMirror.Divergence

variable {mirrorBody pcoBody mine theirs : Json} {key : Key} {found ds : List Difference}

/-! ## The room -/

theorem foldl_note {room : ℕ} (h : found.length ≤ room) :
    ds.foldl (note room) found = (found ++ ds).take room := by
  induction ds generalizing found with
  | nil => rw [List.foldl_nil, List.append_nil, List.take_of_length_le h]
  | cons d ds ih =>
      rw [List.foldl_cons, note]
      split_ifs with hroom
      · rw [ih (by rw [List.length_append, List.length_singleton]; exact hroom),
          List.append_assoc, List.singleton_append]
      · have hfull : found.length = room := Nat.le_antisymm h (not_lt.mp hroom)
        rw [ih h, ← hfull, List.take_left, List.take_left]

/-- What was cut off before has no room after it either. -/
theorem take_append_take {α : Type*} (n : ℕ) (xs ys : List α) :
    (xs.take n ++ ys).take n = (xs ++ ys).take n := by
  rw [List.take_append, List.take_append, List.take_take, min_self, List.length_take]
  rcases le_total n xs.length with h | h
  · rw [min_eq_left h, Nat.sub_self, Nat.sub_eq_zero_of_le h]
  · rw [min_eq_right h]

theorem foldl_compareWithin {keys : List Key} {mine theirs : List (Key × Json)}
    (h : found.length ≤ maxDifferences) :
    keys.foldl (fun found key =>
      found ++ compareWithin (maxDifferences - found.length) key
        ((mine.lookup key).getD .null) ((theirs.lookup key).getD .null)) found =
      (found ++ keys.flatMap fun key => compareResource key
        ((mine.lookup key).getD .null) ((theirs.lookup key).getD .null)).take
        maxDifferences := by
  induction keys generalizing found with
  | nil => rw [List.foldl_nil, List.flatMap_nil, List.append_nil, List.take_of_length_le h]
  | cons key keys ih =>
      have hone : found ++ compareWithin (maxDifferences - found.length) key
          ((mine.lookup key).getD .null) ((theirs.lookup key).getD .null) =
            (found ++ compareResource key ((mine.lookup key).getD .null)
              ((theirs.lookup key).getD .null)).take maxDifferences := by
        rw [compareWithin, foldl_note (Nat.zero_le _), List.nil_append, List.take_append,
          List.take_of_length_le h]
      rw [List.foldl_cons, hone, ih (List.length_take_le _ _), take_append_take,
        List.flatMap_cons, List.append_assoc]

/-- Noting pass by pass keeps the first differences of all passes together. -/
theorem compareNoting_eq (mirrorBody pcoBody : Json) (mirrorStatus pcoStatus : ℕ) :
    compareNoting mirrorBody pcoBody mirrorStatus pcoStatus =
      compare mirrorBody pcoBody mirrorStatus pcoStatus := by
  have hpage : (compareStatus mirrorStatus pcoStatus ++ comparePage mirrorBody pcoBody ++
      compareMeta mirrorBody pcoBody).foldl (note maxDifferences) [] =
        (compareStatus mirrorStatus pcoStatus ++ comparePage mirrorBody pcoBody ++
          compareMeta mirrorBody pcoBody).take maxDifferences := by
    rw [foldl_note (Nat.zero_le _), List.nil_append]
  simp only [compareNoting]
  rw [hpage, foldl_compareWithin (List.length_take_le _ _),
    foldl_note (List.length_take_le _ _), List.take_take, min_self, take_append_take,
    List.append_assoc (List.take _ _), take_append_take, ← List.append_assoc]
  rfl

/-! ## Pages -/

theorem filter_contains_eq_nil {xs ys : List String} :
    (xs.filter fun x => !ys.contains x) = [] ↔ ∀ x ∈ xs, x ∈ ys := by
  simp [List.filter_eq_nil_iff]

/-- Two pages are passed over in silence only where they carry the same ids in the same order;
what lies past a page's edge is counted where it is not named. -/
theorem comparePage_eq_nil_iff :
    comparePage mirrorBody pcoBody = [] ↔ dataIds mirrorBody = dataIds pcoBody := by
  constructor
  · intro h
    by_contra hne
    simp only [comparePage, if_neg hne] at h
    generalize (dataIds mirrorBody).filter (fun id => !(dataIds pcoBody).contains id) = onlyMine
      at h
    generalize (dataIds pcoBody).filter (fun id => !(dataIds mirrorBody).contains id) = onlyTheirs
      at h
    cases onlyMine <;> cases onlyTheirs <;> split_ifs at h <;> simp_all
  · intro h
    simp only [comparePage, if_pos h]

/-! ## What agreement is -/

/-- The document carries each of its records once. -/
def Once (body : Json) : Prop :=
  ((resources body).map (·.1)).Nodup

/-- The records of the two pages are of one type. -/
def OneType (mirrorBody pcoBody : Json) : Prop :=
  ∃ type, ∀ key ∈ dataKeys mirrorBody ++ dataKeys pcoBody, key.1 = type

/-- `included`, as the set of its records. -/
def includedKeys (body : Json) : List Key :=
  (keyed (includedItems body)).map (·.1)

/-- The ids that a relationship states; none where its data is missing or null. -/
def related (resource : Json) (name : String) : Option (Multiset String) :=
  match ((Json.obj (objectAt resource "relationships")).member? name).bind (·.member? "data") with
  | none | some .null => none
  | some (.arr items) => some ((keyed items).map (·.1.2) : List String)
  | some item => some ((keyed [item]).map (·.1.2) : List String)

/-- The same attributes, with values that Python takes for equal. -/
def SameAttributes (mine theirs : Json) : Prop :=
  ∀ name, Option.Rel (fun x y => pyEq x y = true) ((objectAt mine "attributes").lookup name)
    ((objectAt theirs "attributes").lookup name)

/-- What PCO states of its relationships, the mirror states as well. -/
def KeepsRelated (mine theirs : Json) : Prop :=
  ∀ name ids, related theirs name = some ids → related mine name = some ids

/-- Every key of PCO's meta that counts is in the mirror's, and the counts are the same. -/
def SameMeta (mirrorBody pcoBody : Json) : Prop :=
  ∀ key theirs, (objectAt pcoBody "meta").lookup key = some theirs → key ∉ ignoredMeta →
    ∃ mine, (objectAt mirrorBody "meta").lookup key = some mine ∧
      (key = "total_count" ∨ key = "count" → pyEq mine theirs = true)

/-- The mirror's answer says what PCO's does. -/
structure Agree (mirrorBody pcoBody : Json) (mirrorStatus pcoStatus : ℕ) : Prop where
  status : mirrorStatus = pcoStatus ∨ mirrorStatus = 410 ∧ pcoStatus = 404
  page : dataIds mirrorBody = dataIds pcoBody
  included : ∀ key, key ∈ includedKeys mirrorBody ↔ key ∈ includedKeys pcoBody
  attributes : ∀ key mine theirs, (resources mirrorBody).lookup key = some mine →
    (resources pcoBody).lookup key = some theirs → SameAttributes mine theirs
  relationships : ∀ key mine theirs, (resources mirrorBody).lookup key = some mine →
    (resources pcoBody).lookup key = some theirs → KeepsRelated mine theirs
  counts : SameMeta mirrorBody pcoBody

/-! ## Each pass finds nothing where its part agrees -/

theorem compareStatus_eq_nil_iff {mirrorStatus pcoStatus : ℕ} :
    compareStatus mirrorStatus pcoStatus = [] ↔
      mirrorStatus = pcoStatus ∨ mirrorStatus = 410 ∧ pcoStatus = 404 := by
  rw [compareStatus]
  split_ifs with h
  · simp only [false_iff]
    tauto
  · simp only [true_iff]
    tauto

theorem mem_sortTexts {x : String} {xs : List String} : x ∈ sortTexts xs ↔ x ∈ xs := by
  rw [sortTexts, List.mem_mergeSort, List.mem_dedup]

theorem compareMeta_eq_nil_iff :
    compareMeta mirrorBody pcoBody = [] ↔ SameMeta mirrorBody pcoBody := by
  simp only [compareMeta, List.filterMap_eq_nil_iff, List.mem_filter, mem_sortTexts,
    mem_keys_iff, SameMeta]
  constructor
  · intro h key theirs hkey hcounts
    have hnone := h key ⟨⟨theirs, hkey⟩, by simpa using hcounts⟩
    rw [hkey] at hnone
    cases hmine : (objectAt mirrorBody "meta").lookup key with
    | none => simp [hmine] at hnone
    | some mine =>
        refine ⟨mine, rfl, fun hcount => ?_⟩
        simpa [hmine, hcount] using hnone
  · rintro h key ⟨⟨theirs, hkey⟩, hcounts⟩
    obtain ⟨mine, hmine, hcount⟩ := h key theirs hkey (by simpa using hcounts)
    simp only [hkey, hmine, Option.getD_some]
    rw [if_neg]
    rintro ⟨hname, hne⟩
    simp [hcount hname] at hne

theorem compareAttributes_eq_nil_iff :
    compareAttributes key mine theirs = [] ↔ SameAttributes mine theirs := by
  simp only [compareAttributes, List.filterMap_eq_nil_iff, mem_sortTexts, List.mem_append,
    mem_keys_iff, SameAttributes]
  refine forall_congr' fun name => ?_
  cases (objectAt mine "attributes").lookup name with
  | none => cases (objectAt theirs "attributes").lookup name <;> simp
  | some x => cases (objectAt theirs "attributes").lookup name <;> simp

theorem sort_keyed_singleton (item : Json) :
    ((keyed [item]).map (·.1.2)).mergeSort (· ≤ ·) = (keyed [item]).map (·.1.2) := by
  cases h : keyOf item <;> simp [keyed, h]

/-- The ids are sorted so that their order does not count. -/
theorem relationshipIds_eq (resource : Json) (name : String) :
    relationshipIds resource name = (related resource name).map (Multiset.sort ·) := by
  simp only [relationshipIds, related]
  generalize ((Json.obj (objectAt resource "relationships")).member? name).bind
    (·.member? "data") = data
  cases data with
  | none => rfl
  | some item =>
      cases item with
      | null => rfl
      | arr items => simp only [Option.map_some, Multiset.coe_sort]
      | _ => simp only [Option.map_some, Multiset.coe_sort, sort_keyed_singleton]

theorem related_of_lookup_eq_none {resource : Json} {name : String}
    (h : (objectAt resource "relationships").lookup name = none) : related resource name = none := by
  simp only [related, Json.member?, h, Option.bind_none]

theorem compareRelationships_eq_nil_iff :
    compareRelationships key mine theirs = [] ↔ KeepsRelated mine theirs := by
  simp only [compareRelationships, List.filterMap_eq_nil_iff, mem_sortTexts, mem_keys_iff]
  constructor
  · intro h name ids hids
    have hstated : ∃ v, (objectAt theirs "relationships").lookup name = some v := by
      rw [← Option.isSome_iff_exists, ← Option.ne_none_iff_isSome]
      intro hnone
      rw [related_of_lookup_eq_none hnone] at hids
      cases hids
    have hname := h name hstated
    rw [relationshipIds_eq, relationshipIds_eq, hids] at hname
    cases hmine : related mine name with
    | none => simp [hmine] at hname
    | some others =>
        simp only [hmine, Option.map_some, ite_eq_left_iff, reduceCtorEq, imp_false,
          not_not] at hname
        have hcoe := congrArg (fun sorted : List String => (sorted : Multiset String)) hname
        simpa only [Multiset.sort_eq, Option.some_inj] using hcoe
  · intro h name _
    rw [relationshipIds_eq, relationshipIds_eq]
    cases htheirs : related theirs name with
    | none => rfl
    | some ids =>
        rw [h name ids htheirs]
        simp

theorem compareShared_eq_nil_iff :
    compareShared mirrorBody pcoBody = [] ↔ ∀ key mine theirs,
      (resources mirrorBody).lookup key = some mine →
      (resources pcoBody).lookup key = some theirs →
      SameAttributes mine theirs ∧ KeepsRelated mine theirs := by
  simp only [compareShared, List.flatMap_eq_nil_iff, mem_sharedKeys, compareResource,
    List.append_eq_nil_iff, compareAttributes_eq_nil_iff, compareRelationships_eq_nil_iff]
  constructor
  · intro h key mine theirs hmine htheirs
    simpa only [hmine, htheirs, Option.getD_some] using h key ⟨mine, theirs, hmine, htheirs⟩
  · rintro h key ⟨mine, theirs, hmine, htheirs⟩
    simpa only [hmine, htheirs, Option.getD_some] using h key mine theirs hmine htheirs

theorem comparePresence_eq_nil_iff :
    comparePresence mirrorBody pcoBody = [] ↔
      ∀ one ∈ oneSided mirrorBody pcoBody, one.windowed = true := by
  rw [comparePresence, List.filterMap_eq_nil_iff]
  refine forall₂_congr fun one _ => ?_
  cases one.windowed <;> simp

/-! ## Records on one side only -/

theorem dataKeys_eq_map {type : Option String} {body : Json}
    (h : ∀ key ∈ dataKeys body, key.1 = type) :
    dataKeys body = (dataIds body).map fun id => (type, id) := by
  rw [dataKeys] at h ⊢
  rw [dataIds, List.map_map]
  refine List.map_congr_left fun kv hkv => ?_
  exact Prod.ext (h kv.1 (List.mem_map_of_mem hkv)) rfl

theorem OneType.dataKeys_eq (h : OneType mirrorBody pcoBody)
    (hpage : dataIds mirrorBody = dataIds pcoBody) : dataKeys mirrorBody = dataKeys pcoBody := by
  obtain ⟨type, htype⟩ := h
  rw [dataKeys_eq_map fun key hkey => htype key (List.mem_append_left _ hkey),
    dataKeys_eq_map fun key hkey => htype key (List.mem_append_right _ hkey), hpage]

theorem mem_resources_keys {body : Json} :
    key ∈ (resources body).map (·.1) ↔ key ∈ dataKeys body ∨ key ∈ includedKeys body := by
  rw [resources, List.map_append, List.mem_append, List.map_reverse, List.mem_reverse]
  rfl

theorem Once.not_mem_data {body : Json} (h : Once body) (hkey : key ∈ includedKeys body) :
    key ∉ dataKeys body := by
  rw [Once, resources, List.map_append] at h
  intro hdata
  refine List.disjoint_of_nodup_append h ?_ hkey
  rwa [List.map_reverse, List.mem_reverse]

theorem mem_oneSided {one : OneSided} :
    one ∈ oneSided mirrorBody pcoBody ↔
      (∃ key ∈ onlyIn (resources pcoBody) (resources mirrorBody),
        one = ⟨key, .pco, ((resources pcoBody).lookup key).getD .null,
          windowedSide mirrorBody pcoBody .pco && (dataKeys pcoBody).contains key⟩) ∨
      ∃ key ∈ onlyIn (resources mirrorBody) (resources pcoBody),
        one = ⟨key, .mirror, ((resources mirrorBody).lookup key).getD .null,
          windowedSide mirrorBody pcoBody .mirror && (dataKeys mirrorBody).contains key⟩ := by
  rw [oneSided, List.mem_append, oneSidedOf, oneSidedOf, List.mem_map, List.mem_map]
  simp only [eq_comm (a := one)]

theorem mem_onlyIn_keys {these those : List (Key × Json)} :
    key ∈ onlyIn these those ↔ key ∈ these.map (·.1) ∧ key ∉ those.map (·.1) := by
  rw [mem_onlyIn, mem_keys_iff, mem_keys_iff, Option.eq_none_iff_forall_ne_some, not_exists]

/-- Where the pages are one and the same, a page's edge explains no record, and what is on one
side only is a sideload. -/
theorem windowed_iff_included (hmine : Once mirrorBody) (htheirs : Once pcoBody)
    (hdata : dataKeys mirrorBody = dataKeys pcoBody) :
    (∀ one ∈ oneSided mirrorBody pcoBody, one.windowed = true) ↔
      ∀ key, key ∈ includedKeys mirrorBody ↔ key ∈ includedKeys pcoBody := by
  constructor
  · intro h key
    constructor
    · intro hkey
      by_contra hnot
      have hone := h _ (mem_oneSided.mpr (.inr ⟨key, mem_onlyIn_keys.mpr
        ⟨mem_resources_keys.mpr (.inr hkey), ?_⟩, rfl⟩))
      · simp [hmine.not_mem_data hkey] at hone
      · rw [mem_resources_keys, ← hdata]
        simp [hmine.not_mem_data hkey, hnot]
    · intro hkey
      by_contra hnot
      have hone := h _ (mem_oneSided.mpr (.inl ⟨key, mem_onlyIn_keys.mpr
        ⟨mem_resources_keys.mpr (.inr hkey), ?_⟩, rfl⟩))
      · simp [htheirs.not_mem_data hkey] at hone
      · rw [mem_resources_keys, hdata]
        simp [htheirs.not_mem_data hkey, hnot]
  · intro h one hone
    have hsame (key : Key) : key ∈ (resources mirrorBody).map (·.1) ↔
        key ∈ (resources pcoBody).map (·.1) := by
      rw [mem_resources_keys, mem_resources_keys, hdata, h key]
    exfalso
    rcases mem_oneSided.mp hone with ⟨key, hkey, -⟩ | ⟨key, hkey, -⟩
    · obtain ⟨hin, hout⟩ := mem_onlyIn_keys.mp hkey
      exact hout ((hsame key).mpr hin)
    · obtain ⟨hin, hout⟩ := mem_onlyIn_keys.mp hkey
      exact hout ((hsame key).mp hin)

/-! ## The whole comparison -/

theorem compare_eq_nil_iff {mirrorStatus pcoStatus : ℕ} :
    compare mirrorBody pcoBody mirrorStatus pcoStatus = [] ↔
      compareStatus mirrorStatus pcoStatus = [] ∧ comparePage mirrorBody pcoBody = [] ∧
        compareMeta mirrorBody pcoBody = [] ∧ compareShared mirrorBody pcoBody = [] ∧
        comparePresence mirrorBody pcoBody = [] := by
  rw [compare, List.take_eq_nil_iff]
  simp [maxDifferences]

/-- A comparison of documents that carry each record once, with data of one type, is empty where
they agree and only there, and never longer than its bound. -/
theorem compare_exact (mirrorBody pcoBody : Json) (mirrorStatus pcoStatus : ℕ) :
    (compareNoting mirrorBody pcoBody mirrorStatus pcoStatus).length ≤ maxDifferences ∧
      (Once mirrorBody → Once pcoBody → OneType mirrorBody pcoBody →
        (compareNoting mirrorBody pcoBody mirrorStatus pcoStatus = [] ↔
          Agree mirrorBody pcoBody mirrorStatus pcoStatus)) := by
  rw [compareNoting_eq]
  refine ⟨List.length_take_le _ _, fun hmine htheirs htype => ?_⟩
  rw [compare_eq_nil_iff, compareStatus_eq_nil_iff, comparePage_eq_nil_iff,
    compareMeta_eq_nil_iff, compareShared_eq_nil_iff, comparePresence_eq_nil_iff]
  constructor
  · rintro ⟨hstatus, hpage, hmeta, hshared, hpresence⟩
    exact {
      status := hstatus
      page := hpage
      included := (windowed_iff_included hmine htheirs (htype.dataKeys_eq hpage)).mp hpresence
      attributes := fun key x y hx hy => (hshared key x y hx hy).1
      relationships := fun key x y hx hy => (hshared key x y hx hy).2
      counts := hmeta }
  · intro h
    exact ⟨h.status, h.page, h.counts,
      fun key x y hx hy => ⟨h.attributes key x y hx hy, h.relationships key x y hx hy⟩,
      (windowed_iff_included hmine htheirs (htype.dataKeys_eq h.page)).mpr h.included⟩

/-- One email on a page that goes on, with the person it is of or without. -/
def emailOf (included : List Json) : Json :=
  .obj [("data", .arr [emailAt "7" "2024-03-01T00:00:00Z" true]), ("included", .arr included),
    ("meta", .obj [("total_count", .int 9), ("next", .obj [("offset", .int 1)])])]

def adaAlone : Json :=
  .obj [("type", .str "Person"), ("id", .str "1"),
    ("attributes", .obj [("first_name", .str "Ada")])]

/-- A sideload that only PCO sends is noted, though the page goes on. -/
theorem compare_exact_sideload :
    compareNoting (emailOf []) (emailOf [adaAlone]) 200 200 ≠ [] := by
  have hmine : Once (emailOf []) := by
    unfold Once
    decide
  have htheirs : Once (emailOf [adaAlone]) := by
    unfold Once
    decide
  rw [Ne, (compare_exact (emailOf []) (emailOf [adaAlone]) 200 200).2 hmine htheirs
    ⟨some "Email", by decide⟩]
  intro h
  have hmirror := (h.included (some "Person", "1")).mpr (by decide)
  exact absurd hmirror (by decide)

end PcoMirror.Divergence
