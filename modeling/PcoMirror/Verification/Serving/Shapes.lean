import PcoMirror.Model.Serving.WriteThrough

/-! Which documents the serving code can read: the shapes it takes for granted of an answer
and of a request body. -/

namespace PcoMirror

open Program

/-! ## Members -/

/-- What stands for an object: nothing, something falsy, or an object. -/
def Openable (j : Option Json) : Prop :=
  ∀ v, j = some v → v.truthy = true → ∃ members, v = .obj members

/-- The member of what stands for an object. -/
def opened (j : Option Json) (key : String) : Option Json :=
  (orEmptyObj j).member? key

theorem openable_iff {j : Option Json} : Openable j ↔ ∃ members, orEmptyObj j = .obj members := by
  cases j with
  | none => exact ⟨fun _ => ⟨[], rfl⟩, fun _ => nofun⟩
  | some v =>
      by_cases htruthy : v.truthy = true
      · have hself : orEmptyObj (some v) = v := by simp [orEmptyObj, htruthy]
        rw [hself]
        exact ⟨fun h => h v rfl htruthy, fun h _ heq _ => by cases heq; exact h⟩
      · have hempty : orEmptyObj (some v) = .obj [] := by simp [orEmptyObj, htruthy]
        rw [hempty]
        exact ⟨fun _ => ⟨[], rfl⟩, fun _ _ heq htrue => by cases heq; exact absurd htrue htruthy⟩

theorem pyGet_orEmptyObj_eq_ok {j : Option Json} {key : String} {v : Option Json} :
    pyGet (orEmptyObj j) key = .ok v ↔ Openable j ∧ v = opened j key := by
  rw [openable_iff, opened]
  cases orEmptyObj j with
  | obj members =>
      refine ⟨fun h => ?_, fun ⟨_, h⟩ => by rw [h]; rfl⟩
      cases h
      exact ⟨⟨members, rfl⟩, rfl⟩
  | null | bool _ | int _ | real _ | str _ | arr _ => exact ⟨nofun, fun ⟨⟨_, h⟩, _⟩ => by cases h⟩

theorem succeeds_pyGet {j : Option Json} {key : String} :
    Succeeds (pyGet (orEmptyObj j) key) ↔ Openable j :=
  ⟨fun ⟨_, h⟩ => (pyGet_orEmptyObj_eq_ok.mp h).1, fun h => ⟨_, pyGet_orEmptyObj_eq_ok.mpr ⟨h, rfl⟩⟩⟩

/-- Reading a member and going on with it. -/
theorem succeeds_pyGet_bind {α : Type} {j : Option Json} {key : String}
    {f : Option Json → Except PyError α} :
    Succeeds (pyGet (orEmptyObj j) key >>= f) ↔ Openable j ∧ Succeeds (f (opened j key)) := by
  rw [succeeds_bind]
  constructor
  · rintro ⟨v, hget, hrest⟩
    obtain ⟨hopen, rfl⟩ := pyGet_orEmptyObj_eq_ok.mp hget
    exact ⟨hopen, hrest⟩
  · rintro ⟨hopen, hrest⟩
    exact ⟨_, pyGet_orEmptyObj_eq_ok.mpr ⟨hopen, rfl⟩, hrest⟩

/-! ## The records a write moved -/

/-- Each array edge of the request stands for an object. -/
def NamesReadable (r : Res) (sent : Json) : Prop :=
  ∀ name rel, (name, rel) ∈ r.info.relationships → rel.kind = .json →
    Openable ((sentRelationships sent).lookup name)

theorem succeeds_namedOn {rels : List (String × Json)} {name : String} {rel : Rel} :
    Succeeds (namedOn rels name rel) ↔ (rel.kind = .json → Openable (rels.lookup name)) := by
  unfold namedOn
  by_cases hkind : rel.kind = .json
  · rw [if_neg (by simpa using hkind), forall_prop_of_true hkind]
    refine succeeds_pyGet_bind.trans (and_iff_left ?_)
    match opened (rels.lookup name) "data" with
    | some (.arr items) => exact succeeds_pure _
    | none => exact succeeds_pure _
    | some .null | some (.bool _) | some (.int _) | some (.real _) | some (.str _)
    | some (.obj _) => exact succeeds_pure _
  · rw [if_pos (by simpa using hkind)]
    exact iff_of_true (succeeds_pure _) fun h => absurd h hkind

theorem succeeds_namedPeers {r : Res} {sent : Json} :
    Succeeds (namedPeers r sent) ↔ NamesReadable r sent := by
  unfold namedPeers
  rw [succeeds_bind_pure, succeeds_mapM]
  constructor
  · intro h name rel hmem
    exact succeeds_namedOn.mp (h (name, rel) hmem)
  · intro h e hmem
    exact succeeds_namedOn.mpr (h e.1 e.2 hmem)

/-- What names the member in an answer, and in a request, stands for an object at each step. -/
def MembersReadable (out sent : Json) : Prop :=
  Openable (some out) ∧
    (∀ data, opened (some out) "data" = some (.obj data) →
      Openable (data.lookup "relationships") ∧
        Openable (opened (data.lookup "relationships") "person") ∧
        Openable (opened (opened (data.lookup "relationships") "person") "data")) ∧
    Openable (some sent) ∧ Openable (opened (some sent) "data") ∧
    Openable (opened (opened (some sent) "data") "attributes")

theorem succeeds_answeredPerson {data : Option Json} :
    Succeeds (answeredPerson data) ↔ ∀ members, data = some (.obj members) →
      Openable (members.lookup "relationships") ∧
        Openable (opened (members.lookup "relationships") "person") ∧
        Openable (opened (opened (members.lookup "relationships") "person") "data") := by
  match data with
  | some (.obj members) =>
      simp only [Option.some.injEq, Json.obj.injEq, forall_eq']
      unfold answeredPerson
      rw [succeeds_pyGet_bind, succeeds_pyGet_bind, succeeds_pyGet]
  | none | some .null | some (.bool _) | some (.int _) | some (.real _) | some (.str _)
  | some (.arr _) => exact iff_of_true (succeeds_pure _) fun _ h => by cases h

theorem succeeds_askedPerson {sent : Json} :
    Succeeds (askedPerson sent) ↔ Openable (some sent) ∧ Openable (opened (some sent) "data") ∧
      Openable (opened (opened (some sent) "data") "attributes") := by
  unfold askedPerson
  rw [succeeds_pyGet_bind, succeeds_pyGet_bind, succeeds_pyGet]

theorem succeeds_membersTouched {out sent : Json} :
    Succeeds (membersTouched out sent) ↔ MembersReadable out sent := by
  unfold membersTouched MembersReadable
  rw [succeeds_pyGet_bind, ← succeeds_answeredPerson, ← succeeds_askedPerson]
  simp only [succeeds_bind, succeeds_pure, and_true]
  refine and_congr_right fun _ => ⟨?_, ?_⟩
  · rintro ⟨a, ha, hb⟩
    exact ⟨⟨a, ha⟩, hb⟩
  · rintro ⟨⟨a, ha⟩, hb⟩
    exact ⟨a, ha, hb⟩

/-! ## A peer's stored edge -/

/-- What SQLite reads in the entry names the record. -/
def Site.Names (site : Site) (subjectId : String) (entry : Json) : Prop :=
  ∃ value, site.entryValue entry = .ok value ∧ idText value = some subjectId

/-- Every text of an edge, up to the entry that names the record, is JSON. -/
def Site.EdgeReadable (site : Site) (subjectId : String) (entries : List Json) : Prop :=
  ∀ before text after, entries = before ++ .str text :: after →
    (∀ entry ∈ before, ¬ site.Names subjectId entry) → site.readJson text ≠ none

theorem Site.succeeds_entryValue {site : Site} {entry : Json} :
    Succeeds (site.entryValue entry) ↔ ∀ text, entry = .str text → site.readJson text ≠ none := by
  cases entry with
  | str text =>
      simp only [entryValue, Json.str.injEq, forall_eq']
      cases site.readJson text with
      | none => simp
      | some j => simp
  | null | bool _ | int _ | real _ | arr _ | obj _ =>
      exact iff_of_true (succeeds_ok _) fun _ h => by cases h

theorem Site.succeeds_namesSubject {site : Site} {subjectId : String} {entries : List Json} :
    Succeeds (site.namesSubject subjectId entries) ↔ site.EdgeReadable subjectId entries := by
  induction entries with
  | nil => exact iff_of_true (succeeds_pure _) fun before text after h => by simp at h
  | cons entry rest ih =>
      unfold namesSubject
      rw [succeeds_bind]
      constructor
      · rintro ⟨value, hvalue, hrest⟩ before text after hsplit hbefore
        match before with
        | [] =>
            obtain ⟨rfl, rfl⟩ := List.cons.inj hsplit
            exact succeeds_entryValue.mp ⟨value, hvalue⟩ text rfl
        | first :: before =>
            obtain ⟨rfl, rfl⟩ := List.cons.inj hsplit
            have hunnamed : idText value ≠ some subjectId :=
              fun hid => hbefore entry (by simp) ⟨value, hvalue, hid⟩
            rw [if_neg hunnamed] at hrest
            exact ih.mp hrest before text after rfl fun e he => hbefore e (by simp [he])
      · intro h
        obtain ⟨value, hvalue⟩ := succeeds_entryValue.mpr fun text (heq : entry = .str text) =>
          h [] text rest (by rw [heq]; rfl) (by simp)
        refine ⟨value, hvalue, ?_⟩
        split_ifs with hid
        · exact succeeds_pure _
        · refine ih.mpr fun before text after hsplit hbefore =>
            h (entry :: before) text after (by rw [hsplit]; rfl) ?_
          rintro e he ⟨value', hvalue', hid'⟩
          obtain rfl | he := List.mem_cons.mp he
          · rw [hvalue] at hvalue'
            cases hvalue'
            exact hid hid'
          · exact hbefore e he ⟨value', hvalue', hid'⟩

/-! ## What is served -/

/-- A URL that can be pointed back at the mirror, and anything that is no URL. -/
def Site.UrlReadable (site : Site) (url : String) : Prop :=
  hasTwoSlashes url = true → Succeeds (site.urlparse url) ∧ Succeeds (site.urlparse site.baseUrl)

theorem Site.succeeds_hosts {site : Site} :
    Succeeds site.hosts ↔ Succeeds (site.urlparse site.baseUrl) :=
  succeeds_bind_pure

theorem Site.succeeds_mirrorPath {site : Site} {url : String} :
    Succeeds (site.mirrorPath url) ↔ site.UrlReadable url := by
  unfold mirrorPath UrlReadable
  by_cases hslashes : hasTwoSlashes url = true
  · rw [if_neg (by simpa using hslashes), forall_prop_of_true hslashes, ← succeeds_hosts,
      succeeds_bind]
    have hrest : ∀ parsed : Url.Parts, Succeeds (do
        if !(← site.hosts).contains (String.ofList parsed.netloc) then return url
        return if parsed.query.isEmpty then String.ofList parsed.path
          else String.ofList parsed.path ++ "?" ++ String.ofList parsed.query :
            Except PyError String) ↔ Succeeds site.hosts := by
      intro parsed
      rw [succeeds_bind]
      refine exists_congr fun hosts => and_iff_left ?_
      split_ifs <;> exact succeeds_pure _
    simp only [hrest]
    exact ⟨fun ⟨parsed, h, hosts⟩ => ⟨⟨parsed, h⟩, hosts⟩, fun ⟨⟨parsed, h⟩, hosts⟩ => ⟨parsed, h, hosts⟩⟩
  · rw [if_pos (by simpa using hslashes)]
    exact iff_of_true (succeeds_pure _) fun h => absurd h hslashes

/-- Every text among the links that are rewritten can be. -/
def Site.LinksReadable (site : Site) (kept : String → Bool) (members : List (String × Json)) :
    Prop :=
  ∀ links, members.lookup "links" = some (.obj links) →
    ∀ name url, (name, .str url) ∈ links → kept name = false → site.UrlReadable url

/-- The links of a resource, and of each of its relationships. -/
def Site.ResourceReadable (site : Site) (members : List (String × Json)) : Prop :=
  site.LinksReadable (· = "html") members ∧
    ∀ rels, members.lookup "relationships" = some (.obj rels) →
      ∀ name rel, (name, .obj rel) ∈ rels → site.LinksReadable (fun _ => false) rel

/-- The links of a document, of its records, and of what is included, which can be gone through. -/
structure Site.DocumentReadable (site : Site) (members : List (String × Json)) : Prop where
  record : ∀ data, members.lookup "data" = some (.obj data) → site.ResourceReadable data
  records : ∀ items, members.lookup "data" = some (.arr items) →
    ∀ item, .obj item ∈ items → site.ResourceReadable item
  included : ∀ items, members.lookup "included" = some (.arr items) →
    ∀ item, .obj item ∈ items → site.ResourceReadable item
  iterable : ∀ j, members.lookup "included" = some j → j.truthy = true → isIterable j = true
  links : site.LinksReadable (fun _ => false) members

theorem Site.succeeds_toMirrorPath {site : Site} {v : Json} :
    Succeeds (site.toMirrorPath v) ↔ ∀ url, v = .str url → site.UrlReadable url := by
  cases v with
  | str url =>
      simp only [toMirrorPath, Json.str.injEq, forall_eq']
      rw [succeeds_bind_pure, succeeds_mirrorPath]
  | null | bool _ | int _ | real _ | arr _ | obj _ =>
      exact iff_of_true (succeeds_pure _) fun _ h => by cases h

theorem Site.succeeds_withLinks {site : Site} {kept : String → Bool}
    {members : List (String × Json)} :
    Succeeds (site.withLinks kept members) ↔ site.LinksReadable kept members := by
  unfold withLinks LinksReadable rewriteLinks
  match hlinks : members.lookup "links" with
  | some (.obj links) =>
      simp only [Option.some.injEq, Json.obj.injEq, forall_eq']
      rw [succeeds_bind_pure, succeeds_mapM]
      simp only [succeeds_bind_pure]
      have heach : ∀ name v, Succeeds (site.rewriteLink kept name v) ↔
          ∀ url, v = .str url → kept name = false → site.UrlReadable url := by
        intro name v
        unfold rewriteLink
        by_cases hkept : kept name = true
        · rw [if_pos hkept]
          exact iff_of_true (succeeds_ok _) fun _ _ h => by simp [hkept] at h
        · rw [if_neg hkept, succeeds_toMirrorPath]
          exact ⟨fun h url heq _ => h url heq, fun h url heq => h url heq (by simpa using hkept)⟩
      constructor
      · intro h name url hmem
        exact (heach _ _).mp (h _ hmem) url rfl
      · rintro h ⟨name, v⟩ hmem
        exact (heach _ _).mpr fun url heq => h name url (by rw [← heq]; exact hmem)
  | none | some .null | some (.bool _) | some (.int _) | some (.real _) | some (.str _)
  | some (.arr _) => exact iff_of_true (succeeds_pure _) fun _ h => by cases h

theorem Site.succeeds_rewriteRelationships {site : Site} {members : List (String × Json)} :
    Succeeds (site.rewriteRelationships members) ↔
      ∀ rels, members.lookup "relationships" = some (.obj rels) →
        ∀ name rel, (name, .obj rel) ∈ rels → site.LinksReadable (fun _ => false) rel := by
  unfold rewriteRelationships
  match hrels : members.lookup "relationships" with
  | some (.obj rels) =>
      simp only [Option.some.injEq, Json.obj.injEq, forall_eq']
      rw [succeeds_bind_pure, succeeds_mapM]
      simp only [succeeds_bind_pure]
      have heach : ∀ v, Succeeds (site.rewriteRelationship v) ↔
          ∀ rel, v = .obj rel → site.LinksReadable (fun _ => false) rel := by
        intro v
        cases v with
        | obj rel =>
            simp only [rewriteRelationship, Json.obj.injEq, forall_eq']
            rw [succeeds_bind_pure, succeeds_withLinks]
        | null | bool _ | int _ | real _ | str _ | arr _ =>
            exact iff_of_true (succeeds_pure _) fun _ h => by cases h
      constructor
      · intro h name rel hmem
        exact (heach _).mp (h _ hmem) rel rfl
      · rintro h ⟨name, v⟩ hmem
        exact (heach _).mpr fun rel heq => h name rel (by rw [← heq]; exact hmem)
  | none | some .null | some (.bool _) | some (.int _) | some (.real _) | some (.str _)
  | some (.arr _) => exact iff_of_true (succeeds_pure _) fun _ h => by cases h

theorem Site.withLinks_lookup {site : Site} {kept : String → Bool}
    {members rewritten : List (String × Json)} (h : site.withLinks kept members = .ok rewritten)
    {key : String} (hkey : key ≠ "links") : rewritten.lookup key = members.lookup key := by
  unfold withLinks at h
  split at h
  · obtain ⟨links, -, hrest⟩ := except_bind_eq_ok.mp h
    cases hrest
    exact Json.lookup_assign_of_ne hkey _ _
  · cases h
    rfl

theorem Site.succeeds_rewriteResource {site : Site} {resource : Json} :
    Succeeds (site.rewriteResource resource) ↔
      ∀ members, resource = .obj members → site.ResourceReadable members := by
  cases resource with
  | obj members =>
      simp only [rewriteResource, Json.obj.injEq, forall_eq']
      rw [succeeds_bind, ResourceReadable, ← succeeds_withLinks]
      simp only [succeeds_bind_pure, succeeds_rewriteRelationships]
      constructor
      · rintro ⟨rewritten, hlinks, hrels⟩
        rw [withLinks_lookup hlinks (by decide)] at hrels
        exact ⟨⟨rewritten, hlinks⟩, hrels⟩
      · rintro ⟨⟨rewritten, hlinks⟩, hrels⟩
        refine ⟨rewritten, hlinks, ?_⟩
        rw [withLinks_lookup hlinks (by decide)]
        exact hrels
  | null | bool _ | int _ | real _ | str _ | arr _ =>
      exact iff_of_true (succeeds_pure _) fun _ h => by cases h

theorem Site.succeeds_rewriteEach {site : Site} {key : String} {items : List Json}
    {members : List (String × Json)} :
    Succeeds (site.rewriteEach key items members) ↔
      ∀ item, .obj item ∈ items → site.ResourceReadable item := by
  unfold rewriteEach
  rw [succeeds_bind_pure, succeeds_mapM]
  simp only [succeeds_rewriteResource]
  exact ⟨fun h item hmem => h _ hmem item rfl,
    fun h resource hmem item heq => h item (by rw [← heq]; exact hmem)⟩

theorem Site.rewriteEach_lookup {site : Site} {key other : String} {items : List Json}
    {members rewritten : List (String × Json)} (h : site.rewriteEach key items members = .ok rewritten)
    (hother : other ≠ key) : rewritten.lookup other = members.lookup other := by
  obtain ⟨items', -, hrest⟩ := except_bind_eq_ok.mp h
  cases hrest
  exact Json.lookup_assign_of_ne hother _ _

theorem Site.succeeds_rewriteData {site : Site} {members : List (String × Json)} :
    Succeeds (site.rewriteData members) ↔
      (∀ data, members.lookup "data" = some (.obj data) → site.ResourceReadable data) ∧
        ∀ items, members.lookup "data" = some (.arr items) →
          ∀ item, .obj item ∈ items → site.ResourceReadable item := by
  unfold rewriteData
  match members.lookup "data" with
  | some (.obj data) =>
      simp only [Option.some.injEq, Json.obj.injEq, forall_eq', reduceCtorEq, false_implies,
        implies_true, and_true]
      rw [succeeds_bind_pure, succeeds_rewriteResource]
      simp only [Json.obj.injEq, forall_eq']
  | some (.arr items) =>
      simp only [Option.some.injEq, Json.arr.injEq, forall_eq', reduceCtorEq, false_implies,
        implies_true, true_and]
      exact succeeds_rewriteEach
  | none | some .null | some (.bool _) | some (.int _) | some (.real _) | some (.str _) =>
      exact iff_of_true (succeeds_pure _) ⟨nofun, nofun⟩

theorem Site.rewriteData_lookup {site : Site} {members rewritten : List (String × Json)}
    (h : site.rewriteData members = .ok rewritten) {key : String} (hkey : key ≠ "data") :
    rewritten.lookup key = members.lookup key := by
  unfold rewriteData at h
  split at h
  · obtain ⟨data, -, hrest⟩ := except_bind_eq_ok.mp h
    cases hrest
    exact Json.lookup_assign_of_ne hkey _ _
  · exact rewriteEach_lookup h hkey
  · cases h
    rfl

theorem Site.succeeds_rewriteIncluded {site : Site} {members : List (String × Json)} :
    Succeeds (site.rewriteIncluded members) ↔
      (∀ items, members.lookup "included" = some (.arr items) →
        ∀ item, .obj item ∈ items → site.ResourceReadable item) ∧
      ∀ j, members.lookup "included" = some j → j.truthy = true → isIterable j = true := by
  unfold rewriteIncluded
  have hscalar : ∀ j : Json, Succeeds (if j.truthy && !isIterable j then throw .typeError
      else return members : Except PyError (List (String × Json))) ↔
      (j.truthy = true → isIterable j = true) := by
    intro j
    cases hj : j.truthy <;> cases hiter : isIterable j <;> simp
  match members.lookup "included" with
  | some (.arr items) =>
      simp only [Option.some.injEq, Json.arr.injEq, forall_eq']
      exact succeeds_rewriteEach.trans (and_iff_left fun _ => rfl).symm
  | none => exact iff_of_true (succeeds_pure _) ⟨nofun, nofun⟩
  | some .null | some (.bool _) | some (.int _) | some (.real _) | some (.str _)
  | some (.obj _) =>
      simp only [Option.some.injEq, reduceCtorEq, false_implies, implies_true, true_and, forall_eq']
      exact hscalar _

theorem Site.rewriteIncluded_lookup {site : Site} {members rewritten : List (String × Json)}
    (h : site.rewriteIncluded members = .ok rewritten) {key : String} (hkey : key ≠ "included") :
    rewritten.lookup key = members.lookup key := by
  unfold rewriteIncluded at h
  split at h
  · exact rewriteEach_lookup h hkey
  · split_ifs at h
    cases h
    rfl
  · cases h
    rfl

/-- A document can be rewritten exactly where each of its links can, and what it includes can be
gone through. -/
theorem Site.succeeds_rewriteDocument {site : Site} {members : List (String × Json)} :
    Succeeds (site.rewriteDocument (.obj members)) ↔ site.DocumentReadable members := by
  unfold rewriteDocument
  simp only [succeeds_bind, succeeds_pure, and_true]
  constructor
  · rintro ⟨withData, hdata, withIncluded, hincluded, hlinks⟩
    have hrecords := succeeds_rewriteData.mp ⟨_, hdata⟩
    have hsideload := succeeds_rewriteIncluded.mp ⟨_, hincluded⟩
    rw [rewriteData_lookup hdata (by decide)] at hsideload
    have hlast := succeeds_withLinks.mp hlinks
    unfold LinksReadable at hlast
    rw [rewriteIncluded_lookup hincluded (by decide), rewriteData_lookup hdata (by decide)] at hlast
    exact ⟨hrecords.1, hrecords.2, hsideload.1, hsideload.2, hlast⟩
  · intro h
    obtain ⟨withData, hdata⟩ := succeeds_rewriteData.mpr ⟨h.record, h.records⟩
    obtain ⟨withIncluded, hincluded⟩ : Succeeds (site.rewriteIncluded withData) := by
      rw [succeeds_rewriteIncluded, rewriteData_lookup hdata (by decide)]
      exact ⟨h.included, h.iterable⟩
    refine ⟨withData, hdata, withIncluded, hincluded, succeeds_withLinks.mpr ?_⟩
    unfold LinksReadable
    rw [rewriteIncluded_lookup hincluded (by decide), rewriteData_lookup hdata (by decide)]
    exact h.links

/-- Where the answer says the record is, in every header that says so. -/
def Site.HeadersReadable (site : Site) (headers : List (String × String)) : Prop :=
  ∀ name url, (name, url) ∈ headers → isRelayable name = true → name.toLower = "location" →
    site.UrlReadable url

theorem Site.succeeds_relayHeaders {site : Site} {headers : List (String × String)} :
    Succeeds (site.relayHeaders headers) ↔ site.HeadersReadable headers := by
  unfold relayHeaders
  rw [succeeds_mapM]
  simp only [succeeds_bind_pure]
  have heach : ∀ name value, Succeeds (site.relayHeader name value) ↔
      (name.toLower = "location" → site.UrlReadable value) := by
    intro name value
    unfold relayHeader
    split_ifs with hlocation
    · rw [succeeds_mirrorPath, forall_prop_of_true hlocation]
    · exact iff_of_true (succeeds_ok _) fun h => absurd h hlocation
  constructor
  · intro h name url hmem hrelay
    exact (heach name url).mp (h (name, url) (List.mem_filter.mpr ⟨hmem, hrelay⟩))
  · rintro h ⟨name, url⟩ hmem
    obtain ⟨hmem, hrelay⟩ := List.mem_filter.mp hmem
    exact (heach name url).mpr (h name url hmem hrelay)

end PcoMirror
