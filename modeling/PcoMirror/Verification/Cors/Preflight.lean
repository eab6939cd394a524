import PcoMirror.Verification.Cors.Answers

/-! When a preflight is refused, and when the browser that asked refuses to go on. -/

namespace PcoMirror.Cors

open Http

/-! ## What the validator makes -/

/-- What a validated policy keeps to. -/
structure Valid (policy : Policy) : Prop where
  methods : ∀ method ∈ policy.methods, method ∈ supportedMethods
  headers : ∀ name ∈ policy.headers, trim name = name ∧ name ≠ ""

theorem item_of_mem {given : Listish} {name : String} (h : name ∈ given.items) :
    trim name = name ∧ name ≠ "" := by
  have hmem (value : String) (h : name ∈ items value) : trim name = name ∧ name ≠ "" := by
    rw [items, elements, List.mem_filter, List.mem_map, decide_eq_true_eq] at h
    obtain ⟨⟨part, -, rfl⟩, hne⟩ := h
    exact ⟨trim_trim part, hne⟩
  cases given with
  | none => cases h
  | text value => exact hmem value h
  | sequence values =>
      rw [Listish.items, List.mem_filter, List.mem_map, decide_eq_true_eq] at h
      obtain ⟨⟨part, -, rfl⟩, hne⟩ := h
      exact ⟨trim_trim part, hne⟩

theorem mem_orElse {given default : List String} {name : String} (h : name ∈ orElse given default) :
    name ∈ given ∨ name ∈ default := by
  rw [orElse] at h
  split at h
  · exact .inr h
  · exact .inl h

theorem valid_of_build {settings : Settings} {policy : Policy}
    (h : build settings = .ok policy) : Valid policy := by
  have hheaders : ∀ name ∈ orElse settings.headers.items.eraseDups defaultHeaders,
      trim name = name ∧ name ≠ "" := by
    intro name hname
    rcases mem_orElse hname with hgiven | hdefault
    · exact item_of_mem (List.mem_eraseDups.mp hgiven)
    · exact (by decide : ∀ name ∈ defaultHeaders, trim name = name ∧ name ≠ "") name hdefault
  rw [build] at h
  simp only [bind, Except.bind, pure, Except.pure, throw, throwThe, MonadExceptOf.throw] at h
  split at h
  · cases h
    exact ⟨fun _ => id, by decide⟩
  · split at h
    · cases h
    · split at h
      · cases h
      · split at h
        · cases h
        · case isFalse hsupported =>
            rw [not_not, List.filter_eq_nil_iff] at hsupported
            have hmethods : ∀ method ∈ orElse (settings.methods.items.map upper).eraseDups
                supportedMethods, method ∈ supportedMethods := by
              intro method hmethod
              simpa using hsupported method hmethod
            -- The checks that remain refuse some settings, and leave both lists as they are.
            repeat' split at h
            all_goals first | cases h; done | (cases h; exact ⟨hmethods, hheaders⟩)

/-! ## What the browser checks -/

/-- The names that a preflight lists. -/
def asked (environ : Environ) : List String :=
  items (environ.requestHeaders.getD "")

/-- A name is in the list the answer allows, or `*` is, which does not stand for a credential. -/
def Covers (answer : Headers) (name : String) : Prop :=
  let allowed := items ((answer.lookup "Access-Control-Allow-Headers").getD "")
  lower name ∈ allowed.map lower ∨ any ∈ allowed ∧ lower name ≠ "authorization"

/-- The browser's own check on an answer. -/
structure BrowserPasses (answer : Headers) (method : String) (names : List String) : Prop where
  origin : (answer.lookup "Access-Control-Allow-Origin").isSome = true
  method : method ∈ items ((answer.lookup "Access-Control-Allow-Methods").getD "")
  headers : ∀ name ∈ names, Covers answer name

variable {policy : Policy} {environ : Environ}

theorem isItem_supported : ∀ method ∈ supportedMethods, IsItem method := by
  intro method hmethod
  refine ⟨?_, ?_, ?_⟩
  · exact (by decide : ∀ method ∈ supportedMethods, trim method = method) method hmethod
  · exact (by decide : ∀ method ∈ supportedMethods, method ≠ "") method hmethod
  · exact (by decide : ∀ method ∈ supportedMethods, ',' ∉ method.toList) method hmethod

theorem isItem_advertised (hvalid : Valid policy)
    (hwhole : ∀ name ∈ policy.headers, ',' ∉ name.toList) :
    ∀ name ∈ policy.advertisedHeaders, IsItem name := by
  intro name hname
  rw [Policy.advertisedHeaders] at hname
  split at hname
  · rw [List.mem_singleton] at hname
    subst hname
    exact ⟨by decide, by decide, by decide⟩
  · rcases List.mem_append.mp hname with hgiven | hcache
    · exact ⟨(hvalid.headers name hgiven).1, (hvalid.headers name hgiven).2, hwhole name hgiven⟩
    · have hcache := (List.mem_filter.mp hcache).1
      refine ⟨?_, ?_, ?_⟩
      · exact (by decide +kernel : ∀ name ∈ clientCacheRequestHeaders, trim name = name) name hcache
      · exact (by decide : ∀ name ∈ clientCacheRequestHeaders, name ≠ "") name hcache
      · exact (by decide : ∀ name ∈ clientCacheRequestHeaders, ',' ∉ name.toList) name hcache

/-! ## What the answer says -/

theorem lookup_methods (h : policy.allowsOrigin environ.origin = true) :
    (preflight policy environ).lookup "Access-Control-Allow-Methods" = some (join policy.methods) := by
  rw [lookup_preflight h (by decide), Policy.offer, lookup_set_ne (by decide),
    lookup_set_ne (by decide), lookup_set_self]

theorem lookup_headers (h : policy.allowsOrigin environ.origin = true) :
    (preflight policy environ).lookup "Access-Control-Allow-Headers" =
      some (join policy.advertisedHeaders) := by
  rw [lookup_preflight h (by decide), Policy.offer, lookup_set_ne (by decide), lookup_set_self]

/-- The answer carries no reason exactly where the origin is allowed and the policy takes what is
asked. -/
theorem lookup_diagnostic : (preflight policy environ).lookup diagnosticHeader = none ↔
    policy.allowsOrigin environ.origin = true ∧ policy.Takes environ := by
  cases h : policy.allowsOrigin environ.origin with
  | false =>
      obtain ⟨reason, heq⟩ := preflight_refused h
      rw [heq, explain, lookup_set_self]
      simp
  | true =>
      obtain ⟨htaken, hrefused⟩ := preflight_allowed environ h
      by_cases htakes : policy.Takes environ
      · have hnone : (preflight policy environ).lookup diagnosticHeader = none := by
          rw [htaken htakes, Policy.offer, lookup_set_ne (by decide), lookup_set_ne (by decide),
            lookup_set_ne (by decide), Policy.opening,
            lookup_permit_ne (by decide) (by decide) (by decide),
            lookup_vary (by decide) (by decide)]
          decide
        exact iff_of_true hnone ⟨rfl, htakes⟩
      · rw [hrefused htakes, explain, lookup_set_self]
        simp [htakes]

theorem lookup_origin_isSome :
    ((preflight policy environ).lookup "Access-Control-Allow-Origin").isSome = true ↔
      policy.allowsOrigin environ.origin = true := by
  cases h : policy.allowsOrigin environ.origin with
  | false =>
      obtain ⟨reason, heq⟩ := preflight_refused h
      rw [heq, explain, lookup_set_ne (by decide)]
      cases henabled : policy.enabled with
      | false => rw [attach_off henabled]; decide
      | true =>
          rw [attach_refused henabled h, lookup_vary (by decide) (by decide)]
          decide
  | true => simp [lookup_preflight_origin h]

/-! ## Agreement -/

/-- The names that are not on the browser's safelist: what needs a permission. -/
def needsPermission (environ : Environ) : List String :=
  (asked environ).filter fun name => lower name ∉ safelistedRequestHeaders

theorem upper_ne_empty {s : String} (h : s ≠ "") : upper s ≠ "" := by
  intro hempty
  have hlist := congrArg String.toList hempty
  rw [upper, String.toList_ofList] at hlist
  cases hs : s.toList with
  | nil => exact h (String.toList_inj.mp hs)
  | cons c rest =>
      rw [hs, List.flatMap_cons] at hlist
      exact upperChar_ne_nil c (List.append_eq_nil_iff.mp hlist).1

theorem allowsHeader_iff {name : String} (htrim : trim name = name) (hne : name ≠ "") :
    policy.allowsHeader name = true ↔ lower name ∈ safelistedRequestHeaders ∨
      lower name ∈ clientCacheRequestHeaders.map lower ∨ any ∈ policy.headers ∨
        lower name ∈ policy.headers.map lower := by
  have hlower : lower name ≠ "" := by
    intro hempty
    have hlist := congrArg String.toList hempty
    rw [lower, String.toList_ofList] at hlist
    exact hne (String.toList_inj.mp (List.map_eq_nil_iff.mp hlist))
  by_cases hnever : lower name ∈ neverRefused
  · have hallowed : policy.allowsHeader name = true := by
      simp [Policy.allowsHeader, htrim, hnever]
    rw [neverRefused, List.mem_append] at hnever
    exact iff_of_true hallowed (hnever.imp_right .inl)
  · have hallowed : policy.allowsHeader name =
        (decide (any ∈ policy.headers) || decide (lower name ∈ policy.headers.map lower)) := by
      simp [Policy.allowsHeader, htrim, hnever, hlower]
    rw [neverRefused, List.mem_append, not_or] at hnever
    simp only [hallowed, hnever.1, hnever.2, Bool.or_eq_true, decide_eq_true_eq, false_or]

/-- A name that needs a permission is refused exactly where the answer does not cover it. -/
theorem allowsHeader_iff_covers {name : String} (hvalid : Valid policy)
    (hwhole : ∀ name ∈ policy.headers, ',' ∉ name.toList)
    (h : policy.allowsOrigin environ.origin = true) (htrim : trim name = name) (hne : name ≠ "")
    (hsafe : lower name ∉ safelistedRequestHeaders)
    (hcredential : any ∈ policy.headers → lower name ≠ "authorization") :
    policy.allowsHeader name = true ↔ Covers (preflight policy environ) name := by
  rw [allowsHeader_iff htrim hne, Covers, lookup_headers h, Option.getD_some,
    items_join (isItem_advertised hvalid hwhole), Policy.advertisedHeaders]
  by_cases hany : any ∈ policy.headers
  · rw [if_pos hany]
    simp [hany, hcredential hany]
  · have hcache : any ∉ clientCacheRequestHeaders := by decide
    have hnamed : lower name ∈ (policy.headers ++ clientCacheRequestHeaders.filter fun h =>
        lower h ∉ policy.headers.map lower).map lower ↔
          lower name ∈ clientCacheRequestHeaders.map lower ∨
            lower name ∈ policy.headers.map lower := by
      rw [List.map_append, List.mem_append]
      constructor
      · rintro (hgiven | hadded)
        · exact .inr hgiven
        · exact .inl (List.map_subset _ (List.filter_subset_self _) hadded)
      · rintro (hadded | hgiven)
        · by_cases hgiven : lower name ∈ policy.headers.map lower
          · exact .inl hgiven
          · obtain ⟨h, hh, hlower⟩ := List.mem_map.mp hadded
            refine .inr (List.mem_map.mpr ⟨h, List.mem_filter.mpr ⟨hh, ?_⟩, hlower⟩)
            rw [hlower]
            exact decide_eq_true hgiven
        · exact .inl hgiven
    rw [if_neg hany, hnamed]
    simp [hany, hcache, hsafe]

theorem refusedHeaders_eq_nil (hvalid : Valid policy)
    (hwhole : ∀ name ∈ policy.headers, ',' ∉ name.toList)
    (h : policy.allowsOrigin environ.origin = true)
    (hcredential : any ∈ policy.headers → ∀ name ∈ asked environ, lower name ≠ "authorization") :
    policy.refusedHeaders (environ.requestHeaders.getD "") = [] ↔
      ∀ name ∈ needsPermission environ, Covers (preflight policy environ) name := by
  have hitem : ∀ name ∈ asked environ, trim name = name ∧ name ≠ "" := fun name hname =>
    item_of_mem (show name ∈ (Listish.text (environ.requestHeaders.getD "")).items from hname)
  rw [Policy.refusedHeaders, List.filter_eq_nil_iff]
  constructor
  · intro hallowed name hname
    rw [needsPermission, List.mem_filter, decide_eq_true_eq] at hname
    obtain ⟨htrim, hne⟩ := hitem name hname.1
    refine (allowsHeader_iff_covers hvalid hwhole h htrim hne hname.2 fun hany =>
      hcredential hany name hname.1).mp ?_
    simpa using hallowed name hname.1
  · intro hcovered name hname
    obtain ⟨htrim, hne⟩ := hitem name hname
    by_cases hsafe : lower name ∈ safelistedRequestHeaders
    · simp [(allowsHeader_iff htrim hne).mpr (.inl hsafe)]
    · have hneeds : name ∈ needsPermission environ :=
        List.mem_filter.mpr ⟨hname, decide_eq_true hsafe⟩
      simp [(allowsHeader_iff_covers hvalid hwhole h htrim hne hsafe fun hany =>
        hcredential hany name hname).mpr (hcovered name hneeds)]

/-- What is asked in capitals, and needs a permission, is refused exactly where the browser refuses
the answer. -/
theorem preflight_agrees {settings : Settings} (hbuild : build settings = .ok policy)
    (hwhole : ∀ name ∈ policy.headers, ',' ∉ name.toList) (hpreflight : isPreflight environ = true)
    (hcredential : any ∈ policy.headers → ∀ name ∈ asked environ, lower name ≠ "authorization") :
    (preflight policy environ).lookup diagnosticHeader = none ↔
      BrowserPasses (preflight policy environ) (upper (environ.requestMethod.getD ""))
        (needsPermission environ) := by
  have hvalid := valid_of_build hbuild
  rw [isPreflight, Bool.and_eq_true, decide_eq_true_eq] at hpreflight
  have htrimmed : trim (environ.requestMethod.getD "") = environ.requestMethod.getD "" := by
    cases hmethod : environ.requestMethod with
    | none => decide
    | some method => exact environ.trimmed method hmethod
  -- A method that is asked for is not blank, so it has to be one of the policy's.
  have hmethod : (upper (trim (environ.requestMethod.getD "")) = "" ∨
      policy.allowsMethod (upper (trim (environ.requestMethod.getD ""))) = true) ↔
        upper (environ.requestMethod.getD "") ∈ policy.methods := by
    rw [htrimmed, Policy.allowsMethod, upper_upper, decide_eq_true_eq, or_iff_right]
    exact upper_ne_empty hpreflight.2
  have hmethods : policy.allowsOrigin environ.origin = true →
      items (((preflight policy environ).lookup "Access-Control-Allow-Methods").getD "") =
        policy.methods := by
    intro horigin
    rw [lookup_methods horigin, Option.getD_some]
    exact items_join fun method hmem => isItem_supported method (hvalid.methods method hmem)
  rw [lookup_diagnostic, Policy.Takes, hmethod]
  constructor
  · rintro ⟨horigin, hasked, hheaders⟩
    refine ⟨lookup_origin_isSome.mpr horigin, ?_,
      (refusedHeaders_eq_nil hvalid hwhole horigin hcredential).mp hheaders⟩
    rw [hmethods horigin]
    exact hasked
  · intro hpasses
    have horigin := lookup_origin_isSome.mp hpasses.origin
    refine ⟨horigin, ?_,
      (refusedHeaders_eq_nil hvalid hwhole horigin hcredential).mpr hpasses.headers⟩
    rw [← hmethods horigin]
    exact hpasses.method

def appSettings : Settings where
  origins := .text "https://app.example.org"

def appPolicy : Policy where
  origins := ["https://app.example.org"]

/-- A preflight of the app for a `GET`. -/
def appAsks (headers : String) : Environ where
  method := "OPTIONS"
  origin := some "https://app.example.org"
  requestMethod := some "GET"
  requestHeaders := some headers
  trimmed := by
    rintro asked ⟨⟩
    decide

theorem preflight_agrees_app :
    (preflight appPolicy (appAsks "authorization,x-custom")).lookup diagnosticHeader = none ↔
      BrowserPasses (preflight appPolicy (appAsks "authorization,x-custom")) (upper "GET")
        (needsPermission (appAsks "authorization,x-custom")) :=
  preflight_agrees (show build appSettings = .ok appPolicy by rfl) (by decide +kernel)
    (by decide +kernel) (by decide +kernel)

/-- A name on the browser's safelist is not refused, and not named in the answer. -/
theorem safelisted_not_covered : ¬∀ (settings : Settings) (policy : Policy) (environ : Environ),
    build settings = .ok policy → isPreflight environ = true →
      ((preflight policy environ).lookup diagnosticHeader = none ↔
        BrowserPasses (preflight policy environ) (environ.requestMethod.getD "")
          (asked environ)) := by
  intro h
  have hagrees := h appSettings appPolicy (appAsks "range") rfl (by decide +kernel)
  have hpasses := hagrees.mp (by decide +kernel)
  have hcovers := hpasses.headers "range" (by decide +kernel)
  revert hcovers
  rw [Covers]
  decide +kernel

end PcoMirror.Cors
