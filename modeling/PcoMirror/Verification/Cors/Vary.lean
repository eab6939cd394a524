import PcoMirror.Verification.Cors.Answers

/-! When a shared cache can tell one origin's answer from another's. -/

namespace PcoMirror.Cors

open Http

/-- A field that tells a browser what it may do. -/
def isCorsField (name : String) : Bool :=
  "access-control-".toList.isPrefixOf (lower name).toList

def corsFields (headers : Headers) : Headers :=
  headers.filter (isCorsField ·.1)

/-- `Vary` names the origin, or stands for every field of the request. -/
def Varies (headers : Headers) : Prop :=
  ∃ field ∈ headers, lower field.1 = "vary" ∧
    ("origin" ∈ (elements field.2).map lower ∨ any ∈ (elements field.2).map lower)

/-- What was routed says nothing of its own to browsers, and relays nothing of the kind. -/
structure Routed where
  headers : Headers
  own : corsFields headers = []

variable {policy : Policy} {environ : Environ} {headers : Headers} {origin origin' : Option String}

/-! ## `Vary` -/

theorem varies_addVary (headers : Headers) : Varies (addVary "Origin" headers) := by
  induction headers with
  | nil => exact ⟨("Vary", "Origin"), by simp [addVary], by decide, .inl (by decide)⟩
  | cons field rest ih =>
      obtain ⟨name, value⟩ := field
      by_cases hname : lower name = "vary"
      · by_cases hpresent : lower "Origin" ∉ (elements value).map lower ∧
            any ∉ (elements value).map lower
        · refine ⟨(name, value ++ ", " ++ "Origin"), ?_, hname, .inl ?_⟩
          · simp only [addVary, if_pos hname, if_pos hpresent, List.mem_cons, true_or]
          · rw [elements_append, List.map_append, List.mem_append]
            exact .inr (by decide)
        · refine ⟨(name, value), ?_, hname, ?_⟩
          · simp only [addVary, if_pos hname, if_neg hpresent, List.mem_cons, true_or]
          · rw [not_and_or, not_not, not_not] at hpresent
            exact hpresent
      · obtain ⟨field, hmem, hvary⟩ := ih
        refine ⟨field, ?_, hvary⟩
        rw [addVary, if_neg hname]
        exact List.mem_cons_of_mem _ hmem

/-- Setting another field neither adds a `Vary` nor takes one away. -/
theorem varies_set {name value : String} (hname : lower name ≠ "vary") :
    Varies (set name value headers) ↔ Varies headers := by
  have hfilter : (set name value headers).filter (fun field => lower field.1 = "vary") =
      headers.filter (fun field => lower field.1 = "vary") :=
    filter_set_of_not (p := fun n => lower n = "vary") (by simpa using hname)
  have hmem (h : Headers) : Varies h ↔ ∃ field ∈ h.filter (fun field => lower field.1 = "vary"),
      "origin" ∈ (elements field.2).map lower ∨ any ∈ (elements field.2).map lower := by
    simp [Varies, and_assoc]
  rw [hmem, hmem, hfilter]

theorem varies_explain (reason : String) : Varies (explain headers reason) ↔ Varies headers :=
  varies_set (by decide)

theorem varies_permit (origin : String) : Varies (policy.permit origin headers) ↔ Varies headers := by
  simp only [Policy.permit]
  split <;> split <;> simp only [varies_set (by decide : lower "Access-Control-Allow-Origin" ≠ "vary"),
    varies_set (by decide : lower "Access-Control-Allow-Credentials" ≠ "vary"),
    varies_set (by decide : lower "Access-Control-Expose-Headers" ≠ "vary")]

theorem varies_offer : Varies (policy.offer headers) ↔ Varies headers := by
  rw [Policy.offer, varies_set (by decide), varies_set (by decide), varies_set (by decide)]

theorem varies_attach (henabled : policy.enabled = true) :
    Varies (attach headers policy origin) ↔ Varies (policy.vary headers) := by
  cases hallows : policy.allowsOrigin origin with
  | false => rw [attach_refused henabled hallows]
  | true => rw [attach_allowed hallows, varies_permit]

theorem varies_preflight (henabled : policy.enabled = true) :
    Varies (preflight policy environ) ↔ Varies (policy.vary [("Cache-Control", "no-store")]) := by
  cases hallows : policy.allowsOrigin environ.origin with
  | false =>
      obtain ⟨reason, heq⟩ := preflight_refused hallows
      rw [heq, varies_explain, varies_attach henabled]
  | true =>
      obtain ⟨htaken, hrefused⟩ := preflight_allowed environ hallows
      by_cases htakes : policy.Takes environ
      · rw [htaken htakes, varies_offer, Policy.opening, varies_permit]
      · rw [hrefused htakes, varies_explain, varies_offer, Policy.opening, varies_permit]

/-! ## Two answers -/

theorem varies_respond (henabled : policy.enabled = true) :
    Varies (respond policy environ headers) ↔
      Varies (policy.vary (if isPreflight environ then [("Cache-Control", "no-store")] else headers)) := by
  rw [respond, henabled]
  cases hpreflight : isPreflight environ with
  | true => exact varies_preflight henabled
  | false => exact varies_attach henabled

/-- An allowed origin is told so. -/
theorem corsFields_respond_ne_nil (environ : Environ)
    (h : policy.allowsOrigin environ.origin = true) :
    corsFields (respond policy environ headers) ≠ [] := by
  have hlookup : (respond policy environ headers).lookup "Access-Control-Allow-Origin" =
      some (policy.echo (environ.origin.getD "")) := by
    rw [respond, enabled_of_allowsOrigin h]
    cases hpreflight : isPreflight environ with
    | true => exact lookup_preflight_origin h
    | false =>
        simp only [Bool.and_false, Bool.false_eq_true, if_false, if_true, attach_allowed h,
          lookup_permit_origin]
  have hfield : isCorsField "Access-Control-Allow-Origin" = true := by decide
  exact List.ne_nil_of_mem (List.mem_filter.mpr ⟨mem_of_lookup hlookup, hfield⟩)

theorem anyOrigin_of_not_varies (hvaries : policy.variesByOrigin = false) :
    policy.anyOrigin = true ∧ policy.allowCredentials = false := by
  simpa [Policy.variesByOrigin] using hvaries

theorem enabled_of_not_varies (hvaries : policy.variesByOrigin = false) :
    policy.enabled = true := by
  have hany := (anyOrigin_of_not_varies hvaries).1
  rw [Policy.anyOrigin, decide_eq_true_eq] at hany
  rw [Policy.enabled, Bool.not_eq_true', List.isEmpty_eq_false_iff]
  exact List.ne_nil_of_mem hany

theorem vary_of_not_varies (hvaries : policy.variesByOrigin = false) (headers : Headers) :
    policy.vary headers = headers := by
  rw [Policy.vary, hvaries]
  rfl

/-- A refused origin is told nothing. -/
theorem corsFields_respond_eq_nil (environ : Environ) (hvaries : policy.variesByOrigin = false)
    (h : policy.allowsOrigin environ.origin = false) (routed : Routed) :
    corsFields (respond policy environ routed.headers) = [] := by
  have henabled := enabled_of_not_varies hvaries
  rw [respond, henabled]
  cases hpreflight : isPreflight environ with
  | true =>
      obtain ⟨reason, heq⟩ := preflight_refused h
      rw [attach_refused henabled h, vary_of_not_varies hvaries] at heq
      rw [Bool.and_self, if_pos rfl, heq]
      exact filter_set_of_not (by decide : isCorsField diagnosticHeader = false)
  | false =>
      rw [Bool.and_false, if_neg Bool.false_ne_true, if_pos rfl, attach_refused henabled h,
        vary_of_not_varies hvaries, routed.own]

/-- Every allowed origin is told the same. -/
theorem respond_congr (hvaries : policy.variesByOrigin = false)
    (h : policy.allowsOrigin origin = true)
    (h' : policy.allowsOrigin origin' = true) (environ : Environ) (headers : Headers) :
    respond policy { environ with origin := origin } headers =
      respond policy { environ with origin := origin' } headers := by
  obtain ⟨hany, hcredentials⟩ := anyOrigin_of_not_varies hvaries
  have hecho (headers : Headers) : policy.permit (origin.getD "") headers =
      policy.permit (origin'.getD "") headers := by
    simp [Policy.permit, Policy.echo, hany, hcredentials]
  have hpreflight : isPreflight { environ with origin := origin } =
      isPreflight { environ with origin := origin' } := by
    simp [isPreflight, given_of_allowsOrigin h, given_of_allowsOrigin h']
  have hanswer : preflight policy { environ with origin := origin } =
      preflight policy { environ with origin := origin' } := by
    obtain ⟨htaken, hrefused⟩ := preflight_allowed { environ with origin := origin } h
    obtain ⟨htaken', hrefused'⟩ := preflight_allowed { environ with origin := origin' } h'
    have hopening : policy.opening (origin.getD "") = policy.opening (origin'.getD "") := hecho _
    by_cases htakes : policy.Takes environ
    · rw [htaken htakes, htaken' htakes, hopening]
    · rw [hrefused htakes, hrefused' htakes, hopening]
      rfl
  rw [respond, respond, hpreflight, hanswer, attach_allowed h, attach_allowed h', hecho]

/-- Of two answers whose cross-origin headers differ, both carry `Vary`. -/
def CacheSafe (policy : Policy) (environ : Environ) (routed : Routed)
    (origin origin' : Option String) : Prop :=
  corsFields (respond policy { environ with origin := origin } routed.headers) ≠
      corsFields (respond policy { environ with origin := origin' } routed.headers) →
    Varies (respond policy { environ with origin := origin } routed.headers) ∧
      Varies (respond policy { environ with origin := origin' } routed.headers)

/-- The request is a preflight if it comes from any origin. -/
def asksPreflight (environ : Environ) : Bool :=
  environ.method = "OPTIONS" && environ.requestMethod.getD "" ≠ ""

theorem isPreflight_of_given (h : origin.getD "" ≠ "") :
    isPreflight { environ with origin := origin } = asksPreflight environ := by
  simp [isPreflight, asksPreflight, h]

theorem isPreflight_of_not_asks (h : asksPreflight environ = false) :
    isPreflight { environ with origin := origin } = false := by
  rw [asksPreflight, Bool.and_eq_false_iff] at h
  rw [isPreflight]
  rcases h with h | h
  · rw [h, Bool.false_and, Bool.false_and]
  · rw [h, Bool.and_false]

theorem CacheSafe.symm {routed : Routed} (h : CacheSafe policy environ routed origin origin') :
    CacheSafe policy environ routed origin' origin :=
  fun hne => (h hne.symm).symm

/-- Where the policy does not vary, an allowed and a refused origin are told apart by nothing but
what was routed. -/
theorem not_cacheSafe {routed : Routed} (hvaries : policy.variesByOrigin = false)
    (h : policy.allowsOrigin origin = true) (h' : policy.allowsOrigin origin' = false)
    (hrouted : ¬(asksPreflight environ = false ∧ Varies routed.headers)) :
    ¬CacheSafe policy environ routed origin origin' := by
  intro hsafe
  have hdiffer : corsFields (respond policy { environ with origin := origin } routed.headers) ≠
      corsFields (respond policy { environ with origin := origin' } routed.headers) := by
    rw [corsFields_respond_eq_nil { environ with origin := origin' } hvaries h' routed]
    exact corsFields_respond_ne_nil { environ with origin := origin } h
  have hvary := (hsafe hdiffer).1
  rw [varies_respond (enabled_of_not_varies hvaries), vary_of_not_varies hvaries,
    isPreflight_of_given (given_of_allowsOrigin h)] at hvary
  cases hasks : asksPreflight environ with
  | true =>
      rw [hasks, if_pos rfl] at hvary
      obtain ⟨field, hmem, hname, -⟩ := hvary
      rw [List.mem_singleton] at hmem
      subst hmem
      exact absurd hname (by decide)
  | false =>
      rw [hasks, if_neg Bool.false_ne_true] at hvary
      exact hrouted ⟨hasks, hvary⟩

theorem cacheSafe_of_varies (hvaries : policy.variesByOrigin = true) (routed : Routed) :
    CacheSafe policy environ routed origin origin' := by
  intro hdiffer
  cases henabled : policy.enabled with
  | false => simp [respond, henabled] at hdiffer
  | true =>
      rw [varies_respond henabled, varies_respond henabled, Policy.vary, Policy.vary, hvaries]
      exact ⟨varies_addVary _, varies_addVary _⟩

/-- A cache can tell two origins' answers apart exactly where the policy varies, or allows both or
neither, or the answer, which is no preflight's, came with a `Vary` that tells them. -/
theorem cacheSafe_iff (policy : Policy) (environ : Environ) (routed : Routed)
    (origin origin' : Option String) : CacheSafe policy environ routed origin origin' ↔
      policy.variesByOrigin = true ∨ policy.allowsOrigin origin = policy.allowsOrigin origin' ∨
        (asksPreflight environ = false ∧ Varies routed.headers) := by
  cases hvaries : policy.variesByOrigin with
  | true => exact iff_of_true (cacheSafe_of_varies hvaries routed) (.inl rfl)
  | false =>
      constructor
      · intro hsafe
        refine .inr (or_iff_not_imp_right.mpr fun hrouted => ?_)
        cases h : policy.allowsOrigin origin <;> cases h' : policy.allowsOrigin origin'
        · rfl
        · exact absurd hsafe.symm (not_cacheSafe hvaries h' h hrouted)
        · exact absurd hsafe (not_cacheSafe hvaries h h' hrouted)
        · rfl
      · rintro (hfalse | hsame | ⟨hasks, hvary⟩) hdiffer
        · cases hfalse
        · cases h : policy.allowsOrigin origin with
          | true => exact absurd (congrArg corsFields (respond_congr hvaries h (hsame ▸ h) _ _)) hdiffer
          | false =>
              have hnone :=
                corsFields_respond_eq_nil { environ with origin := origin } hvaries h routed
              have hnone' := corsFields_respond_eq_nil { environ with origin := origin' } hvaries
                (hsame ▸ h) routed
              exact absurd (hnone.trans hnone'.symm) hdiffer
        · rw [varies_respond (enabled_of_not_varies hvaries),
            varies_respond (enabled_of_not_varies hvaries), vary_of_not_varies hvaries,
            vary_of_not_varies hvaries, isPreflight_of_not_asks hasks, isPreflight_of_not_asks hasks]
          exact ⟨hvary, hvary⟩

/-- The same request of a page and of no page, to a policy that allows any origin. -/
theorem not_cacheSafe_anyOrigin : ¬∀ (policy : Policy) (environ : Environ) (routed : Routed)
    (origin origin' : Option String), CacheSafe policy environ routed origin origin' := by
  intro h
  have hsafe := h { origins := [any] } { method := "GET", trimmed := by simp } ⟨[], rfl⟩
    (some "https://app.example.org") none
  have hdiffer := hsafe (by decide +kernel)
  obtain ⟨field, hmem, hname, -⟩ := hdiffer.2
  cases hmem

end PcoMirror.Cors
