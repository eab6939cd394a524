import PcoMirror.Model.Cors

/-! What `attach` puts on an answer, and what a preflight is told. -/

namespace PcoMirror.Cors

open Http

variable {policy : Policy} {environ : Environ} {headers : Headers} {origin : Option String}

theorem enabled_of_allowsOrigin (h : policy.allowsOrigin origin = true) : policy.enabled = true := by
  rw [Policy.enabled, Bool.not_eq_true']
  by_contra hempty
  rw [Bool.not_eq_false, List.isEmpty_iff] at hempty
  simp [Policy.allowsOrigin, Policy.anyOrigin, hempty] at h

theorem given_of_allowsOrigin (h : policy.allowsOrigin origin = true) : origin.getD "" ≠ "" := by
  intro hempty
  have hnone : normalise (origin.getD "") = "" := by
    rw [hempty]
    decide
  simp [Policy.allowsOrigin, hnone] at h

/-- `Vary`, where the policy varies. -/
def Policy.vary (policy : Policy) (headers : Headers) : Headers :=
  if policy.variesByOrigin then addVary "Origin" headers else headers

/-- What an allowed origin is told. -/
def Policy.permit (policy : Policy) (origin : String) (headers : Headers) : Headers :=
  let headers := set "Access-Control-Allow-Origin" (policy.echo origin) headers
  let headers := if policy.allowCredentials then
    set "Access-Control-Allow-Credentials" "true" headers else headers
  if policy.expose.isEmpty then headers
  else set "Access-Control-Expose-Headers" (join policy.expose) headers

theorem attach_off (h : policy.enabled = false) (headers : Headers) (origin : Option String) :
    attach headers policy origin = headers := by
  simp [attach, h]

theorem attach_refused (henabled : policy.enabled = true) (h : policy.allowsOrigin origin = false)
    (headers : Headers) : attach headers policy origin = policy.vary headers := by
  simp [attach, henabled, h, Policy.vary]

theorem attach_allowed (h : policy.allowsOrigin origin = true) (headers : Headers) :
    attach headers policy origin = policy.permit (origin.getD "") (policy.vary headers) := by
  simp [attach, enabled_of_allowsOrigin h, h, Policy.vary, Policy.permit]

theorem lookup_vary {name : String} (h : name ≠ "Vary") (hcase : lower name ≠ "vary")
    (headers : Headers) : (policy.vary headers).lookup name = headers.lookup name := by
  rw [Policy.vary]
  split
  · induction headers with
    | nil => simp [addVary, List.lookup_cons, beq_false_of_ne h]
    | cons field rest ih =>
        obtain ⟨n, v⟩ := field
        by_cases hn : lower n = "vary"
        · have hne : name ≠ n := by
            rintro rfl
            exact hcase hn
          simp only [addVary, if_pos hn]
          split <;> simp [List.lookup_cons, beq_false_of_ne hne]
        · rw [addVary, if_neg hn, List.lookup_cons, List.lookup_cons, ih]
  · rfl

@[simp] theorem lookup_permit_origin (origin : String) (headers : Headers) :
    (policy.permit origin headers).lookup "Access-Control-Allow-Origin" =
      some (policy.echo origin) := by
  simp only [Policy.permit]
  split <;> split <;> simp [lookup_set_ne]

theorem lookup_permit_ne {name : String} (horigin : name ≠ "Access-Control-Allow-Origin")
    (hcredentials : name ≠ "Access-Control-Allow-Credentials")
    (hexpose : name ≠ "Access-Control-Expose-Headers") (origin : String) (headers : Headers) :
    (policy.permit origin headers).lookup name = headers.lookup name := by
  simp only [Policy.permit]
  split <;> split <;> simp [lookup_set_ne, horigin, hcredentials, hexpose]

/-! ## Preflights -/

/-- What an allowed preflight begins with. -/
def Policy.opening (policy : Policy) (origin : String) : Headers :=
  policy.permit origin (policy.vary [("Cache-Control", "no-store")])

/-- The allowed sets, whatever was asked for. -/
def Policy.offer (policy : Policy) (headers : Headers) : Headers :=
  set "Access-Control-Max-Age" (toString policy.maxAge)
    (set "Access-Control-Allow-Headers" (join policy.advertisedHeaders)
      (set "Access-Control-Allow-Methods" (join policy.methods) headers))

/-- The policy takes the method and the headers a preflight asks for. -/
def Policy.Takes (policy : Policy) (environ : Environ) : Prop :=
  (upper (trim (environ.requestMethod.getD "")) = "" ∨
    policy.allowsMethod (upper (trim (environ.requestMethod.getD ""))) = true) ∧
  policy.refusedHeaders (environ.requestHeaders.getD "") = []

theorem preflight_refused (h : policy.allowsOrigin environ.origin = false) :
    ∃ reason, preflight policy environ =
      explain (attach [("Cache-Control", "no-store")] policy environ.origin) reason := by
  have hnone : (attach [("Cache-Control", "no-store")] policy environ.origin).lookup
      "Access-Control-Allow-Origin" = none := by
    cases henabled : policy.enabled with
    | false => rw [attach_off henabled]; rfl
    | true =>
        rw [attach_refused henabled h, lookup_vary (by decide) (by decide)]
        rfl
  exact ⟨_, if_pos (Option.isNone_iff_eq_none.mpr hnone)⟩

/-- What an allowed origin is told of a refusal, which does not depend on the origin. -/
def Policy.reason (policy : Policy) (environ : Environ) : String :=
  let asked := upper (trim (environ.requestMethod.getD ""))
  if asked ≠ "" && !policy.allowsMethod asked then methodReason asked
  else headersReason (policy.refusedHeaders (environ.requestHeaders.getD ""))

theorem preflight_allowed (environ : Environ)
    (h : policy.allowsOrigin environ.origin = true) :
    (policy.Takes environ →
      preflight policy environ = policy.offer (policy.opening (environ.origin.getD ""))) ∧
    (¬policy.Takes environ → preflight policy environ =
      explain (policy.offer (policy.opening (environ.origin.getD ""))) (policy.reason environ)) := by
  have hattach : attach [("Cache-Control", "no-store")] policy (some (environ.origin.getD "")) =
      policy.opening (environ.origin.getD "") := attach_allowed h _
  have hsome : ((policy.opening (environ.origin.getD "")).lookup
      "Access-Control-Allow-Origin").isNone = false := by
    rw [Policy.opening, lookup_permit_origin]
    rfl
  rw [preflight, hattach, hsome, Policy.Takes, Policy.reason, Policy.offer]
  generalize upper (trim (environ.requestMethod.getD "")) = asked
  generalize policy.refusedHeaders (environ.requestHeaders.getD "") = refused
  by_cases hmethod : (asked ≠ "" && !policy.allowsMethod asked) = true
  · have hrefused : ¬(asked = "" ∨ policy.allowsMethod asked = true) := by
      simpa using hmethod
    simp only [hmethod, hrefused, Bool.false_eq_true, if_false, if_true, false_and, false_implies,
      not_false_eq_true, true_implies, and_self]
  · have htaken : asked = "" ∨ policy.allowsMethod asked = true := by
      simpa [or_iff_not_imp_left] using hmethod
    rw [Bool.not_eq_true] at hmethod
    by_cases hheaders : refused = []
    · simp only [hmethod, htaken, hheaders, Bool.false_eq_true, if_false, ne_eq, not_true,
        true_implies, false_implies, and_self]
    · simp only [hmethod, htaken, hheaders, Bool.false_eq_true, if_false, if_true, ne_eq,
        not_false_eq_true, and_false, false_implies, true_implies, true_and]

/-- What an answer to an allowed origin says of the policy. -/
theorem lookup_preflight {name : String} (h : policy.allowsOrigin environ.origin = true)
    (hname : name ≠ diagnosticHeader) : (preflight policy environ).lookup name =
      (policy.offer (policy.opening (environ.origin.getD ""))).lookup name := by
  obtain ⟨htaken, hrefused⟩ := preflight_allowed environ h
  by_cases htakes : policy.Takes environ
  · rw [htaken htakes]
  · rw [hrefused htakes, explain, lookup_set_ne hname]

theorem lookup_preflight_origin (h : policy.allowsOrigin environ.origin = true) :
    (preflight policy environ).lookup "Access-Control-Allow-Origin" =
      some (policy.echo (environ.origin.getD "")) := by
  rw [lookup_preflight h (by decide), Policy.offer, lookup_set_ne (by decide),
    lookup_set_ne (by decide), lookup_set_ne (by decide), Policy.opening, lookup_permit_origin]

end PcoMirror.Cors
