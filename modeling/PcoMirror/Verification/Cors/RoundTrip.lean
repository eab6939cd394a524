import PcoMirror.Model.CorsOverride
import PcoMirror.Verification.Cors.Preflight

/-! A policy the validator made is made again from its own fields, and from the text it is stored
in: what is saved on the page is in force after a restart. -/

namespace PcoMirror.Cors

open Http

/-! ## Lists that the validator leaves as they are -/

/-- Names that are trimmed, not empty, and all different. -/
structure Clean (names : List String) : Prop where
  nodup : names.Nodup
  trimmed : ∀ name ∈ names, trim name = name ∧ name ≠ ""

theorem nodup_eraseDups (names : List String) : names.eraseDups.Nodup := by
  induction h : names.length using Nat.strong_induction_on generalizing names with
  | _ n ih =>
      cases names with
      | nil => exact List.nodup_nil
      | cons name names =>
          have hlength := List.length_filter_le (fun other => !other == name) names
          rw [List.length_cons] at h
          rw [List.eraseDups_cons, List.nodup_cons, List.mem_eraseDups, List.mem_filter]
          exact ⟨by simp, ih _ (by omega) _ rfl⟩

theorem eraseDups_ne_nil {names : List String} (h : names ≠ []) : names.eraseDups ≠ [] := by
  cases names with
  | nil => exact absurd rfl h
  | cons name names => simp [List.eraseDups_cons]

theorem eraseDups_of_nodup {names : List String} (h : names.Nodup) : names.eraseDups = names := by
  induction h with
  | nil => rfl
  | @cons name names hne _ ih =>
      have hfilter : names.filter (fun other => !other == name) = names := by
        rw [List.filter_eq_self]
        intro other hother
        simpa using Ne.symm (hne other hother)
      rw [List.eraseDups_cons, hfilter, ih]

theorem clean_items (given : Listish) : Clean given.items.eraseDups where
  nodup := nodup_eraseDups _
  trimmed _ hname := item_of_mem (List.mem_eraseDups.mp hname)

theorem Clean.items {names : List String} (h : Clean names) :
    (Listish.sequence names).items = names := by
  have htrim : names.map trim = names :=
    (List.map_congr_left fun name hname => (h.trimmed name hname).1).trans (List.map_id' _)
  rw [Listish.items, htrim, List.filter_eq_self]
  exact fun name hname => decide_eq_true (h.trimmed name hname).2

theorem nodup_orElse {names default : List String} (h : names.Nodup) (hdefault : default.Nodup) :
    (orElse names default).Nodup := by
  rw [orElse]
  split
  · exact hdefault
  · exact h

theorem orElse_ne_nil {names default : List String} (hdefault : default ≠ []) :
    orElse names default ≠ [] := by
  rw [orElse]
  split
  · exact hdefault
  · case isFalse h => simpa using h

theorem orElse_of_ne_nil {names default : List String} (h : names ≠ []) :
    orElse names default = names := by
  rw [orElse, if_neg (by simpa using h)]

/-! ## What the validator makes -/

/-- The forms of a configured origin. -/
def IsConfigured (origin : String) : Prop :=
  origin = any ∨ origin = null ∨ isOrigin origin = true ∨ isPattern origin = true

theorem configured_of_pattern {raw origin : String} (h : pattern raw = .ok origin) :
    origin = lower (trim raw) ∧ IsConfigured origin := by
  rw [pattern] at h
  generalize hvalue : trim raw = value at h ⊢
  generalize hfolded : lower value = folded at h ⊢
  simp only [Bool.or_eq_true, decide_eq_true_eq] at h
  split at h
  · case isTrue hnamed =>
      injection h with heq
      refine ⟨heq.symm, heq ▸ ?_⟩
      rcases hnamed with hany | hnull
      · rw [hany] at hfolded
        exact .inl (hfolded.symm.trans (by decide))
      · exact .inr (.inl hnull)
  · split at h
    · case isTrue hform =>
        injection h with heq
        exact ⟨heq.symm, heq ▸ .inr (.inr hform)⟩
    · cases h

theorem pattern_of_configured {origin : String} (htrim : trim origin = origin)
    (hlower : lower origin = origin) (h : IsConfigured origin) : pattern origin = .ok origin := by
  rw [pattern]
  simp only [htrim, hlower, Bool.or_eq_true, decide_eq_true_eq]
  split
  · rfl
  · case isFalse hnamed =>
      rw [not_or] at hnamed
      rw [if_pos ((h.resolve_left hnamed.1).resolve_left hnamed.2)]

/-- What is read as a configured origin is read again as itself. -/
theorem pattern_pattern {raw origin : String} (h : pattern raw = .ok origin) :
    pattern origin = .ok origin ∧ trim origin = origin ∧ origin ≠ "" := by
  obtain ⟨heq, hform⟩ := configured_of_pattern h
  have htrim : trim origin = origin := by rw [heq, trim_lower, trim_trim]
  have hlower : lower origin = origin := by rw [heq, lower_lower]
  refine ⟨pattern_of_configured htrim hlower hform, htrim, ?_⟩
  rintro rfl
  revert hform
  rw [IsConfigured]
  decide

theorem mapM_pattern {raws origins : List String} (h : raws.mapM pattern = .ok origins) :
    origins.length = raws.length ∧ ∀ origin ∈ origins,
      pattern origin = .ok origin ∧ trim origin = origin ∧ origin ≠ "" := by
  induction raws generalizing origins with
  | nil =>
      cases h
      exact ⟨rfl, nofun⟩
  | cons raw raws ih =>
      rw [List.mapM_cons] at h
      cases hraw : pattern raw with
      | error reason =>
          rw [hraw] at h
          cases h
      | ok first =>
          cases hrest : raws.mapM pattern with
          | error reason =>
              rw [hraw, hrest] at h
              cases h
          | ok rest =>
              rw [hraw, hrest] at h
              cases h
              obtain ⟨hlength, hfixed⟩ := ih hrest
              rw [List.length_cons, List.length_cons, hlength, List.forall_mem_cons]
              exact ⟨rfl, pattern_pattern hraw, hfixed⟩

theorem mapM_pattern_of_fixed {origins : List String}
    (h : ∀ origin ∈ origins, pattern origin = .ok origin) : origins.mapM pattern = .ok origins := by
  induction origins with
  | nil => rfl
  | cons origin origins ih =>
      rw [List.forall_mem_cons] at h
      rw [List.mapM_cons, h.1, ih h.2]
      rfl

/-- What a policy with origins keeps to when it comes from the validator. -/
structure Built (policy : Policy) : Prop where
  enabled : policy.origins ≠ []
  origins : Clean policy.origins
  patterns : ∀ origin ∈ policy.origins, pattern origin = .ok origin
  alone : ¬(any ∈ policy.origins ∧ policy.origins.length > 1)
  methods : Clean policy.methods
  methods_ne_nil : policy.methods ≠ []
  supported : ∀ method ∈ policy.methods, method ∈ supportedMethods
  headers : Clean policy.headers
  headers_ne_nil : policy.headers ≠ []
  expose : Clean policy.expose
  maxAge : policy.maxAge < 10 ^ Text.digitLimit
  credentials : policy.allowCredentials = true →
    any ∉ policy.origins ∧ any ∉ policy.headers ∧ any ∉ policy.expose

theorem clean_reads (expose : Listish) : Clean (match expose with
    | .none => defaultExpose
    | expose => expose.items.eraseDups) := by
  split
  · exact ⟨by decide, by decide⟩
  · exact clean_items expose

theorem default_lt : 600 < 10 ^ Text.digitLimit :=
  calc 600 < 10 ^ 3 := by decide
    _ ≤ 10 ^ Text.digitLimit := Nat.pow_le_pow_right (by decide) (by decide)

/-- The checks that come last refuse a policy, or leave it as it is. -/
theorem of_credentials_ok {allowed sends reads : List String} {credentials : Bool}
    {origins headers expose : Malformed} {kept policy : Policy}
    (h : (if credentials = true then
        if any ∈ allowed then .error origins
        else if any ∈ sends then .error headers
        else if any ∈ reads then .error expose
        else .ok kept
      else .ok kept) = Except.ok policy) :
    kept = policy ∧ (credentials = true → any ∉ allowed ∧ any ∉ sends ∧ any ∉ reads) := by
  split_ifs at h with hcredentials hallowed hsends hreads
  · exact ⟨Except.ok.inj h, fun _ => ⟨hallowed, hsends, hreads⟩⟩
  · exact ⟨Except.ok.inj h, fun htrue => absurd htrue hcredentials⟩

theorem built_of_build {settings : Settings} {policy : Policy} (h : build settings = .ok policy) :
    policy = {} ∨ Built policy := by
  rw [build] at h
  simp only [bind, Except.bind, pure, Except.pure, throw, throwThe, MonadExceptOf.throw] at h
  split at h
  · cases h
    exact .inl rfl
  case isFalse hgiven =>
  split at h
  · cases h
  case h_2 allowed hallowed =>
  split at h
  · cases h
  case isFalse halone =>
  split at h
  · cases h
  case isFalse hsupported =>
  rw [not_not, List.filter_eq_nil_iff] at hsupported
  obtain ⟨hlength, hpatterns⟩ := mapM_pattern hallowed
  have henabled : allowed.eraseDups ≠ [] := by
    refine eraseDups_ne_nil ?_
    rintro rfl
    rw [List.eq_nil_of_length_eq_zero hlength.symm] at hgiven
    exact hgiven rfl
  have hmethods : ∀ method ∈ orElse (settings.methods.items.map upper).eraseDups supportedMethods,
      method ∈ supportedMethods := by
    intro method hmethod
    simpa using hsupported method hmethod
  have hbuilt {reads : List String} {seconds : ℕ} (hreads : Clean reads)
      (hseconds : seconds < 10 ^ Text.digitLimit)
      (hcredentials : settings.allowCredentials = true → any ∉ allowed.eraseDups ∧
        any ∉ orElse settings.headers.items.eraseDups defaultHeaders ∧ any ∉ reads) :
      Built {
        origins := allowed.eraseDups
        methods := orElse (settings.methods.items.map upper).eraseDups supportedMethods
        headers := orElse settings.headers.items.eraseDups defaultHeaders
        expose := reads
        maxAge := seconds
        allowCredentials := settings.allowCredentials } :=
    { enabled := henabled
      origins :=
        ⟨nodup_eraseDups _, fun origin h => (hpatterns origin (List.mem_eraseDups.mp h)).2⟩
      patterns origin h := (hpatterns origin (List.mem_eraseDups.mp h)).1
      alone := halone
      methods := ⟨nodup_orElse (nodup_eraseDups _) (by decide), fun method h =>
        (by decide : ∀ method ∈ supportedMethods, trim method = method ∧ method ≠ "") method
          (hmethods method h)⟩
      methods_ne_nil := orElse_ne_nil (by decide)
      supported := hmethods
      headers := ⟨nodup_orElse (nodup_eraseDups _) (by decide), fun name h =>
        (mem_orElse h).elim (fun hgiven => item_of_mem (List.mem_eraseDups.mp hgiven))
          ((by decide : ∀ name ∈ defaultHeaders, trim name = name ∧ name ≠ "") name)⟩
      headers_ne_nil := orElse_ne_nil (by decide)
      expose := hreads
      maxAge := hseconds
      credentials := hcredentials }
  have hreads := clean_reads settings.expose
  split at h
  · obtain ⟨rfl, hcredentials⟩ := of_credentials_ok h
    exact .inr (hbuilt hreads default_lt hcredentials)
  · obtain ⟨rfl, hcredentials⟩ := of_credentials_ok h
    exact .inr (hbuilt hreads default_lt hcredentials)
  · split at h
    · cases h
    case h_2 seconds hread =>
    split at h
    · cases h
    · obtain ⟨rfl, hcredentials⟩ := of_credentials_ok h
      have hseconds := Text.natAbs_lt_of_int? hread
      have htoNat : seconds.toNat ≤ seconds.natAbs := by omega
      exact .inr (hbuilt hreads (htoNat.trans_lt hseconds) hcredentials)

/-! ## Back from the fields, and from the text -/

theorem trim_toString (n : ℕ) : trim (toString n) = toString n := by
  rw [trim, Nat.toString_eq_ofList_toDigits, String.toList_ofList, Text.strip_toDigits]

/-- The fields of a policy are read as they are. -/
theorem build_fields {policy : Policy} (h : Built policy) : build policy.settings = .ok policy := by
  have hupper : policy.methods.map upper = policy.methods := by
    refine (List.map_congr_left fun method hmethod => ?_).trans (List.map_id' _)
    exact (by decide : ∀ method ∈ supportedMethods, upper method = method) method
      (h.supported method hmethod)
  have hmethods : orElse ((Listish.sequence policy.methods).items.map upper).eraseDups
      supportedMethods = policy.methods := by
    rw [h.methods.items, hupper, eraseDups_of_nodup h.methods.nodup,
      orElse_of_ne_nil h.methods_ne_nil]
  have hheaders : orElse (Listish.sequence policy.headers).items.eraseDups defaultHeaders =
      policy.headers := by
    rw [h.headers.items, eraseDups_of_nodup h.headers.nodup, orElse_of_ne_nil h.headers_ne_nil]
  have hexpose : (Listish.sequence policy.expose).items.eraseDups = policy.expose := by
    rw [h.expose.items, eraseDups_of_nodup h.expose.nodup]
  have hunsupported : policy.methods.filter (fun method => decide (method ∉ supportedMethods)) =
      [] := by
    rw [List.filter_eq_nil_iff]
    exact fun method hmethod => by simpa using h.supported method hmethod
  have hnonempty : toString policy.maxAge ≠ "" := by
    rw [Nat.toString_eq_ofList_toDigits, ← String.toList_inj.ne, String.toList_ofList]
    exact Nat.toDigits_ne_nil
  have henabled : policy.origins.isEmpty = false := by simpa using h.enabled
  rw [build]
  simp only [Policy.settings, h.origins.items, henabled, mapM_pattern_of_fixed h.patterns,
    eraseDups_of_nodup h.origins.nodup, hmethods, hheaders, hexpose, hunsupported, Option.map_some,
    trim_toString, bind, Except.bind, pure, Except.pure, throw, throwThe,
    MonadExceptOf.throw]
  rw [if_neg Bool.false_ne_true, if_neg h.alone, if_neg (not_not_intro rfl),
    Text.int?_toString h.maxAge]
  simp only
  rw [if_neg (by omega), Int.toNat_natCast]
  split
  · case isTrue hcredentials =>
      obtain ⟨horigins, hsends, hreads⟩ := h.credentials hcredentials
      rw [if_neg horigins, if_neg hsends, if_neg hreads]
  · rfl

theorem build_default : build ({} : Policy).settings = .ok {} := rfl

/-- What a policy is stored as is a document that reads back. -/
theorem plain_members {policy : Policy} (h : policy.maxAge < 10 ^ Text.digitLimit) :
    Json.Plain (.obj policy.members) := by
  have hlist (names : List String) : Json.Plain (.arr (names.map .str)) := by
    refine .arr fun item hitem => ?_
    obtain ⟨name, -, rfl⟩ := List.mem_map.mp hitem
    exact .str name
  have hage : Json.Plain (.int policy.maxAge) := .int (by simpa using h)
  refine .obj ?_ ?_
  · rw [Policy.members]
    simp
  · rw [Policy.members]
    simp only [List.forall_mem_cons]
    exact ⟨.bool _, hlist _, hlist _, hage, hlist _, hlist _, nofun⟩

theorem ofJson_names (names : List String) :
    Listish.ofJson (.arr (names.map .str)) = some (.sequence names) := by
  have hstr : (names.map Json.str).map Json.pyStr = names := by
    rw [List.map_map]
    exact (List.map_congr_left fun _ _ => rfl).trans (List.map_id' _)
  rw [Listish.ofJson, hstr]

/-- The stored text is read as the fields it was written from. -/
theorem decode_encode {policy : Policy} (hage : policy.maxAge < 10 ^ Text.digitLimit) :
    decode (encode policy) =
      if (Listish.sequence policy.origins).items.isEmpty then some {}
      else (build policy.settings).toOption := by
  have horigins : policy.members.lookup "origins" = some (.arr (policy.origins.map .str)) := rfl
  have hmethods : policy.members.lookup "methods" = some (.arr (policy.methods.map .str)) := rfl
  have hheaders : policy.members.lookup "headers" = some (.arr (policy.headers.map .str)) := rfl
  have hexpose : policy.members.lookup "expose" = some (.arr (policy.expose.map .str)) := rfl
  have hmaxAge : policy.members.lookup "max_age" = some (.int policy.maxAge) := rfl
  have hcredentials : policy.members.lookup "allow_credentials" =
      some (.bool policy.allowCredentials) := rfl
  rw [decode, encode, Json.loads_dumps (plain_members hage)]
  simp only [horigins, hmethods, hheaders, hexpose, hmaxAge, hcredentials, Option.getD_some,
    ofJson_names, Option.bind_eq_bind, Option.bind_some]
  rfl

/-- A policy the validator makes is made again from its own fields and from the text it is stored
as, and it is in force once it is stored, whatever the environment says. -/
theorem stored_policy_enforced {settings : Settings} {policy : Policy}
    (h : build settings = .ok policy) :
    decode (encode policy) = some policy ∧ build policy.settings = .ok policy ∧
      ∀ (db : MirrorMeta) (default : Policy), effective (configure db (some policy)) default =
        { policy, source := .admin, default, storedUnreadable := false } := by
  have hbuild : build policy.settings = .ok policy := by
    rcases built_of_build h with rfl | hbuilt
    · exact build_default
    · exact build_fields hbuilt
  have hdecode : decode (encode policy) = some policy := by
    rcases built_of_build h with rfl | hbuilt
    · exact decode_encode default_lt
    · rw [decode_encode hbuilt.maxAge, hbuilt.origins.items, if_neg (by simpa using hbuilt.enabled),
        hbuild]
      rfl
  refine ⟨hdecode, hbuild, fun db default => ?_⟩
  rw [effective, configure, Function.update_self, Option.map_some]
  simp only [hdecode]

/-- Mixed case, an origin given twice, and blank lists: a default for the request headers, and
nothing for the readable ones. -/
def officeSettings : Settings where
  origins := .text " HTTPS://App.Example.org , https://*.Example.org:8443,https://app.example.org"
  methods := .sequence ["get", "GET", ""]
  headers := .text " "
  expose := .text ""
  maxAge := some " 0 "
  allowCredentials := true

def officePolicy : Policy where
  origins := ["https://app.example.org", "https://*.example.org:8443"]
  methods := ["GET"]
  headers := ["Authorization", "Content-Type"]
  expose := []
  maxAge := 0
  allowCredentials := true

theorem stored_policy_enforced_office :
    decode (encode officePolicy) = some officePolicy ∧
      build officePolicy.settings = .ok officePolicy ∧
      (effective (configure (fun _ => none) (some officePolicy)) {}).policy = officePolicy := by
  have h := stored_policy_enforced (show build officeSettings = .ok officePolicy by decide +kernel)
  refine ⟨h.1, h.2.1, ?_⟩
  rw [h.2.2]

end PcoMirror.Cors
