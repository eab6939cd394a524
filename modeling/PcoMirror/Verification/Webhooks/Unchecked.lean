import PcoMirror.Model.Subscriptions

/-! Whether a receiver that checks nothing is shown as one, and reported. -/

namespace PcoMirror

variable {w : World} {sub : Subscription} {token : String}

theorem unverified_iff : sub.unverified = true ↔ ∀ c ∈ sub.secret.toList, Text.isSpace c = true := by
  rw [Subscription.unverified, List.isEmpty_iff, Text.strip_eq_nil]

theorem blankInSql_iff : sub.blankInSql = true ↔ ∀ c ∈ sub.secret.toList, c = ' ' := by
  rw [Subscription.blankInSql, List.isEmpty_iff, Text.sqlTrim_eq_nil]

/-- What SQL finds blank, Python does. -/
theorem unverified_of_blankInSql (h : sub.blankInSql = true) : sub.unverified = true := by
  rw [unverified_iff]
  intro c hc
  rw [blankInSql_iff.mp h c hc]
  decide

theorem mem_listing {row : ListedSubscription} :
    row ∈ w.listing ↔ ∃ sub ∈ w.subscriptions, sub.listed = row := by
  simp [World.listing, List.mem_mergeSort]

theorem mem_unprotectedTokens : token ∈ w.unprotectedTokens ↔
    (∃ sub ∈ w.subscriptions, sub.active = true ∧ sub.blankInSql = true ∧ sub.urlToken = token) ∧
      tokenIsCredential token = false := by
  simp [World.unprotectedTokens, List.mem_mergeSort, and_assoc]

/-- A subscription is shown as unchecked where the receiver does not check it, and a guessable
token that such a subscription listens on is reported. -/
structure World.Admits (w : World) : Prop where
  shown : ∀ sub ∈ w.subscriptions, sub.listed ∈ w.listing ∧ sub.listed.unverified = sub.unverified
  reported : ∀ token, token ∈ w.unprotectedTokens ↔
    (∃ sub ∈ w.subscriptions, sub.active = true ∧ sub.unverified = true ∧ sub.urlToken = token) ∧
      tokenIsCredential token = false

/-- The pages and the receiver agree where a secret that is blank is made of spaces alone. -/
theorem unchecked_shown_iff (w : World) : w.Admits ↔ ∀ sub ∈ w.subscriptions,
    (∀ c ∈ sub.secret.toList, Text.isSpace c = true) → ∀ c ∈ sub.secret.toList, c = ' ' := by
  constructor
  · intro h sub hsub hblank
    have hflag : sub.blankInSql = sub.unverified := (h.shown sub hsub).2
    exact blankInSql_iff.mp (hflag.trans (unverified_iff.mpr hblank))
  · intro h
    have hflag : ∀ sub ∈ w.subscriptions, sub.blankInSql = sub.unverified := by
      intro sub hsub
      rw [Bool.eq_iff_iff]
      exact ⟨unverified_of_blankInSql, fun hblank =>
        blankInSql_iff.mpr (h sub hsub (unverified_iff.mp hblank))⟩
    refine ⟨fun sub hsub => ⟨mem_listing.mpr ⟨sub, hsub, rfl⟩, hflag sub hsub⟩, fun token => ?_⟩
    rw [mem_unprotectedTokens]
    refine and_congr_left fun _ => exists_congr fun sub => and_congr_right fun hsub => ?_
    rw [hflag sub hsub]

/-- A receiver whose secret is one tab. -/
def tabSecretWorld : World where
  subscriptions := [{
    id := "sub1"
    eventName := "people.v2.events.person.updated"
    urlToken := "person-events-01"
    secret := "\t" }]

/-- The receiver accepts whatever is posted to it, and neither the page nor the log says so. -/
theorem unchecked_not_shown : ¬ tabSecretWorld.Admits := by
  intro h
  have hflag := (h.shown _ (List.mem_singleton_self _)).2
  revert hflag
  decide

end PcoMirror
