import PcoMirror.Model.Service
import PcoMirror.Verification.Access.Keys

/-! Who may read and write through the mirror: what a key opens over a whole run, and that a request
without one leaves everything as it was. -/

namespace PcoMirror.ApiKeys

open Text

variable {hashKey : String → List UInt8} {keys : List ApiKey} {moves : List Move}
  {header : Option String} {now : String}

/-! ## Scopes -/

theorem callerScopes_ok {scopes : List String} :
    (callerScopes hashKey false keys header now).1 = .ok scopes ↔
      ∃ raw, (authenticate hashKey keys header now).1.map ApiKey.scopes = some raw ∧
        scopes = parseScopes raw := by
  unfold callerScopes
  rw [if_neg (by decide)]
  split
  · rename_i k _ h
    rw [h]
    simp [eq_comm]
  · rename_i h
    rw [h]
    simp

/-- A header is let in, with just these scopes, if and only if it shows a key that has the public
half and the digest of one that was minted with them earlier in the run and has not been revoked
since. -/
theorem admitted_iff (hashKey : String → List UInt8) (moves : List Move) (header : Option String)
    (now : String) (scopes : List String) :
    (callerScopes hashKey false (Run.exec (step hashKey) [] moves) header now).1 = .ok scopes ↔
      ∃ shown key raw, bearerToken header = some shown ∧ Live hashKey moves key raw ∧
        publicHalf shown = publicHalf key ∧ hashKey shown = hashKey key ∧
        scopes = parseScopes raw := by
  rw [callerScopes_ok]
  constructor
  · intro h
    obtain ⟨raw, hrow, hscopes⟩ := h
    obtain ⟨shown, key, h⟩ := authenticate_exec.mp hrow
    exact ⟨shown, key, raw, h.1, h.2.1, h.2.2.1, h.2.2.2, hscopes⟩
  · intro h
    obtain ⟨shown, key, raw, hshown, hlive, hhalf, hdigest, hscopes⟩ := h
    exact ⟨raw, authenticate_exec.mpr ⟨shown, key, hshown, hlive, hhalf, hdigest⟩, hscopes⟩

/-! ## A key over its life -/

/-- A public half that a row has had is never free again. -/
theorem half_kept (hashKey : String → List UInt8) {k : ApiKey} (hk : k ∈ keys) (moves : List Move) :
    ∃ k' ∈ Run.exec (step hashKey) keys moves, k'.publicHalf = k.publicHalf := by
  have hmap {f : ApiKey → ApiKey} (hf : SameKey f) {keys : List ApiKey} {k : ApiKey}
      (hk : k ∈ keys) : ∃ k' ∈ keys.map f, k'.publicHalf = k.publicHalf :=
    ⟨f k, List.mem_map_of_mem hk, hf.half k⟩
  induction moves generalizing keys k with
  | nil => exact ⟨k, hk, rfl⟩
  | cons move moves ih =>
      have hstep : ∃ k' ∈ step hashKey keys move, k'.publicHalf = k.publicHalf := by
        cases move with
        | create d name scopes => exact ⟨k, List.mem_append_left _ hk, rfl⟩
        | revoke half now =>
            rcases revoke_rows keys half now with h | ⟨h, -⟩
            · simp only [step, h]
              exact hmap (sameKey_disabledBy half now) hk
            · simp only [step, h]
              exact ⟨k, hk, rfl⟩
        | authenticate header now =>
            rcases authenticate_rows hashKey keys header now with h | ⟨id, h⟩
            · simp only [step, h]
              exact ⟨k, hk, rfl⟩
            · simp only [step, h]
              exact hmap (sameKey_usedBy id now) hk
      obtain ⟨k', hk', hhalf⟩ := hstep
      obtain ⟨k'', hk'', hhalf'⟩ := ih hk'
      exact ⟨k'', hk'', hhalf'.trans hhalf⟩

/-- The half of a key that has been minted belongs to no other key that is minted, before or
after. -/
theorem mint_unique {before after : List Move} {d : Draw} {name scopes key : String} {k : ApiKey}
    (hcreate : create hashKey (Run.exec (step hashKey) [] before) d name scopes = some (key, k))
    {key' scopes' : String}
    (hlive : Live hashKey (before ++ .create d name scopes :: after) key' scopes')
    (hhalf : publicHalf key' = some k.publicHalf) :
    scopes' = scopes ∧ ∀ now, Move.revoke k.publicHalf now ∉ after := by
  have hfresh {before before' between : List Move} {d d' : Draw} {name name' scopes scopes' : String}
      {key key' : String} {k k' : ApiKey}
      (hcreate : create hashKey (Run.exec (step hashKey) [] before) d name scopes = some (key, k))
      (hcreate' : create hashKey (Run.exec (step hashKey) [] before') d' name' scopes' =
        some (key', k'))
      (hbefore : before' = before ++ .create d name scopes :: between) :
      k'.publicHalf ≠ k.publicHalf := by
    have hrow : k ∈ step hashKey (Run.exec (step hashKey) [] before) (.create d name scopes) := by
      simp [step, hcreate]
    obtain ⟨k'', hk'', hhalf⟩ := half_kept hashKey hrow between
    intro heq
    have hkept := (minted_of_create hcreate').freshHalf k''
    rw [hbefore, Run.exec_append, Run.exec_cons] at hkept
    exact hkept hk'' (hhalf.trans heq.symm)
  obtain ⟨before', d', name', after', hmoves, hminted, hkept⟩ := hlive
  obtain ⟨⟨key'', k'⟩, hcreate', hkey⟩ := Option.map_eq_some_iff.mp hminted
  cases hkey
  have hsame : k'.publicHalf = k.publicHalf :=
    Option.some.inj ((minted_of_create hcreate').half.symm.trans hhalf)
  rcases List.append_eq_append_iff.mp hmoves with ⟨between, hbefore, hrest⟩ | ⟨between, hbefore, hrest⟩
  · cases between with
    | nil =>
        cases hrest
        exact ⟨rfl, fun now => hkept _ now hhalf⟩
    | cons move between =>
        cases hrest
        exact absurd hsame (hfresh hcreate hcreate' hbefore)
  · cases between with
    | nil =>
        cases hrest
        exact ⟨rfl, fun now => hkept _ now hhalf⟩
    | cons move between =>
        cases hrest
        exact absurd hsame.symm (hfresh hcreate' hcreate hbefore)

/-- From the move that mints it a key is let in, with the scopes it was minted with and in whichever
form a header holds it, until its public half is revoked; and it is never let in again. -/
theorem key_life (before after : List Move) (d : Draw) (name scopes key : String)
    (hcreate : (create hashKey (Run.exec (step hashKey) [] before) d name scopes).map Prod.fst =
      some key)
    (front value back : List Char) (hfront : Blank front) (hvalue : Holds key value)
    (hback : Blank back) (now : String) :
    let caller := (callerScopes hashKey false
      (Run.exec (step hashKey) [] (before ++ .create d name scopes :: after))
      (some (String.ofList (front ++ (value ++ back)))) now).1
    let revoked := ∃ half at', publicHalf key = some half ∧ Move.revoke half at' ∈ after
    (¬revoked → caller = .ok (parseScopes scopes)) ∧ (revoked → ∃ detail, caller = .error detail) := by
  obtain ⟨⟨key', k⟩, hminting, hkey⟩ := Option.map_eq_some_iff.mp hcreate
  cases hkey
  have hminted := minted_of_create hminting
  have hshown := bearerToken_holds hminted.isKey hvalue hfront hback
  constructor
  · intro hkept
    refine callerScopes_ok.mpr ⟨scopes, authenticate_exec.mpr ⟨key', key', hshown, ?_, rfl, rfl⟩, rfl⟩
    refine ⟨before, d, name, after, rfl, hcreate, fun half at' hhalf hmem => ?_⟩
    exact hkept ⟨half, at', hhalf, hmem⟩
  · intro hrevoked
    obtain ⟨half, at', hhalf, hmem⟩ := hrevoked
    cases hcaller : (callerScopes hashKey false
        (Run.exec (step hashKey) [] (before ++ .create d name scopes :: after))
        (some (String.ofList (front ++ (value ++ back)))) now).1 with
    | error detail => exact ⟨detail, rfl⟩
    | ok held =>
        obtain ⟨raw, hrow, -⟩ := callerScopes_ok.mp hcaller
        obtain ⟨shown, key'', hheader, hlive, hsame, -⟩ := authenticate_exec.mp hrow
        rw [hshown] at hheader
        cases hheader
        have hgone := (mint_unique hminting hlive (hsame.symm.trans hminted.half)).2 at'
        rw [hminted.half] at hhalf
        cases hhalf
        exact absurd hmem hgone

/-- Draws of nothing but zeros. -/
def zeros : Draw :=
  ⟨fun _ => .replicate 4 0, .replicate 32 0, .replicate 8 0⟩

theorem key_life_bearer :
    (callerScopes utf8Bytes false (Run.exec (step utf8Bytes) [] [.create zeros "app" "read:people"])
      (some ("Bearer " ++ keyOf "00000000" zeros)) "2024-01-01T00:00:00Z").1 =
        .ok ["read:people"] := by
  have hheader : "Bearer " ++ keyOf "00000000" zeros = String.ofList
      ([] ++ (("Bearer".toList ++ ' ' :: ([] ++ (keyOf "00000000" zeros).toList)) ++ [])) := by
    decide +kernel
  have hblank : Blank [] := fun c hc => by cases hc
  rw [hheader]
  exact (key_life [] [] zeros "app" "read:people" (keyOf "00000000" zeros) (by decide +kernel) [] _ []
    hblank (.bearer (by decide) hblank) hblank "2024-01-01T00:00:00Z").1 (by simp)

end PcoMirror.ApiKeys

namespace PcoMirror

open Program ApiKeys

variable {hashKey : String → List UInt8} {scopes : Except String (List String)} {w : World}

/-! ## What a request may do -/

end PcoMirror
