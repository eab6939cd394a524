import PcoMirror.Lib.Keyring
import PcoMirror.Verification.Access.Headers

/-! Which keys are let in: over any run, those that were minted and have not been revoked since. -/

namespace PcoMirror.ApiKeys

open Text

/-! ## What a minted key looks like -/

theorem digitChar_plain : ∀ n < 16, isSpace (Nat.digitChar n) = false ∧
    Nat.digitChar n ≠ ':' ∧ Nat.digitChar n ≠ '_' := by decide

theorem hexDigest_plain {bytes : List UInt8} {c : Char} (hc : c ∈ hexDigest bytes) :
    isSpace c = false ∧ c ≠ ':' ∧ c ≠ '_' := by
  obtain ⟨b, -, hc⟩ := List.mem_flatMap.mp hc
  have hb := b.toNat_lt
  simp only [List.mem_cons, List.not_mem_nil, or_false] at hc
  rcases hc with rfl | rfl
  · exact digitChar_plain _ (by omega)
  · exact digitChar_plain _ (by omega)

theorem length_hexDigest (bytes : List UInt8) : (hexDigest bytes).length = 2 * bytes.length := by
  induction bytes with
  | nil => rfl
  | cons b bytes ih =>
      rw [hexDigest, List.flatMap_cons, List.length_append, List.length_cons]
      rw [hexDigest] at ih
      rw [ih]
      simp
      omega

/-- What `secrets.token_hex` draws four bytes for. -/
def IsHalf (half : String) : Prop :=
  ∃ bytes : Vector UInt8 4, half = tokenHex bytes

theorem toList_keyOf (bytes : Vector UInt8 4) (d : Draw) : (keyOf (tokenHex bytes) d).toList =
    tokenPrefix.toList ++ '_' :: (hexDigest bytes.toList ++ '_' :: hexDigest d.secret.toList) := by
  simp [keyOf, tokenHex]

theorem splitOn_append_cons {c : Char} {s : List Char} (h : c ∉ s) (rest : List Char) :
    (s ++ c :: rest).splitOn c = s :: rest.splitOn c := by
  have hall : ∀ d ∈ s, decide (d ≠ c) = true := by
    intro d hd
    exact decide_eq_true fun heq => h (heq ▸ hd)
  rw [splitOn_of_mem (by simp), List.takeWhile_append_of_pos hall, List.dropWhile_append_of_pos hall]
  simp

theorem publicHalf_keyOf {half : String} (h : IsHalf half) (d : Draw) :
    publicHalf (keyOf half d) = some half := by
  obtain ⟨bytes, rfl⟩ := h
  have hplain : '_' ∉ hexDigest bytes.toList := fun hmem => (hexDigest_plain hmem).2.2 rfl
  have hsecret : '_' ∉ hexDigest d.secret.toList := fun hmem => (hexDigest_plain hmem).2.2 rfl
  have hparts : (keyOf (tokenHex bytes) d).toList.splitOn '_' =
      [tokenPrefix.toList, hexDigest bytes.toList, hexDigest d.secret.toList] := by
    rw [toList_keyOf, splitOn_append_cons (by decide), splitOn_append_cons hplain,
      List.splitOn_eq_singleton hsecret]
  rw [publicHalf, hparts]
  simp [length_hexDigest, prefixLen, tokenHex]

theorem isKey_keyOf {half : String} (h : IsHalf half) (d : Draw) : IsKey (keyOf half d) := by
  obtain ⟨bytes, rfl⟩ := h
  constructor
  · rw [marked, toList_keyOf]
    simp
  · intro c hc
    have hfront : ∀ c ∈ tokenPrefix.toList ++ ['_'], (isSpace c || c = ':') = false :=
      forall_of_all (by decide)
    have hplain {c : Char} (hc : c ∈ tokenPrefix.toList ++ ['_']) : isSpace c = false ∧ c ≠ ':' := by
      simpa using hfront c hc
    rw [toList_keyOf] at hc
    simp only [List.mem_append, List.mem_cons] at hc
    rcases hc with hc | rfl | hc | rfl | hc
    · exact hplain (by simp [hc])
    · exact hplain (by simp)
    · exact ⟨(hexDigest_plain hc).1, (hexDigest_plain hc).2.1⟩
    · exact hplain (by simp)
    · exact ⟨(hexDigest_plain hc).1, (hexDigest_plain hc).2.1⟩

/-! ## One move -/

variable {hashKey : String → List UInt8} {keys : List ApiKey} {d : Draw} {k : ApiKey}
  {key name scopes half now : String}

/-- A key that has just been minted: its text, and the row that is kept of it. -/
structure Minted (hashKey : String → List UInt8) (keys : List ApiKey) (key scopes : String)
    (k : ApiKey) : Prop where
  isKey : IsKey key
  half : publicHalf key = some k.publicHalf
  digest : k.keyHash = hashKey key
  scopes : k.scopes = scopes
  enabled : k.enabled = true
  freshHalf : ∀ k' ∈ keys, k'.publicHalf ≠ k.publicHalf
  freshId : ∀ k' ∈ keys, k'.id ≠ k.id

theorem minted_of_create (h : create hashKey keys d name scopes = some (key, k)) :
    Minted hashKey keys key scopes k := by
  simp only [create, Option.bind_eq_bind, Option.bind_eq_some_iff] at h
  obtain ⟨half, hhalf, h⟩ := h
  split_ifs at h with hid
  cases h
  have hfree : ∀ k' ∈ keys, k'.publicHalf ≠ half := by
    simpa using List.find?_some hhalf
  obtain ⟨i, -, hdrawn⟩ := List.mem_map.mp (List.mem_of_find?_eq_some hhalf)
  have hdraw : IsHalf half := ⟨d.halves i, hdrawn.symm⟩
  exact {
    isKey := isKey_keyOf hdraw d
    half := publicHalf_keyOf hdraw d
    digest := rfl
    scopes := rfl
    enabled := rfl
    freshHalf := hfree
    freshId := by simpa using hid }

/-- No two rows have one public half. -/
def Unique (keys : List ApiKey) : Prop :=
  (keys.map ApiKey.publicHalf).Nodup

/-- What the enabled keys hold, by their public halves. -/
def ring (keys : List ApiKey) : Keyring.Ring String (List UInt8 × String) := fun half =>
  (keys.find? fun k => k.publicHalf = half && k.enabled).map fun k => (k.keyHash, k.scopes)

theorem Unique.eq (hunique : Unique keys) {k' : ApiKey} (hk : k ∈ keys) (hk' : k' ∈ keys)
    (h : k.publicHalf = k'.publicHalf) : k = k' :=
  List.inj_on_of_nodup_map hunique hk hk' h

theorem ring_eq_some (hunique : Unique keys) {g : List UInt8 × String} : ring keys half = some g ↔
    ∃ k ∈ keys, k.publicHalf = half ∧ k.enabled = true ∧ (k.keyHash, k.scopes) = g := by
  constructor
  · intro h
    obtain ⟨k, hfind, hg⟩ := Option.map_eq_some_iff.mp h
    have hk := List.find?_some hfind
    simp only [Bool.and_eq_true, decide_eq_true_eq] at hk
    exact ⟨k, List.mem_of_find?_eq_some hfind, hk.1, hk.2, hg⟩
  · intro h
    obtain ⟨k, hmem, hhalf, henabled, hg⟩ := h
    cases hfind : keys.find? fun k => k.publicHalf = half && k.enabled with
    | none =>
        have hnone := List.find?_eq_none.mp hfind k hmem
        simp [hhalf, henabled] at hnone
    | some k' =>
        have hk' := List.find?_some hfind
        simp only [Bool.and_eq_true, decide_eq_true_eq] at hk'
        have heq := hunique.eq (List.mem_of_find?_eq_some hfind) hmem (hk'.1.trans hhalf.symm)
        rw [ring, hfind, heq, Option.map_some, hg]

theorem ring_eq_none (h : ∀ k ∈ keys, k.publicHalf ≠ half) : ring keys half = none := by
  rw [ring, Option.map_eq_none_iff, List.find?_eq_none]
  intro k hk
  simp [h k hk]

/-- A row is rewritten, and still the row of the same key. -/
structure SameKey (f : ApiKey → ApiKey) : Prop where
  half : ∀ k, (f k).publicHalf = k.publicHalf
  digest : ∀ k, (f k).keyHash = k.keyHash
  scopes : ∀ k, (f k).scopes = k.scopes

theorem Unique.map {f : ApiKey → ApiKey} (hunique : Unique keys) (hf : SameKey f) :
    Unique (keys.map f) := by
  have hhalves : (keys.map f).map ApiKey.publicHalf = keys.map ApiKey.publicHalf := by
    simp [hf.half]
  rwa [Unique, hhalves]

/-- What the rewriting of rows does to the ring. -/
theorem ring_map {f : ApiKey → ApiKey} (hunique : Unique keys) (hf : SameKey f)
    {g : List UInt8 × String} : ring (keys.map f) half = some g ↔
    ∃ k ∈ keys, k.publicHalf = half ∧ (f k).enabled = true ∧ (k.keyHash, k.scopes) = g := by
  rw [ring_eq_some (hunique.map hf)]
  simp [hf.half, hf.digest, hf.scopes]

def disabledBy (half now : String) (k : ApiKey) : ApiKey :=
  if k.publicHalf = half then { k with disabledAt := some now } else k

def usedBy (id now : String) (k : ApiKey) : ApiKey :=
  if k.id = id then { k with lastUsedAt := some now } else k

theorem sameKey_disabledBy (half now : String) : SameKey (disabledBy half now) where
  half k := by unfold disabledBy; split_ifs <;> rfl
  digest k := by unfold disabledBy; split_ifs <;> rfl
  scopes k := by unfold disabledBy; split_ifs <;> rfl

theorem sameKey_usedBy (id now : String) : SameKey (usedBy id now) where
  half k := by unfold usedBy; split_ifs <;> rfl
  digest k := by unfold usedBy; split_ifs <;> rfl
  scopes k := by unfold usedBy; split_ifs <;> rfl

/-- What a move does to the ring. -/
def given (hashKey : String → List UInt8) (keys : List ApiKey) :
    Move → Option (Keyring.Move String (List UInt8 × String))
  | .create d name scopes => (create hashKey keys d name scopes).map fun minted =>
      .grant minted.2.publicHalf (minted.2.keyHash, minted.2.scopes)
  | .revoke half _ => some (.withdraw fun name _ => decide (name = half))
  | .authenticate .. => none

/-- The rows after a use of a key, of which one is touched or none. -/
theorem authenticate_rows (hashKey : String → List UInt8) (keys : List ApiKey)
    (header : Option String) (now : String) :
    (authenticate hashKey keys header now).2 = keys ∨
      ∃ id, (authenticate hashKey keys header now).2 = keys.map (usedBy id now) := by
  unfold authenticate touch
  split
  · split_ifs
    · exact .inl rfl
    · exact .inr ⟨_, rfl⟩
  · exact .inl rfl

/-- The rows after a revocation. -/
theorem revoke_rows (keys : List ApiKey) (half now : String) :
    (revoke keys half now).2 = keys.map (disabledBy half now) ∨
      ((revoke keys half now).2 = keys ∧ ∀ k ∈ keys, k.publicHalf = half → k.enabled = false) := by
  unfold revoke
  split_ifs with h
  · exact .inl rfl
  · exact .inr ⟨rfl, by simpa using h⟩

theorem unique_step (hashKey : String → List UInt8) (hunique : Unique keys) (move : Move) : Unique (step hashKey keys move) := by
  cases move with
  | create d name scopes =>
      simp only [step]
      cases hcreate : create hashKey keys d name scopes with
      | none => simpa using hunique
      | some minted =>
          have hminted := minted_of_create hcreate
          simp only [Option.map_some, Option.toList_some, Unique, List.map_append, List.map_cons,
            List.map_nil]
          refine List.nodup_append.mpr ⟨hunique, List.nodup_singleton _, ?_⟩
          simp only [List.mem_map, List.mem_singleton]
          intro half hhalf half' hhalf' heq
          obtain ⟨k, hk, rfl⟩ := hhalf
          exact hminted.freshHalf k hk (heq.trans hhalf')
  | revoke half now =>
      simp only [step]
      rcases revoke_rows keys half now with h | ⟨h, -⟩
      · rw [h]
        exact hunique.map (sameKey_disabledBy half now)
      · rwa [h]
  | authenticate header now =>
      simp only [step]
      rcases authenticate_rows hashKey keys header now with h | ⟨id, h⟩
      · rwa [h]
      · rw [h]
        exact hunique.map (sameKey_usedBy id now)

/-- A new row is what is granted. -/
theorem ring_mint (hunique : Unique keys) (hminted : Minted hashKey keys key scopes k)
    (hnext : Unique (keys ++ [k])) :
    ring (keys ++ [k]) = Keyring.step (ring keys) (.grant k.publicHalf (k.keyHash, k.scopes)) := by
  funext half
  ext g
  rw [ring_eq_some hnext, Keyring.step_eq_some, ring_eq_some hunique]
  simp only [List.mem_append, List.mem_singleton, Keyring.spared_grant, and_true,
    Keyring.Move.grant.injEq]
  constructor
  · intro h
    obtain ⟨k', hmem | rfl, hhalf, henabled, hg⟩ := h
    · exact .inl ⟨k', hmem, hhalf, henabled, hg⟩
    · exact .inr ⟨ring_eq_none fun k'' hk'' => hhalf ▸ hminted.freshHalf k'' hk'', hhalf, hg⟩
  · intro h
    rcases h with ⟨k', hmem, h⟩ | ⟨-, hhalf, hg⟩
    · exact ⟨k', .inl hmem, h⟩
    · exact ⟨k, .inr rfl, hhalf, hminted.enabled, hg⟩

/-- What is revoked is withdrawn. -/
theorem ring_revoke (hunique : Unique keys) (half now : String) :
    ring (revoke keys half now).2 =
      Keyring.step (ring keys) (.withdraw fun name _ => decide (name = half)) := by
  funext name
  ext g
  rw [Keyring.step_eq_some, Keyring.spared_withdraw, decide_eq_false_iff_not]
  simp only [reduceCtorEq, and_false, or_false]
  rcases revoke_rows keys half now with h | ⟨h, hnone⟩
  · rw [h, ring_map hunique (sameKey_disabledBy half now), ring_eq_some hunique]
    constructor
    · intro h
      obtain ⟨k, hmem, hname, henabled, hg⟩ := h
      by_cases hhalf : k.publicHalf = half
      · simp [disabledBy, hhalf, ApiKey.enabled] at henabled
      · rw [disabledBy, if_neg hhalf] at henabled
        exact ⟨⟨k, hmem, hname, henabled, hg⟩, hname ▸ hhalf⟩
    · intro h
      obtain ⟨⟨k, hmem, hname, henabled, hg⟩, hne⟩ := h
      refine ⟨k, hmem, hname, ?_, hg⟩
      rwa [disabledBy, if_neg (hname ▸ hne)]
  · rw [h]
    constructor
    · intro hheld
      refine ⟨hheld, fun hname => ?_⟩
      obtain ⟨k, hmem, hhalf, henabled, -⟩ := (ring_eq_some hunique).mp hheld
      rw [hnone k hmem (hhalf.trans hname)] at henabled
      cases henabled
    · exact And.left

/-- A use of a key changes nothing of the ring. -/
theorem ring_authenticate (hunique : Unique keys) (header : Option String) (now : String) :
    ring (authenticate hashKey keys header now).2 = ring keys := by
  rcases authenticate_rows hashKey keys header now with h | ⟨id, h⟩
  · rw [h]
  · funext half
    ext g
    have henabled (k : ApiKey) : (usedBy id now k).enabled = k.enabled := by
      unfold usedBy
      split_ifs <;> rfl
    rw [h, ring_map hunique (sameKey_usedBy id now), ring_eq_some hunique]
    simp only [henabled]

theorem ring_step (hunique : Unique keys) (move : Move) : ring (step hashKey keys move) =
    (given hashKey keys move).elim (ring keys) (Keyring.step (ring keys)) := by
  cases move with
  | create d name scopes =>
      have hnext := unique_step hashKey hunique (.create d name scopes)
      simp only [step, given] at hnext ⊢
      cases hcreate : create hashKey keys d name scopes with
      | none => simp
      | some minted =>
          rw [hcreate] at hnext
          exact ring_mint hunique (minted_of_create hcreate) hnext
  | revoke half now => exact ring_revoke hunique half now
  | authenticate header now => exact ring_authenticate hunique header now

/-! ## Runs -/

variable {moves : List Move}

/-- The ring after any run from an empty table is what the moves grant and withdraw. -/
theorem ring_exec (hashKey : String → List UInt8) (moves : List Move) :
    ring (Run.exec (step hashKey) [] moves) = Run.exec Keyring.step (fun _ => none)
      (Run.outputs (step hashKey) (given hashKey) [] moves) :=
  Run.view_exec ring (fun _ move hunique => unique_step hashKey hunique move)
    (fun _ move hunique => ring_step hunique move) List.nodup_nil

theorem unique_exec (hashKey : String → List UInt8) (moves : List Move) :
    Unique (Run.exec (step hashKey) [] moves) := by
  induction moves using List.reverseRecOn with
  | nil => exact List.nodup_nil
  | append_singleton moves move ih =>
      rw [Run.exec_append]
      exact unique_step hashKey ih move

/-- A key that was minted in the run, with these scopes, and has not been revoked since. -/
def Live (hashKey : String → List UInt8) (moves : List Move) (key scopes : String) : Prop :=
  ∃ before d name after, moves = before ++ .create d name scopes :: after ∧
    (create hashKey (Run.exec (step hashKey) [] before) d name scopes).map Prod.fst = some key ∧
    ∀ half now, publicHalf key = some half → Move.revoke half now ∉ after

theorem spared_outputs {g : List UInt8 × String} :
    Keyring.Spared half g (Run.outputs (step hashKey) (given hashKey) keys moves) ↔
      ∀ now, Move.revoke half now ∉ moves := by
  induction moves generalizing keys with
  | nil => simp [Run.outputs, Keyring.spared_nil]
  | cons move moves ih =>
      rw [Run.outputs, Keyring.spared_append, ih]
      cases move with
      | create d name scopes =>
          have hgrant : Keyring.Spared half g
              (given hashKey keys (.create d name scopes)).toList := by
            simp only [given]
            cases create hashKey keys d name scopes with
            | none => exact Keyring.spared_nil
            | some minted => exact Keyring.spared_grant
          simp [hgrant]
      | revoke half' now =>
          simp only [given, Option.toList_some, Keyring.spared_withdraw, decide_eq_false_iff_not,
            List.mem_cons, Move.revoke.injEq, not_or]
          constructor
          · intro h now'
            exact ⟨fun heq => h.1 heq.1, h.2 now'⟩
          · intro h
            exact ⟨fun heq => (h now).1 ⟨heq, rfl⟩, fun now' => (h now').2⟩
      | authenticate header now => simp [given, Keyring.spared_nil]

/-- What the enabled keys hold after a run from an empty table. -/
theorem ring_exec_eq_some {digest : List UInt8} :
    ring (Run.exec (step hashKey) [] moves) half = some (digest, scopes) ↔
      ∃ key, Live hashKey moves key scopes ∧ publicHalf key = some half ∧ hashKey key = digest := by
  rw [ring_exec, Keyring.exec_empty_eq_some]
  constructor
  · intro h
    obtain ⟨granted, later, hmoves, -, hspared⟩ := h
    obtain ⟨before, move, after, rfl, -, hmove, rfl⟩ := Run.outputs_eq_append_cons.mp hmoves
    cases move with
    | create d name scopes' =>
        obtain ⟨⟨key, k⟩, hcreate, hgrant⟩ := Option.map_eq_some_iff.mp hmove
        have hminted := minted_of_create hcreate
        cases hgrant
        have hscopes : scopes' = k.scopes := hminted.scopes.symm
        subst hscopes
        refine ⟨key, ⟨before, d, name, after, rfl, by rw [hcreate]; rfl, ?_⟩, hminted.half,
          hminted.digest.symm⟩
        intro half now hhalf
        rw [hminted.half] at hhalf
        cases hhalf
        exact spared_outputs.mp hspared now
    | revoke half' now => cases hmove
    | authenticate header now => cases hmove
  · intro h
    obtain ⟨key, ⟨before, d, name, after, rfl, hcreate, hkept⟩, hhalf, rfl⟩ := h
    obtain ⟨⟨key', k⟩, hminting, hkey⟩ := Option.map_eq_some_iff.mp hcreate
    cases hkey
    have hminted := minted_of_create hminting
    have hsame : k.publicHalf = half := Option.some.inj (hminted.half.symm.trans hhalf)
    refine ⟨_, _, Run.outputs_eq_append_cons.mpr
      ⟨before, .create d name scopes, after, rfl, rfl, ?_, rfl⟩, ?_, spared_outputs.mpr ?_⟩
    · simp only [given, hminting, Option.map_some]
      rw [hsame, hminted.digest, hminted.scopes]
    · rw [← ring_exec]
      exact ring_eq_none fun k' hk' => hsame ▸ hminted.freshHalf k' hk'
    · exact fun now => hkept half now hhalf

/-! ## Who is let in -/

/-- The row a key opens, by what its public half holds. -/
theorem find_map_scopes (hunique : Unique keys) :
    (find hashKey keys key).map ApiKey.scopes = some scopes ↔
      ∃ half, publicHalf key = some half ∧ ring keys half = some (hashKey key, scopes) := by
  constructor
  · intro h
    obtain ⟨k, hfind, rfl⟩ := Option.map_eq_some_iff.mp h
    obtain ⟨half, hhalf, hfind⟩ := Option.bind_eq_some_iff.mp hfind
    have hk := List.find?_some hfind
    simp only [Bool.and_eq_true, decide_eq_true_eq] at hk
    exact ⟨half, hhalf, (ring_eq_some hunique).mpr
      ⟨k, List.mem_of_find?_eq_some hfind, hk.1.1, hk.1.2, by rw [hk.2]⟩⟩
  · intro h
    obtain ⟨half, hhalf, hring⟩ := h
    obtain ⟨k, hmem, hname, henabled, hg⟩ := (ring_eq_some hunique).mp hring
    obtain ⟨hdigest, rfl⟩ := Prod.mk.inj hg
    rw [Option.map_eq_some_iff]
    refine ⟨k, Option.bind_eq_some_iff.mpr ⟨half, hhalf, ?_⟩, rfl⟩
    cases hfind : keys.find? fun k => k.publicHalf = half && k.enabled && k.keyHash = hashKey key with
    | none =>
        have hnone := List.find?_eq_none.mp hfind k hmem
        simp [hname, henabled, hdigest] at hnone
    | some k' =>
        have hk' := List.find?_some hfind
        simp only [Bool.and_eq_true, decide_eq_true_eq] at hk'
        rw [hunique.eq (List.mem_of_find?_eq_some hfind) hmem (hk'.1.1.trans hname.symm)]

/-- A header is let in by a key that has the public half and the digest of a live one. -/
theorem authenticate_exec {header : Option String} {now : String} :
    ((authenticate hashKey (Run.exec (step hashKey) [] moves) header now).1.map ApiKey.scopes =
      some scopes) ↔
    ∃ shown key, bearerToken header = some shown ∧ Live hashKey moves key scopes ∧
      publicHalf shown = publicHalf key ∧ hashKey shown = hashKey key := by
  have hunique := unique_exec hashKey moves
  have hrow : (authenticate hashKey (Run.exec (step hashKey) [] moves) header now).1 =
      (bearerToken header).bind (find hashKey (Run.exec (step hashKey) [] moves)) := by
    unfold authenticate
    split
    · rename_i h
      exact h.symm
    · rename_i h
      exact h.symm
  rw [hrow, Option.map_bind]
  constructor
  · intro h
    obtain ⟨shown, hshown, h⟩ := Option.bind_eq_some_iff.mp h
    obtain ⟨half, hhalf, hring⟩ := (find_map_scopes hunique).mp h
    obtain ⟨key, hlive, hkey, hdigest⟩ := ring_exec_eq_some.mp hring
    exact ⟨shown, key, hshown, hlive, hhalf.trans hkey.symm, hdigest.symm⟩
  · intro h
    obtain ⟨shown, key, hshown, hlive, hhalf, hdigest⟩ := h
    rw [hshown]
    refine (find_map_scopes hunique).mpr ?_
    obtain ⟨half, hkey⟩ : ∃ half, publicHalf key = some half := by
      obtain ⟨before, d, name, after, -, hcreate, -⟩ := hlive
      obtain ⟨⟨key', k⟩, hminting, hkey⟩ := Option.map_eq_some_iff.mp hcreate
      cases hkey
      exact ⟨k.publicHalf, (minted_of_create hminting).half⟩
    exact ⟨half, hhalf.trans hkey, ring_exec_eq_some.mpr ⟨key, hlive, hkey, hdigest.symm⟩⟩

end PcoMirror.ApiKeys
