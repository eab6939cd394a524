import PcoMirror.Lib.Run
import PcoMirror.Model.AdminAuth

/-! How many wrong passwords are tested between two lockouts, whatever the order in which the threads
of the server go on. -/

namespace PcoMirror.AdminAuth

variable {c : Credentials} {s : Console} {f : Failures} {m : Move} {moves later : List Move}
  {calls : List Call} {now : ℚ} {password : String} {i : ℕ} {ok usedBootstrap : Bool}

theorem lockedOut_eq_zero : f.lockedOut now = 0 ↔ f.lockUntil ≤ now := by
  unfold Failures.lockedOut
  split_ifs with h
  · simpa using h
  · simpa using h

/-! ## One thread -/

/-- The parts of a call that no other comes between are the whole call. -/
theorem verify_alone (s : Console) (hcalls : s.calls = []) (password : String)
    (checking testing recording : ℚ≥0) :
    let moves : List Move :=
      [⟨checking, .check password⟩, ⟨testing, .test 0⟩, ⟨recording, .record 0⟩]
    let verified := verify c s.failures (s.now + checking)
      (s.now + checking + testing + recording) password
    Run.outputs (Console.step c) Console.answer s moves = [verified.1] ∧
      (Run.exec (Console.step c) s moves).failures = verified.2 ∧
      (Run.exec (Console.step c) s moves).calls = [] := by
  by_cases hlocked : s.failures.lockedOut (s.now + checking) = 0
  · simp [Run.outputs, Console.step, Console.takes, Console.waits, Console.answer, verify, hlocked,
      hcalls]
  · simp [Run.outputs, Console.step, Console.takes, Console.waits, Console.answer, verify, hlocked,
      hcalls]

/-! ## What the threads keep -/

/-- The password of the call is wrong. -/
def Call.Wrong (c : Credentials) : Call → Prop
  | .passed password => (c.compare password).1 = false
  | .tested ok _ => ok = false

/-- A test is made with no lockout in force, and of at most five passwords since the last one. -/
def Bounded (s : Console) (m : Move) : Prop :=
  ∀ i password, m.part = .test i → s.calls[i]? = some (.passed password) →
    s.failures.lockedOut (s.now + m.elapsed) = 0 ∧ s.tested < maxFailures

/-- A call is let through only where the failures recorded and the calls under way are fewer than
five together. -/
def Room (s : Console) (m : Move) : Prop :=
  ∀ password, m.part = .check password → s.failures.lockedOut (s.now + m.elapsed) = 0 →
    s.failures.count + s.calls.length < maxFailures

/-- A move that goes on with a call under way. -/
def Move.GoesOn (m : Move) : Prop :=
  ∀ password, m.part ≠ .check password

/-- What holds as long as there is room for every call that is let through. -/
structure Console.Roomy (c : Credentials) (s : Console) : Prop where
  room : s.failures.count + s.calls.length ≤ maxFailures
  accounted : s.tested = s.failures.count + s.calls.countP Call.isTested
  unlocked : s.calls ≠ [] → s.failures.lockUntil ≤ s.now
  wrong : ∀ call ∈ s.calls, call.Wrong c

theorem Console.Roomy.waits (h : s.Roomy c) (elapsed : ℚ≥0) : (s.waits elapsed).Roomy c where
  room := h.room
  accounted := h.accounted
  unlocked hcalls := (h.unlocked hcalls).trans (le_add_of_nonneg_right elapsed.2)
  wrong := h.wrong

theorem Console.Roomy.start (now : ℚ) : Console.Roomy c { now := now } where
  room := Nat.zero_le _
  accounted := rfl
  unlocked := absurd rfl
  wrong := nofun

theorem countP_set_tested (ok usedBootstrap : Bool) (h : calls[i]? = some (.passed password)) :
    (calls.set i (.tested ok usedBootstrap)).countP Call.isTested =
      calls.countP Call.isTested + 1 := by
  obtain ⟨hi, hcall⟩ := List.getElem?_eq_some_iff.mp h
  rw [List.countP_set hi, hcall]
  rfl

theorem perm_eraseIdx {call : Call} (h : calls[i]? = some call) :
    calls.Perm (call :: calls.eraseIdx i) := by
  obtain ⟨hi, rfl⟩ := List.getElem?_eq_some_iff.mp h
  exact (List.getElem_cons_eraseIdx_perm hi).symm

/-- A wrong password that is let through is under way. -/
theorem Console.Roomy.check (h : s.Roomy c) (hunlocked : s.failures.lockUntil ≤ s.now)
    (hroom : s.failures.count + s.calls.length < maxFailures)
    (hwrong : (c.compare password).1 = false) :
    Console.Roomy c { s with calls := s.calls ++ [.passed password] } where
  room := by
    rw [List.length_append, ← Nat.add_assoc]
    exact hroom
  accounted := by simpa [Call.isTested] using h.accounted
  unlocked _ := hunlocked
  wrong := by
    intro call hcall
    rcases List.mem_append.mp hcall with hold | hnew
    · exact h.wrong call hold
    · rw [List.mem_singleton.mp hnew]
      exact hwrong

theorem Console.Roomy.test (h : s.Roomy c) (hcall : s.calls[i]? = some (.passed password)) :
    Console.Roomy c { s with
      calls := s.calls.set i (.tested false usedBootstrap)
      tested := s.tested + 1 } where
  room := by simpa using h.room
  accounted := by
    have haccounted := h.accounted
    have hcount := countP_set_tested false usedBootstrap hcall
    simp only [hcount, haccounted, Nat.add_assoc]
  unlocked _ := h.unlocked (List.ne_nil_of_mem (List.mem_of_getElem? hcall))
  wrong := by
    intro call hmem
    rcases List.mem_or_eq_of_mem_set hmem with hold | rfl
    · exact h.wrong call hold
    · rfl

/-- The failure that begins a lockout is that of the only call under way. -/
theorem Console.Roomy.record (h : s.Roomy c)
    (hcall : s.calls[i]? = some (.tested false usedBootstrap)) :
    Console.Roomy c { s with
      failures := s.failures.recordFailure s.now
      calls := s.calls.eraseIdx i
      tested := if s.failures.Locks then 0 else s.tested } := by
  have hperm := perm_eraseIdx hcall
  have hlength : s.calls.length = (s.calls.eraseIdx i).length + 1 := by
    simpa using hperm.length_eq
  have hcount : s.calls.countP Call.isTested =
      (s.calls.eraseIdx i).countP Call.isTested + 1 := by
    rw [hperm.countP_eq, List.countP_cons_of_pos rfl]
  have hwrong : ∀ call ∈ s.calls.eraseIdx i, call.Wrong c :=
    fun call hmem => h.wrong call (List.mem_of_mem_eraseIdx hmem)
  have hroom := h.room
  have haccounted := h.accounted
  unfold Failures.recordFailure
  split_ifs with hlocks
  · have hempty : s.calls.eraseIdx i = [] := by
      unfold Failures.Locks at hlocks
      rw [← List.length_eq_zero_iff]
      omega
    rw [hempty]
    exact ⟨Nat.zero_le _, rfl, absurd rfl, nofun⟩
  · refine ⟨?_, ?_, fun _ => ?_, hwrong⟩
    · simp only
      omega
    · simp only
      omega
    · exact h.unlocked (List.ne_nil_of_mem (List.mem_of_getElem? hcall))

/-- Every part that is taken with room leaves room. -/
theorem Console.Roomy.step (h : s.Roomy c) (hroom : Room s m)
    (hwrong : ∀ password, m.part = .check password → (c.compare password).1 = false) :
    (s.step c m).Roomy c := by
  have hwaits := h.waits m.elapsed
  unfold Console.step Console.takes
  split
  · rename_i password hpart
    split_ifs with hlocked
    · exact hwaits
    · have hunlocked := lockedOut_eq_zero.mp (not_ne_iff.mp hlocked)
      exact hwaits.check hunlocked (hroom password hpart (not_ne_iff.mp hlocked))
        (hwrong password hpart)
  · rename_i i hpart
    split
    · rename_i password hcall
      have hfound : (c.compare password).1 = false :=
        h.wrong (.passed password) (List.mem_of_getElem? hcall)
      simp only [hfound, Bool.false_eq_true, if_false]
      exact hwaits.test hcall
    · exact hwaits
  · rename_i i hpart
    split
    · rename_i ok usedBootstrap hcall
      obtain rfl : ok = false := h.wrong (.tested ok usedBootstrap) (List.mem_of_getElem? hcall)
      have hrecord := hwaits.record hcall
      simpa [settle] using hrecord
    · exact hwaits

theorem Console.Roomy.bounded (h : s.Roomy c) : Bounded s m := by
  intro i password hpart hcall
  have hmem := List.mem_of_getElem? hcall
  constructor
  · exact lockedOut_eq_zero.mpr ((h.waits m.elapsed).unlocked (List.ne_nil_of_mem hmem))
  · have huntested : s.calls.countP Call.isTested < s.calls.length := by
      refine lt_of_le_of_ne List.countP_le_length fun hall => ?_
      cases List.countP_eq_length.mp hall _ hmem
    have hroom := h.room
    have haccounted := h.accounted
    omega

/-! ## Without room -/

theorem exists_passed (h : 0 < calls.countP (!·.isTested)) :
    ∃ (i : ℕ) (password : String), calls[i]? = some (.passed password) := by
  obtain ⟨call, hmem, huntested⟩ := List.countP_pos_iff.mp h
  obtain ⟨i, hi⟩ := List.getElem?_of_mem hmem
  cases call with
  | passed password => exact ⟨i, password, hi⟩
  | tested ok usedBootstrap => cases huntested

/-- Where more passwords are under way than may be tested, the threads may go on to test them. -/
theorem exceeds (hwrong : ∀ call ∈ s.calls, call.Wrong c) (htested : s.tested ≤ maxFailures)
    (hmany : maxFailures < s.tested + s.calls.countP (!·.isTested)) :
    ∃ later : List Move, (∀ m ∈ later, m.GoesOn) ∧
      ¬ Run.Each (Console.step c) Bounded s later := by
  induction hleft : s.calls.countP (!·.isTested) generalizing s with
  | zero => omega
  | succ left ih =>
      obtain ⟨i, password, hcall⟩ := exists_passed (show 0 < s.calls.countP (!·.isTested) by omega)
      have hgoesOn : ∀ later : List Move, (∀ m ∈ later, m.GoesOn) →
          ∀ m ∈ (⟨0, .test i⟩ : Move) :: later, m.GoesOn :=
        fun later hlater => List.forall_mem_cons.mpr ⟨nofun, hlater⟩
      by_cases hlast : s.tested = maxFailures
      · refine ⟨[⟨0, .test i⟩], hgoesOn [] nofun, fun heach => ?_⟩
        exact absurd (heach.1 i password rfl hcall).2 (by omega)
      · have hfound : (c.compare password).1 = false :=
          hwrong (.passed password) (List.mem_of_getElem? hcall)
        have hnext : Console.step c s ⟨0, .test i⟩ = { s.waits 0 with
            calls := s.calls.set i (.tested false (c.compare password).2)
            tested := s.tested + 1 } := by
          have hcall' : (s.waits 0).calls[i]? = some (.passed password) := hcall
          unfold Console.step Console.takes
          simp only [hcall', hfound, Bool.false_eq_true, if_false]
          rfl
        have hwrong' : ∀ call ∈ s.calls.set i (.tested false (c.compare password).2),
            call.Wrong c := by
          intro call hmem
          rcases List.mem_or_eq_of_mem_set hmem with hold | rfl
          · exact hwrong call hold
          · rfl
        have hleft' : (s.calls.set i (.tested false (c.compare password).2)).countP
            (!·.isTested) = left := by
          obtain ⟨hi, hget⟩ := List.getElem?_eq_some_iff.mp hcall
          rw [List.countP_set hi, hget, hleft]
          rfl
        obtain ⟨later, hlater, hexceeds⟩ := ih (s := Console.step c s ⟨0, .test i⟩)
          (by rw [hnext]; exact hwrong') (by rw [hnext]; simp only; omega)
          (by rw [hnext]; simp only; omega) (by rw [hnext]; exact hleft')
        exact ⟨⟨0, .test i⟩ :: later, hgoesOn later hlater, fun heach => hexceeds heach.2⟩

/-- A call that is let through without room can be tested too many. -/
theorem exceeds_of_not_room (h : s.Roomy c) (hroom : ¬ Room s m)
    (hwrong : ∀ password, m.part = .check password → (c.compare password).1 = false) :
    ∃ later : List Move, (∀ m ∈ later, m.GoesOn) ∧
      ¬ Run.Each (Console.step c) Bounded (s.step c m) later := by
  unfold Room at hroom
  push Not at hroom
  obtain ⟨password, hpart, hunlocked, hfull⟩ := hroom
  have hnext : s.step c m =
      { s.waits m.elapsed with calls := s.calls ++ [.passed password] } := by
    unfold Console.step Console.takes
    rw [hpart]
    exact if_neg (not_ne_iff.mpr hunlocked)
  have haccounted := h.accounted
  have hlength := List.length_eq_countP_add_countP Call.isTested (l := s.calls)
  rw [hnext]
  refine exceeds ?_ ?_ ?_
  · intro call hmem
    rcases List.mem_append.mp hmem with hold | hnew
    · exact h.wrong call hold
    · rw [List.mem_singleton.mp hnew]
      exact hwrong password hpart
  · have hroom := h.room
    change s.tested ≤ maxFailures
    omega
  · change maxFailures < s.tested + (s.calls ++ [Call.passed password]).countP (!·.isTested)
    rw [List.countP_append]
    simp [Call.isTested] at hlength ⊢
    omega

/-! ## Every order of steps -/

/-- The passwords of the calls are wrong. -/
def Move.Guesses (c : Credentials) (m : Move) : Prop :=
  ∀ password, m.part = .check password → (c.compare password).1 = false

theorem each_bounded (hs : s.Roomy c) (hwrong : ∀ m ∈ moves, m.Guesses c)
    (hroom : Run.Each (Console.step c) Room s moves) :
    Run.Each (Console.step c) Bounded s moves :=
  ((Run.each_of_mem hwrong).and hroom).mono hs fun _ _ hs h => ⟨hs.step h.2 h.1, hs.bounded⟩

theorem Move.GoesOn.room (h : m.GoesOn) : Room s m :=
  fun password hpart => absurd hpart (h password)

theorem each_room_of_goesOn (h : ∀ m ∈ later, m.GoesOn) : Run.Each (Console.step c) Room s later :=
  (Run.each_of_mem h).mono (I := fun _ => True) trivial fun _ _ _ h => ⟨trivial, h.room⟩

theorem Move.GoesOn.guesses (h : m.GoesOn) : m.Guesses c :=
  fun password hpart => absurd hpart (h password)

/-- A run that stays within the bound however its calls go on leaves room at every step. -/
theorem each_room (hs : s.Roomy c) (hwrong : ∀ m ∈ moves, m.Guesses c)
    (hbounded : ∀ n later, (∀ m ∈ later, m.GoesOn) →
      Run.Each (Console.step c) Bounded s (moves.take n ++ later)) :
    Run.Each (Console.step c) Room s moves := by
  induction moves generalizing s with
  | nil => trivial
  | cons m moves ih =>
      obtain ⟨hguesses, hrest⟩ := List.forall_mem_cons.mp hwrong
      have hroom : Room s m := by
        by_contra hroom
        obtain ⟨later, hlater, hexceeds⟩ := exceeds_of_not_room hs hroom hguesses
        exact hexceeds (hbounded 1 later hlater).2
      exact ⟨hroom, ih (hs.step hroom hguesses) hrest fun n later hlater =>
        (hbounded (n + 1) later hlater).2⟩

/-- Where threads that all guess wrong go on in any order, at most five passwords are tested from one
lockout to the next, and none while one is in force, exactly where every call is let through with
room. -/
theorem lockout_bounds_iff (c : Credentials) (now : ℚ) (moves : List Move)
    (hwrong : ∀ m ∈ moves, m.Guesses c) :
    (∀ n later, (∀ m ∈ later, m.GoesOn) →
        Run.Each (Console.step c) Bounded { now := now } (moves.take n ++ later)) ↔
      Run.Each (Console.step c) Room { now := now } moves := by
  constructor
  · exact each_room (.start now) hwrong
  · intro hroom n later hlater
    refine each_bounded (.start now) (fun m hm => ?_)
      (Run.each_append.mpr ⟨hroom.take n, each_room_of_goesOn hlater⟩)
    rcases List.mem_append.mp hm with hm | hm
    · exact hwrong m (List.mem_of_mem_take hm)
    · exact (hlater m hm).guesses

/-- A password that is stored as its own bytes. -/
def storedPlain (password : String) : Credentials :=
  ⟨fun password _ _ => password.toUTF8.toList, none, some ⟨password.toUTF8.toList, [], 1⟩⟩

theorem guess_guesses (elapsed : ℚ≥0) :
    Move.Guesses (storedPlain "correct") ⟨elapsed, .check "guess"⟩ := by
  rintro _ ⟨⟩
  decide +kernel

theorem lockout_bounds_iff_threeGuesses : (∀ n later, (∀ m ∈ later, m.GoesOn) →
      Run.Each (Console.step (storedPlain "correct")) Bounded { now := 0 }
        ((List.replicate 3 (⟨0, .check "guess"⟩ : Move)).take n ++ later)) ↔
    Run.Each (Console.step (storedPlain "correct")) Room { now := 0 }
      (List.replicate 3 ⟨0, .check "guess"⟩) :=
  lockout_bounds_iff (storedPlain "correct") 0 (List.replicate 3 ⟨0, .check "guess"⟩)
    fun _ hm => List.eq_of_mem_replicate hm ▸ guess_guesses 0

/-- Six threads that are all let through before the first has failed test six passwords. -/
theorem lockout_exceeded : ¬ ∀ (c : Credentials) (now : ℚ) (moves : List Move),
    (∀ m ∈ moves, m.Guesses c) → Run.Each (Console.step c) Bounded { now := now } moves := by
  intro h
  have hguesses : ∀ m ∈ List.replicate 6 (⟨0, .check "guess"⟩ : Move) ++
      (List.range 6).map fun i => ⟨0, .test i⟩, m.Guesses (storedPlain "correct") := by
    intro m hm
    rcases List.mem_append.mp hm with hm | hm
    · exact List.eq_of_mem_replicate hm ▸ guess_guesses 0
    · obtain ⟨i, -, rfl⟩ := List.mem_map.mp hm
      exact nofun
  have hchecked := (Run.each_append.mp (h (storedPlain "correct") 0 _ hguesses)).2
  have hsixth := hchecked.2.2.2.2.2.1 5 "guess" rfl (by decide +kernel)
  revert hsixth
  decide +kernel

end PcoMirror.AdminAuth
