/-
# The locks of a round of health checks

`runChecks` in `pkg/healthcheck/healthcheck.go` holds the mutex of the health checker for reading
while it starts a goroutine for each check, and then waits for all of them.  A goroutine takes the
mutex for writing to count a failure, to set the flag of a check and to clear both, and for reading
while it calls `ReviveAction`; it calls `FailedAction` without it.

`lockStep` is the system with the mutex.  A call of `runCheck` or of an action takes as long as it
takes: its return is a step of its own.  What is done under `Lock` takes effect when the goroutine
leaves; meanwhile nobody else is inside.

* `lockRun_health` : whatever the order in which the goroutines go on, the counters, flags and
  calls are those of a run of `healthStep`;
* `revive_blocks` : while one `ReviveAction` does not return, nothing is counted, no flag is set
  and no other round begins;
* `round_progress` : a round hangs in a call only, never in the mutex.
-/
import Border.HealthCheck
import Border.RWMutex

namespace Border

open GoSync Transition

/-! ## Goroutines and their sections -/

/-- The section that the goroutine of a check comes to next. -/
def HealthChecker.next (h : HealthChecker) (i : ℕ) : Option CheckSection :=
  match h.phase i with
  | .ready =>
    match h.outcome i with
    | some .failure => some .countFailure
    | some .success => some .revive
    | none => none
  | .failing => some .failedAction
  | .marking => some .markFailed
  | .clearing => some .clearFailures
  | .done => none

/-- The sections under `Lock`. -/
def CheckSection.writes : CheckSection → Bool
  | .countFailure | .markFailed | .clearFailures => true
  | .failedAction | .revive => false

/-- Where `runChecks` stands. -/
inductive RunPhase
  /-- Between two rounds. -/
  | idle
  /-- In the loop, with so many goroutines started. -/
  | spawning (started : ℕ)
  /-- In `finished.Wait`. -/
  | waiting
  deriving DecidableEq

/-- The health checker with its mutex.  `none` is `runChecks` itself, and `some i` the goroutine of
check `i`. -/
structure Locked where
  checker : HealthChecker
  mutex : RWMutex (Option ℕ)
  main : RunPhase
  /-- The goroutines whose `runCheck` has returned in this round. -/
  returned : Finset ℕ

def Locked.start (h : HealthChecker) : Locked := ⟨h, .free, .idle, ∅⟩

/-- The number of goroutines that have been started. -/
def RunPhase.started (checks : ℕ) : RunPhase → ℕ
  | .idle => 0
  | .spawning k => k
  | .waiting => checks

/-- What can happen. -/
inductive LockAct
  /-- `RLock`, and a round begins. -/
  | begin (outcome : ℕ → CheckOutcome)
  | spawn
  /-- `RUnlock` after the loop. -/
  | spawned
  /-- `finished.Wait` returns. -/
  | finish
  /-- `runCheck` returns. -/
  | checked (i : ℕ)
  | rlock (i : ℕ)
  | announce (i : ℕ)
  | acquire (i : ℕ)
  /-- The goroutine leaves a section, and the section takes effect; `ReviveAction` and
  `FailedAction`, if they are called there, have returned. -/
  | leave (i : ℕ) (sec : CheckSection)

/-- What the health checker sees of a step. -/
def LockAct.health : LockAct → Option HealthAct
  | .begin outcome => some (.startRound outcome)
  | .leave i sec => some (.section i sec)
  | _ => none

/-- Leave a section: the lock that the section is under is given back. -/
def CheckSection.release (sec : CheckSection) (i : ℕ) (m : RWMutex (Option ℕ)) :
    Option (RWMutex (Option ℕ)) :=
  match sec with
  | .failedAction => some m
  | .revive => m.runlock (some i)
  | _ => m.unlock (some i)

/-- Execute one step. -/
def lockStep (s : Locked) : LockAct → Option Locked
  | .begin outcome =>
    if s.main = .idle then
      (healthStep s.checker (.startRound outcome)).bind fun h =>
        (s.mutex.rlock none).map fun m => ⟨h, m, .spawning 0, ∅⟩
    else none
  | .spawn =>
    match s.main with
    | .spawning k =>
      if k < s.checker.checks.length then some { s with main := .spawning (k + 1) } else none
    | _ => none
  | .spawned =>
    if s.main = .spawning s.checker.checks.length then
      (s.mutex.runlock none).map fun m => { s with mutex := m, main := .waiting }
    else none
  | .finish => if s.main = .waiting ∧ s.checker.Idle then some { s with main := .idle } else none
  | .checked i =>
    if i < s.main.started s.checker.checks.length ∧ i ∉ s.returned then
      some { s with returned := insert i s.returned }
    else none
  | .rlock i =>
    if i < s.main.started s.checker.checks.length ∧ i ∈ s.returned ∧
        s.checker.next i = some .revive then
      (s.mutex.rlock (some i)).map fun m => { s with mutex := m }
    else none
  | .announce i =>
    if i < s.main.started s.checker.checks.length ∧ i ∈ s.returned ∧
        (s.checker.next i).any CheckSection.writes then
      (s.mutex.announce (some i)).map fun m => { s with mutex := m }
    else none
  | .acquire i => (s.mutex.acquire (some i)).map fun m => { s with mutex := m }
  | .leave i sec =>
    if i < s.main.started s.checker.checks.length then
      (s.checker.runSection i sec).bind fun h =>
        (sec.release i s.mutex).map fun m => { s with checker := h, mutex := m }
    else none

/-! ## What a step can do -/

theorem next_of_runSection {h h' : HealthChecker} {i : ℕ} {sec : CheckSection}
    (hs : h.runSection i sec = some h') : h.next i = some sec := by
  cases sec <;>
    simp only [HealthChecker.runSection, Option.ite_none_right_eq_some] at hs
  · rw [HealthChecker.next, hs.1.1]
    simp only [hs.1.2]
  · rw [HealthChecker.next, hs.1]
  · rw [HealthChecker.next, hs.1]
  · rw [HealthChecker.next, hs.1.1]
    simp only [hs.1.2]
  · rw [HealthChecker.next, hs.1]

/-- The section that comes next can be run. -/
theorem exists_runSection {h : HealthChecker} {i : ℕ} {sec : CheckSection}
    (hnext : h.next i = some sec) : ∃ h', h.runSection i sec = some h' := by
  unfold HealthChecker.next at hnext
  split at hnext
  case h_1 hphase =>
    split at hnext
    case h_1 houtcome =>
      cases hnext
      exact ⟨_, if_pos ⟨hphase, houtcome⟩⟩
    case h_2 houtcome =>
      cases hnext
      exact ⟨_, if_pos ⟨hphase, houtcome⟩⟩
    case h_3 => cases hnext
  case h_2 hphase =>
    cases hnext
    exact ⟨_, if_pos hphase⟩
  case h_3 hphase =>
    cases hnext
    exact ⟨_, if_pos hphase⟩
  case h_4 hphase =>
    cases hnext
    exact ⟨_, if_pos hphase⟩
  case h_5 => cases hnext

/-- A section of one goroutine does not change what another one comes to next. -/
theorem next_runSection_ne {h h' : HealthChecker} {i j : ℕ} {sec : CheckSection}
    (hs : h.runSection i sec = some h') (hij : j ≠ i) : h'.next j = h.next j := by
  have houtcome : h'.outcome j = h.outcome j := by
    rw [HealthChecker.outcome, (runSection_fixed hs).2, HealthChecker.outcome]
  rw [HealthChecker.next, phase_runSection_ne hs hij, houtcome, HealthChecker.next]

/-- The steps, with the conditions under which they are taken. -/
inductive LockMove (s : Locked) : LockAct → Locked → Prop
  | begin {outcome : ℕ → CheckOutcome} {h : HealthChecker} {m : RWMutex (Option ℕ)}
      (hmain : s.main = .idle) (hround : healthStep s.checker (.startRound outcome) = some h)
      (hm : s.mutex.rlock none = some m) : LockMove s (.begin outcome) ⟨h, m, .spawning 0, ∅⟩
  | spawn {k : ℕ} (hmain : s.main = .spawning k) (hk : k < s.checker.checks.length) :
      LockMove s .spawn { s with main := .spawning (k + 1) }
  | spawned {m : RWMutex (Option ℕ)} (hmain : s.main = .spawning s.checker.checks.length)
      (hm : s.mutex.runlock none = some m) :
      LockMove s .spawned { s with mutex := m, main := .waiting }
  | finish (hmain : s.main = .waiting) (hidle : s.checker.Idle) :
      LockMove s .finish { s with main := .idle }
  | checked {i : ℕ} (hi : i < s.main.started s.checker.checks.length) (hcheck : i ∉ s.returned) :
      LockMove s (.checked i) { s with returned := insert i s.returned }
  | rlock {i : ℕ} {m : RWMutex (Option ℕ)} (hi : i < s.main.started s.checker.checks.length)
      (hnext : s.checker.next i = some .revive) (hm : s.mutex.rlock (some i) = some m) :
      LockMove s (.rlock i) { s with mutex := m }
  | announce {i : ℕ} {sec : CheckSection} {m : RWMutex (Option ℕ)}
      (hi : i < s.main.started s.checker.checks.length) (hnext : s.checker.next i = some sec)
      (hwrites : sec.writes = true) (hm : s.mutex.announce (some i) = some m) :
      LockMove s (.announce i) { s with mutex := m }
  | acquire {i : ℕ} {m : RWMutex (Option ℕ)} (hm : s.mutex.acquire (some i) = some m) :
      LockMove s (.acquire i) { s with mutex := m }
  | leave {i : ℕ} {sec : CheckSection} {h : HealthChecker} {m : RWMutex (Option ℕ)}
      (hi : i < s.main.started s.checker.checks.length)
      (hs : s.checker.runSection i sec = some h) (hm : sec.release i s.mutex = some m) :
      LockMove s (.leave i sec) { s with checker := h, mutex := m }

theorem lockStep_move {s s' : Locked} {a : LockAct} (h : lockStep s a = some s') :
    LockMove s a s' := by
  cases a with
  | begin outcome =>
    simp only [lockStep, Option.ite_none_right_eq_some, Option.bind_eq_some_iff,
      Option.map_eq_some_iff] at h
    obtain ⟨hmain, checker, hround, m, hm, rfl⟩ := h
    exact .begin hmain hround hm
  | spawn =>
    rw [lockStep] at h
    split at h
    next k hmain =>
      rw [Option.ite_none_right_eq_some] at h
      obtain ⟨hk, heq⟩ := h
      cases heq
      exact .spawn hmain hk
    next => cases h
  | spawned =>
    simp only [lockStep, Option.ite_none_right_eq_some, Option.map_eq_some_iff] at h
    obtain ⟨hmain, m, hm, rfl⟩ := h
    exact .spawned hmain hm
  | finish =>
    rw [lockStep, Option.ite_none_right_eq_some] at h
    obtain ⟨⟨hmain, hidle⟩, heq⟩ := h
    cases heq
    exact .finish hmain hidle
  | checked i =>
    rw [lockStep, Option.ite_none_right_eq_some] at h
    obtain ⟨⟨hi, hcheck⟩, heq⟩ := h
    cases heq
    exact .checked hi hcheck
  | rlock i =>
    simp only [lockStep, Option.ite_none_right_eq_some, Option.map_eq_some_iff] at h
    obtain ⟨⟨hi, -, hnext⟩, m, hm, rfl⟩ := h
    exact .rlock hi hnext hm
  | announce i =>
    simp only [lockStep, Option.ite_none_right_eq_some, Option.map_eq_some_iff] at h
    obtain ⟨⟨hi, -, hnext⟩, m, hm, rfl⟩ := h
    obtain ⟨sec, hsec, hwrites⟩ := (Option.any_eq_true _ _).mp hnext
    exact .announce hi hsec hwrites hm
  | acquire i =>
    simp only [lockStep, Option.map_eq_some_iff] at h
    obtain ⟨m, hm, rfl⟩ := h
    exact .acquire hm
  | leave i sec =>
    simp only [lockStep, Option.ite_none_right_eq_some, Option.bind_eq_some_iff,
      Option.map_eq_some_iff] at h
    obtain ⟨hi, checker, hs, m, hm, rfl⟩ := h
    exact .leave hi hs hm

/-! ## Who is inside -/

/-- The goroutine of check `i` has been started and comes to a section under `Lock` next. -/
def Locked.WritesNext (s : Locked) (i : ℕ) : Prop :=
  i < s.main.started s.checker.checks.length ∧
    ∃ sec, s.checker.next i = some sec ∧ sec.writes = true

/-- The goroutine of check `i` has been started and comes to `ReviveAction` next. -/
def Locked.RevivesNext (s : Locked) (i : ℕ) : Prop :=
  i < s.main.started s.checker.checks.length ∧ s.checker.next i = some .revive

/-- What holds in every state: a writer is alone, and whoever has the mutex or waits for it is at
the section it needs it for. -/
structure Locked.Sound (s : Locked) : Prop where
  exclusive : s.mutex.Exclusive
  main : none ∈ s.mutex.readers ↔ ∃ k, s.main = .spawning k
  started : s.main.started s.checker.checks.length ≤ s.checker.checks.length
  idle : s.main = .idle → s.checker.Idle
  readers : ∀ i, some i ∈ s.mutex.readers → s.RevivesNext i
  pending : ∀ t, s.mutex.pending = some t → ∃ i, t = some i ∧ s.WritesNext i
  writer : ∀ t, s.mutex.writer = some t → ∃ i, t = some i ∧ s.WritesNext i

section Sound

variable {s s' : Locked} {i j : ℕ}

theorem Locked.WritesNext.of_le (h : s.WritesNext i)
    (hnext : s'.checker.next i = s.checker.next i)
    (hle : s.main.started s.checker.checks.length ≤ s'.main.started s'.checker.checks.length) :
    s'.WritesNext i :=
  ⟨lt_of_lt_of_le h.1 hle, hnext ▸ h.2⟩

theorem Locked.RevivesNext.of_le (h : s.RevivesNext i)
    (hnext : s'.checker.next i = s.checker.next i)
    (hle : s.main.started s.checker.checks.length ≤ s'.main.started s'.checker.checks.length) :
    s'.RevivesNext i :=
  ⟨lt_of_lt_of_le h.1 hle, hnext.trans h.2⟩

/-- Nobody comes to a section under `Lock` and to `ReviveAction` at once. -/
theorem Locked.WritesNext.next_ne (h : s.WritesNext i) {sec : CheckSection}
    (hwrites : sec.writes = false) : s.checker.next i ≠ some sec := by
  obtain ⟨-, sec', hnext, hwrites'⟩ := h
  intro heq
  obtain rfl := Option.some.inj (hnext.symm.trans heq)
  rw [hwrites] at hwrites'
  cases hwrites'

/-- A goroutine that is done comes to nothing. -/
theorem next_of_done {h : HealthChecker} (hphase : h.phase i = .done) : h.next i = none := by
  rw [HealthChecker.next, hphase]

theorem sound_start {h : HealthChecker} (hidle : h.Idle) : (Locked.start h).Sound where
  exclusive := RWMutex.exclusive_free
  main := ⟨fun hmem => absurd hmem (Finset.notMem_empty _), fun ⟨_, hk⟩ => by cases hk⟩
  started := Nat.zero_le _
  idle := fun _ => hidle
  readers := fun _ hmem => absurd hmem (Finset.notMem_empty _)
  pending := fun _ ht => by cases ht
  writer := fun _ ht => by cases ht

theorem release_of_writes {sec : CheckSection} (hwrites : sec.writes = true)
    (m : RWMutex (Option ℕ)) : sec.release i m = m.unlock (some i) := by
  cases sec with
  | countFailure | markFailed | clearFailures => rfl
  | failedAction | revive => cases hwrites

/-- A section that is not under `Lock` leaves those who write or wait to write as they are, and its
own goroutine does not read any more. -/
theorem Locked.Sound.release_other (hs : s.Sound) {sec : CheckSection} {m : RWMutex (Option ℕ)}
    (hwrites : sec.writes = false) (hnext : s.checker.next i = some sec)
    (hm : sec.release i s.mutex = some m) :
    m.Exclusive ∧ m.pending = s.mutex.pending ∧ m.writer = s.mutex.writer ∧
      (none ∈ m.readers ↔ none ∈ s.mutex.readers) ∧
      ∀ j, some j ∈ m.readers → some j ∈ s.mutex.readers ∧ j ≠ i := by
  cases sec with
  | countFailure | markFailed | clearFailures => cases hwrites
  | failedAction =>
    cases hm
    refine ⟨hs.exclusive, rfl, rfl, Iff.rfl, fun j hj => ⟨hj, ?_⟩⟩
    rintro rfl
    cases (hs.readers j hj).2.symm.trans hnext
  | revive =>
    have hexclusive : m.Exclusive := hs.exclusive.runlock hm
    obtain ⟨-, rfl⟩ := RWMutex.runlock_eq_some hm
    refine ⟨hexclusive, rfl, rfl, ?_, fun j hj => ?_⟩
    · rw [Finset.mem_erase]
      exact and_iff_right (Option.some_ne_none i).symm
    · obtain ⟨hne, hmem⟩ := Finset.mem_erase.mp hj
      exact ⟨hmem, fun heq => hne (congrArg some heq)⟩

/-- A section gives back the lock of its own goroutine, and nothing else changes hands. -/
theorem Locked.Sound.leave (hs : s.Sound) {sec : CheckSection} {h : HealthChecker}
    {m : RWMutex (Option ℕ)} (hi : i < s.main.started s.checker.checks.length)
    (hsec : s.checker.runSection i sec = some h) (hm : sec.release i s.mutex = some m) :
    Locked.Sound { s with checker := h, mutex := m } := by
  have hchecks : h.checks = s.checker.checks := (runSection_fixed hsec).1
  have hstarted : s.main.started h.checks.length ≤ h.checks.length := by
    rw [hchecks]
    exact hs.started
  have hmain : s.main ≠ .idle := by
    intro heq
    rw [heq] at hi
    exact absurd hi (Nat.not_lt_zero i)
  by_cases hw : sec.writes = true
  · -- the goroutine was the writer, so nobody else was inside
    rw [release_of_writes hw] at hm
    obtain ⟨hwriter, rfl⟩ := RWMutex.unlock_eq_some hm
    obtain ⟨hreaders, hpending⟩ := hs.exclusive (by rw [hwriter]; exact Option.some_ne_none _)
    refine ⟨RWMutex.Exclusive.unlock hm, hs.main, hstarted, fun h => absurd h hmain,
      fun j hj => ?_, fun t ht => ?_, fun t ht => by cases ht⟩
    · have hmem : some j ∈ s.mutex.readers := hj
      rw [hreaders] at hmem
      exact absurd hmem (Finset.notMem_empty _)
    · cases hpending.symm.trans ht
  · -- what the others come to next has not changed
    rw [Bool.not_eq_true] at hw
    have hnext : s.checker.next i = some sec := next_of_runSection hsec
    have hle : s.main.started s.checker.checks.length ≤ s.main.started h.checks.length := by
      rw [hchecks]
    have hwrites : ∀ j, s.WritesNext j →
        Locked.WritesNext { s with checker := h, mutex := m } j := by
      intro j hj
      have hji : j ≠ i := by
        rintro rfl
        exact hj.next_ne hw hnext
      exact hj.of_le (next_runSection_ne hsec hji) hle
    obtain ⟨hexclusive, hpending, hwriter, hnone, hreaders⟩ := hs.release_other hw hnext hm
    refine ⟨hexclusive, hnone.trans hs.main, hstarted, fun h => absurd h hmain, fun j hj => ?_,
      fun t ht => ?_, fun t ht => ?_⟩
    · obtain ⟨hmem, hji⟩ := hreaders j hj
      exact (hs.readers j hmem).of_le (next_runSection_ne hsec hji) hle
    · obtain ⟨j, rfl, hj⟩ := hs.pending t (hpending.symm.trans ht)
      exact ⟨j, rfl, hwrites j hj⟩
    · obtain ⟨j, rfl, hj⟩ := hs.writer t (hwriter.symm.trans ht)
      exact ⟨j, rfl, hwrites j hj⟩

/-- Between rounds, and when all goroutines are done, no goroutine has the mutex or waits for
it. -/
theorem Locked.Sound.no_goroutine (hs : s.Sound) (hidle : s.checker.Idle) :
    (∀ i, some i ∉ s.mutex.readers) ∧ s.mutex.pending = none ∧ s.mutex.writer = none := by
  have hnext : ∀ i, i < s.main.started s.checker.checks.length → s.checker.next i = none :=
    fun i hi => next_of_done (hidle i (lt_of_lt_of_le hi hs.started))
  refine ⟨fun i hi => ?_, ?_, ?_⟩
  · obtain ⟨hlt, hrevive⟩ := hs.readers i hi
    rw [hnext i hlt] at hrevive
    cases hrevive
  · by_contra hne
    obtain ⟨t, ht⟩ := Option.ne_none_iff_exists'.mp hne
    obtain ⟨i, rfl, hlt, sec, hsec, -⟩ := hs.pending t ht
    rw [hnext i hlt] at hsec
    cases hsec
  · by_contra hne
    obtain ⟨t, ht⟩ := Option.ne_none_iff_exists'.mp hne
    obtain ⟨i, rfl, hlt, sec, hsec, -⟩ := hs.writer t ht
    rw [hnext i hlt] at hsec
    cases hsec

/-- A round begins. -/
theorem Locked.Sound.begin (hs : s.Sound) {h : HealthChecker} {m : RWMutex (Option ℕ)}
    (hmain : s.main = .idle)
    (hm : s.mutex.rlock none = some m) : Locked.Sound ⟨h, m, .spawning 0, ∅⟩ := by
  obtain ⟨hpending, hwriter, -, rfl⟩ := RWMutex.rlock_eq_some hm
  refine ⟨RWMutex.Exclusive.rlock hm, ⟨fun _ => ⟨0, rfl⟩, fun _ => Finset.mem_insert_self _ _⟩,
    Nat.zero_le _, (fun heq => by cases heq), fun i hi => ?_, fun t ht => ?_, fun t ht => ?_⟩
  · have hmem : some i ∈ s.mutex.readers := by
      rcases Finset.mem_insert.mp hi with heq | hmem
      · cases heq
      · exact hmem
    exact absurd hmem ((hs.no_goroutine (hs.idle hmain)).1 i)
  · cases hpending.symm.trans ht
  · cases hwriter.symm.trans ht

/-- `runChecks` goes on in its loop: goroutines are started, and none is stopped. -/
theorem Locked.Sound.loop (hs : s.Sound) {m : RWMutex (Option ℕ)} {main : RunPhase}
    (hexclusive : m.Exclusive) (hreaders : ∀ i, some i ∈ m.readers → some i ∈ s.mutex.readers)
    (hpending : m.pending = s.mutex.pending) (hwriter : m.writer = s.mutex.writer)
    (hnone : none ∈ m.readers ↔ ∃ k, main = .spawning k) (hmain : main ≠ .idle)
    (hle : s.main.started s.checker.checks.length ≤ main.started s.checker.checks.length)
    (hstarted : main.started s.checker.checks.length ≤ s.checker.checks.length) :
    Locked.Sound { s with mutex := m, main := main } := by
  refine ⟨hexclusive, hnone, hstarted, fun heq => absurd heq hmain,
    fun i hi => (hs.readers i (hreaders i hi)).of_le rfl hle, fun t ht => ?_, fun t ht => ?_⟩
  · obtain ⟨i, rfl, hi⟩ := hs.pending t (hpending.symm.trans ht)
    exact ⟨i, rfl, hi.of_le rfl hle⟩
  · obtain ⟨i, rfl, hi⟩ := hs.writer t (hwriter.symm.trans ht)
    exact ⟨i, rfl, hi.of_le rfl hle⟩

/-- **One step.** -/
theorem Locked.Sound.step (hs : s.Sound) {a : LockAct} (h : LockMove s a s') : s'.Sound := by
  cases h with
  | begin hmain hround hm => exact hs.begin hmain hm
  | @spawn k hmain hk =>
    refine hs.loop hs.exclusive (fun _ => id) rfl rfl
      ⟨fun _ => ⟨k + 1, rfl⟩, fun _ => hs.main.mpr ⟨k, hmain⟩⟩ RunPhase.noConfusion ?_ hk
    rw [hmain]
    exact Nat.le_succ k
  | spawned hmain hm =>
    have hexclusive := hs.exclusive.runlock hm
    obtain ⟨-, rfl⟩ := RWMutex.runlock_eq_some hm
    exact hs.loop hexclusive (fun _ hi => (Finset.mem_erase.mp hi).2) rfl rfl
      ⟨fun hmem => absurd rfl (Finset.mem_erase.mp hmem).1, fun ⟨_, hk⟩ => by cases hk⟩
      RunPhase.noConfusion hs.started le_rfl
  | finish hmain hidle =>
    obtain ⟨hreaders, hpending, hwriter⟩ := hs.no_goroutine hidle
    refine ⟨hs.exclusive, ⟨fun hmem => ?_, fun ⟨_, hk⟩ => by cases hk⟩, Nat.zero_le _,
      fun _ => hidle, fun i hi => absurd hi (hreaders i), fun t ht => ?_, fun t ht => ?_⟩
    · obtain ⟨k, hk⟩ := hs.main.mp hmem
      cases hmain.symm.trans hk
    · cases hpending.symm.trans ht
    · cases hwriter.symm.trans ht
  | checked =>
    obtain ⟨hexclusive, hmain, hstarted, hidle, hreaders, hpending, hwriter⟩ := hs
    exact ⟨hexclusive, hmain, hstarted, hidle, hreaders, hpending, hwriter⟩
  | @rlock i m hi hnext hm =>
    obtain ⟨hpending, hwriter, -, rfl⟩ := RWMutex.rlock_eq_some hm
    refine ⟨RWMutex.Exclusive.rlock hm, ⟨fun hmem => ?_, fun hk => ?_⟩, hs.started, hs.idle,
      fun j hj => ?_, fun t ht => ?_, fun t ht => ?_⟩
    · rcases Finset.mem_insert.mp hmem with heq | hmem
      · cases heq
      · exact hs.main.mp hmem
    · exact Finset.mem_insert_of_mem (hs.main.mpr hk)
    · rcases Finset.mem_insert.mp hj with heq | hmem
      · obtain rfl := Option.some.inj heq
        exact ⟨hi, hnext⟩
      · exact hs.readers j hmem
    · cases hpending.symm.trans ht
    · cases hwriter.symm.trans ht
  | @announce i sec m hi hnext hwrites hm =>
    obtain ⟨-, hwriter, rfl⟩ := RWMutex.announce_eq_some hm
    refine ⟨RWMutex.Exclusive.announce hm, hs.main, hs.started, hs.idle, hs.readers,
      fun t ht => ?_, fun t ht => ?_⟩
    · obtain rfl := Option.some.inj ht
      exact ⟨i, rfl, hi, sec, hnext, hwrites⟩
    · cases hwriter.symm.trans ht
  | @acquire i m hm =>
    obtain ⟨hpending, hreaders, rfl⟩ := RWMutex.acquire_eq_some hm
    refine ⟨RWMutex.Exclusive.acquire hm, ?_, hs.started, hs.idle,
      fun j hj => absurd hj (Finset.notMem_empty _), (fun t ht => by cases ht), fun t ht => ?_⟩
    · rw [← hs.main, hreaders]
    · obtain rfl := Option.some.inj ht
      exact hs.pending _ hpending
  | leave hi hsec hm => exact hs.leave hi hsec hm

theorem lockRun_sound {h : HealthChecker} (hidle : h.Idle) {as : List LockAct}
    (hrun : run lockStep (.start h) as = some s) : s.Sound :=
  run_invariant (fun _ _ _ hs h => hs.step (lockStep_move h)) (sound_start hidle) hrun

end Sound

/-- Every run with the mutex is a run of `healthStep`, where a section is a single step. -/
theorem lockRun_health {checks : List ℕ} {heap : ℕ → HealthCheck} {as : List LockAct} {s : Locked}
    (hrun : run lockStep (.start (.init checks heap)) as = some s) :
    run healthStep (.init checks heap) (as.filterMap LockAct.health) = some s.checker := by
  refine run_filterMap (f := Locked.checker) (I := Locked.Sound)
    (fun _ _ _ ht h => ht.step (lockStep_move h)) ?_ ?_ (sound_start fun _ _ => rfl) hrun
  · intro t a t' ht hstep b hb
    cases lockStep_move hstep with
    | begin hmain hround hm =>
      cases hb
      exact hround
    | leave hi hsec hm =>
      cases hb
      rw [healthStep, if_pos (lt_of_lt_of_le hi ht.started)]
      exact hsec
    | spawn | spawned | finish | checked | rlock | announce | acquire => cases hb
  · intro t a t' ht hstep hnone
    cases lockStep_move hstep with
    | begin | leave => cases hnone
    | spawn | spawned | finish | checked | rlock | announce | acquire => rfl

/-! ## A `ReviveAction` that does not return -/

section Blocked

variable {s s' t : Locked} {i : ℕ}

/-- What is not under `Lock` leaves the counters and the flags as they are. -/
theorem runSection_kept {h h' : HealthChecker} {sec : CheckSection}
    (hs : h.runSection i sec = some h') (hwrites : sec.writes = false) :
    h'.failures = h.failures ∧ h'.heap = h.heap := by
  cases sec with
  | countFailure | markFailed | clearFailures => cases hwrites
  | failedAction | revive =>
    simp only [HealthChecker.runSection, Option.ite_none_right_eq_some, Option.some.injEq] at hs
    obtain ⟨-, rfl⟩ := hs
    exact ⟨rfl, rfl⟩

/-- The goroutine of check `i` is inside for reading since the state `t`, and nothing has been
counted since then. -/
structure Locked.Blocked (i : ℕ) (t s : Locked) : Prop where
  sound : s.Sound
  inside : some i ∈ s.mutex.readers
  failures : s.checker.failures = t.checker.failures
  heap : s.checker.heap = t.checker.heap
  rounds : s.checker.rounds = t.checker.rounds

theorem Locked.Blocked.main (h : Locked.Blocked i t s) : s.main ≠ .idle := fun hmain =>
  (h.sound.no_goroutine (h.sound.idle hmain)).1 i h.inside

/-- Nobody else leaves a section under `Lock`, since nobody is in one. -/
theorem Locked.Blocked.leave (h : Locked.Blocked i t s) {j : ℕ} {sec : CheckSection}
    {checker : HealthChecker} {m : RWMutex (Option ℕ)} (hne : LockAct.leave j sec ≠ .leave i .revive)
    (hmove : LockMove s (.leave j sec) { s with checker := checker, mutex := m })
    (hsec : s.checker.runSection j sec = some checker) (hm : sec.release j s.mutex = some m) :
    Locked.Blocked i t { s with checker := checker, mutex := m } := by
  -- a writer that leaves was alone, and the reader is inside
  have hwrites : sec.writes = false := by
    rw [← Bool.not_eq_true]
    intro hw
    rw [release_of_writes hw] at hm
    have hwriter := (RWMutex.unlock_eq_some hm).1
    have hreaders := (h.sound.exclusive (by rw [hwriter]; exact Option.some_ne_none _)).1
    exact absurd (hreaders ▸ h.inside) (Finset.notMem_empty _)
  have hji : j ≠ i := by
    rintro rfl
    obtain rfl := Option.some.inj
      ((next_of_runSection hsec).symm.trans (h.sound.readers j h.inside).2)
    exact hne rfl
  obtain ⟨hfailures, hheap⟩ := runSection_kept hsec hwrites
  refine ⟨h.sound.step hmove, ?_, hfailures.trans h.failures, hheap.trans h.heap,
    (runSection_fixed hsec).2.trans h.rounds⟩
  cases sec with
  | countFailure | markFailed | clearFailures => cases hwrites
  | failedAction =>
    cases hm
    exact h.inside
  | revive =>
    obtain ⟨-, rfl⟩ := RWMutex.runlock_eq_some hm
    exact Finset.mem_erase.mpr ⟨fun heq => hji (Option.some.inj heq).symm, h.inside⟩

theorem Locked.Blocked.step (h : Locked.Blocked i t s) {a : LockAct}
    (hne : a ≠ .leave i .revive) (hmove : LockMove s a s') : Locked.Blocked i t s' := by
  have hsound := h.sound.step hmove
  cases hmove with
  | begin hmain => exact absurd hmain h.main
  | finish hmain hidle => exact absurd h.inside ((h.sound.no_goroutine hidle).1 i)
  | spawn | checked => exact ⟨hsound, h.inside, h.failures, h.heap, h.rounds⟩
  | spawned hmain hm =>
    obtain ⟨-, rfl⟩ := RWMutex.runlock_eq_some hm
    exact ⟨hsound, Finset.mem_erase.mpr ⟨Option.some_ne_none i, h.inside⟩, h.failures, h.heap,
      h.rounds⟩
  | rlock hi hnext hm =>
    obtain ⟨-, -, -, rfl⟩ := RWMutex.rlock_eq_some hm
    exact ⟨hsound, Finset.mem_insert_of_mem h.inside, h.failures, h.heap, h.rounds⟩
  | announce hi hnext hwrites hm =>
    obtain ⟨-, -, rfl⟩ := RWMutex.announce_eq_some hm
    exact ⟨hsound, h.inside, h.failures, h.heap, h.rounds⟩
  | acquire hm =>
    -- it waits for all readers
    have hreaders := (RWMutex.acquire_eq_some hm).2.1
    exact absurd (hreaders ▸ h.inside) (Finset.notMem_empty _)
  | leave hi hsec hm => exact h.leave hne (.leave hi hsec hm) hsec hm

end Blocked

/-- **One `ReviveAction` that does not return stops the health checker.**  It is called under
`RLock`.  So in every continuation in which the goroutine does not leave this section, nobody gets
`Lock`: no failure of any check is counted, no flag is set or cleared, the round does not end and no
other one begins. -/
theorem revive_blocks {checks : List ℕ} {heap : ℕ → HealthCheck} {as bs : List LockAct}
    {s s' : Locked} {i : ℕ} (hrun : run lockStep (.start (.init checks heap)) as = some s)
    (hinside : some i ∈ s.mutex.readers) (hstays : LockAct.leave i .revive ∉ bs)
    (hrest : run lockStep s bs = some s') :
    s'.checker.failures = s.checker.failures ∧ s'.checker.heap = s.checker.heap ∧
      s'.checker.rounds = s.checker.rounds ∧ s'.main ≠ .idle ∧ s'.mutex.writer = none := by
  -- every step but the one that leaves the section keeps the goroutine inside
  have hblocked : Locked.Blocked i s s' := by
    refine run_invariant_along (G := fun _ a => a ≠ .leave i .revive)
      (fun _ _ _ ht hne h => ht.step hne (lockStep_move h))
      ⟨lockRun_sound (fun _ _ => rfl) hrun, hinside, rfl, rfl, rfl⟩ (along_of_forall ?_ s) hrest
    rintro a ha rfl
    exact hstays ha
  refine ⟨hblocked.failures, hblocked.heap, hblocked.rounds, hblocked.main, ?_⟩
  by_contra hne
  exact absurd ((hblocked.sound.exclusive hne).1 ▸ hblocked.inside) (Finset.notMem_empty _)

/-- Two checks that may fail once. -/
def pairChecker : HealthChecker := .init [0, 1] fun _ => ⟨"web", .http, 1, 2, "", false⟩

/-- Both checks fail. -/
def pairRound : List LockAct :=
  [.begin fun _ => .failure, .spawn, .spawn, .spawned, .checked 0, .checked 1, .announce 0,
    .acquire 0, .leave 0 .countFailure, .announce 1, .acquire 1, .leave 1 .countFailure, .finish]

/-- In the next round the second one succeeds, and its `ReviveAction` is called. -/
def pairRevives : List LockAct :=
  [.begin fun i => if i = 0 then .failure else .success, .spawn, .spawn, .checked 1, .rlock 1]

theorem revive_blocks_pair :
    ∃ s s', run lockStep (.start pairChecker) (pairRound ++ pairRevives) = some s ∧
      0 < s.checker.failures 1 ∧ run lockStep s [.checked 0, .announce 0, .spawned] = some s' ∧
      s'.checker.failures 0 = 1 ∧ s'.main ≠ .idle := by
  have hruns : (run lockStep (.start pairChecker) (pairRound ++ pairRevives)).any (fun s =>
      decide (some 1 ∈ s.mutex.readers ∧ s.checker.failures 0 = 1 ∧ 0 < s.checker.failures 1) &&
        (run lockStep s [.checked 0, .announce 0, .spawned]).isSome) = true := by
    decide +kernel
  obtain ⟨s, hs, htest⟩ := (Option.any_eq_true _ _).mp hruns
  rw [Bool.and_eq_true, decide_eq_true_eq] at htest
  obtain ⟨⟨hinside, hzero, hone⟩, hsome⟩ := htest
  obtain ⟨s', hs'⟩ := Option.isSome_iff_exists.mp hsome
  obtain ⟨hfailures, -, -, hmain, -⟩ := revive_blocks hs hinside (by simp) hs'
  exact ⟨s, s', hs, hone, hs', by rw [hfailures, hzero], hmain⟩

/-! ## Where a round can hang -/

section Progress

variable {s s' : Locked} {i : ℕ}

/-- The goroutine of check `i` is in `runCheck`, in `FailedAction` or in `ReviveAction`. -/
def Locked.InCall (s : Locked) (i : ℕ) : Prop :=
  i < s.main.started s.checker.checks.length ∧ (i ∉ s.returned ∨ s.checker.phase i = .failing ∨
    some i ∈ s.mutex.readers ∧ 0 < s.checker.failures i)

instance (s : Locked) (i : ℕ) : Decidable (s.InCall i) :=
  inferInstanceAs (Decidable (_ ∧ (_ ∨ _ ∨ _ ∧ _)))

/-- The goroutine that takes the step. -/
def LockAct.goroutine : LockAct → Option ℕ
  | .checked i | .rlock i | .announce i | .acquire i | .leave i _ => some i
  | _ => none

/-- While a round is under way it has its outcomes. -/
def Locked.HasRound (s : Locked) : Prop := s.main ≠ .idle → s.checker.rounds ≠ []

theorem Locked.HasRound.step (hs : s.HasRound) {a : LockAct} (h : LockMove s a s') :
    s'.HasRound := by
  cases h with
  | begin hmain hround hm =>
    intro _
    rw [healthStep, Option.ite_none_right_eq_some, Option.some.injEq] at hround
    rw [← hround.2]
    exact List.cons_ne_nil _ _
  | spawn hmain hk =>
    intro _
    exact hs (by rw [hmain]; exact RunPhase.noConfusion)
  | spawned hmain hm =>
    intro _
    exact hs (by rw [hmain]; exact RunPhase.noConfusion)
  | finish hmain hidle => exact fun hne => absurd rfl hne
  | checked | rlock | announce | acquire => exact hs
  | leave hi hsec hm =>
    intro hne
    rw [(runSection_fixed hsec).2]
    exact hs hne

/-- A goroutine that is not done has a section to come to. -/
theorem exists_next {h : HealthChecker} (hround : h.rounds ≠ []) (hphase : h.phase i ≠ .done) :
    ∃ sec, h.next i = some sec := by
  unfold HealthChecker.next
  cases hp : h.phase i with
  | ready =>
    obtain ⟨o, os, hos⟩ := List.exists_cons_of_ne_nil hround
    have houtcome : h.outcome i = some (o i) := by
      rw [HealthChecker.outcome, hos]
      rfl
    rw [houtcome]
    cases o i with
    | success => exact ⟨_, rfl⟩
    | failure => exact ⟨_, rfl⟩
  | failing | marking | clearing => exact ⟨_, rfl⟩
  | done => exact absurd hp hphase

/-- Who is inside a section can leave it. -/
theorem exists_leave {sec : CheckSection} (hi : i < s.main.started s.checker.checks.length)
    (hnext : s.checker.next i = some sec) {m : RWMutex (Option ℕ)}
    (hm : sec.release i s.mutex = some m) : ∃ s', lockStep s (.leave i sec) = some s' := by
  obtain ⟨h, hsec⟩ := exists_runSection hnext
  refine ⟨{ s with checker := h, mutex := m }, ?_⟩
  rw [lockStep, if_pos hi, hsec, Option.bind_some, hm]
  rfl

/-- A call can return: no lock is needed for that. -/
theorem Locked.Sound.exists_return (hs : s.Sound) (hcall : s.InCall i) :
    ∃ a s', a.goroutine = some i ∧ lockStep s a = some s' := by
  obtain ⟨hi, hcheck | hphase | ⟨hinside, -⟩⟩ := hcall
  · exact ⟨.checked i, _, rfl, if_pos ⟨hi, hcheck⟩⟩
  · have hnext : s.checker.next i = some .failedAction := by rw [HealthChecker.next, hphase]
    obtain ⟨s', hs'⟩ := exists_leave hi hnext rfl
    exact ⟨_, s', rfl, hs'⟩
  · obtain ⟨s', hs'⟩ := exists_leave hi (hs.readers i hinside).2 (if_pos hinside)
    exact ⟨_, s', rfl, hs'⟩

/-- The loop goes on, or `runChecks` gives the mutex back. -/
theorem Locked.Sound.progress_spawning (hs : s.Sound) {k : ℕ} (hmain : s.main = .spawning k) :
    ∃ a s', lockStep s a = some s' := by
  have hle : k ≤ s.checker.checks.length := by
    have hstarted := hs.started
    rw [hmain] at hstarted
    exact hstarted
  rcases Nat.lt_or_eq_of_le hle with hlt | rfl
  · refine ⟨.spawn, { s with main := .spawning (k + 1) }, ?_⟩
    simp only [lockStep, hmain]
    exact if_pos hlt
  · have hmem : none ∈ s.mutex.readers := hs.main.mpr ⟨_, hmain⟩
    refine ⟨.spawned, ⟨s.checker, { s.mutex with readers := s.mutex.readers.erase none }, .waiting,
      s.returned⟩, ?_⟩
    rw [lockStep, if_pos hmain, RWMutex.runlock, if_pos hmem]
    rfl

/-- When nobody has the mutex or waits for it, a goroutine can take the first step to its next
section. -/
theorem progress_free (hreaders : s.mutex.readers = ∅) (hpending : s.mutex.pending = none)
    (hwriter : s.mutex.writer = none) {sec : CheckSection}
    (hi : i < s.main.started s.checker.checks.length) (hcheck : i ∈ s.returned)
    (hnext : s.checker.next i = some sec) : ∃ a s', lockStep s a = some s' := by
  by_cases hwrites : sec.writes = true
  · refine ⟨.announce i, { s with mutex := { s.mutex with pending := some (some i) } }, ?_⟩
    rw [lockStep, if_pos ⟨hi, hcheck, by rw [hnext]; exact hwrites⟩, RWMutex.announce,
      if_pos ⟨hpending, hwriter⟩]
    rfl
  · cases sec with
    | countFailure | markFailed | clearFailures => exact absurd rfl hwrites
    | failedAction => exact ⟨_, exists_leave hi hnext rfl⟩
    | revive =>
      refine ⟨.rlock i,
        { s with mutex := { s.mutex with readers := insert (some i) s.mutex.readers } }, ?_⟩
      rw [lockStep, if_pos ⟨hi, hcheck, hnext⟩, RWMutex.rlock,
        if_pos ⟨hpending, hwriter, by rw [hreaders]; exact Finset.notMem_empty _⟩]
      rfl

/-- Some goroutine goes on while `runChecks` waits.  Which one depends on who has the mutex: the
writer leaves, or a reader does, or the writer that has waited for the readers comes in. -/
theorem Locked.Sound.progress_waiting (hs : s.Sound) (hround : s.checker.rounds ≠ [])
    (hmain : s.main = .waiting) (hidle : ¬ s.checker.Idle)
    (hcalls : ∀ i < s.checker.checks.length, ¬ s.InCall i) : ∃ a s', lockStep s a = some s' := by
  -- who holds the mutex, or waits for it, decides who can go on
  cases hwriter : s.mutex.writer with
  | some t =>
    obtain ⟨i, rfl, hi, sec, hnext, hwrites⟩ := hs.writer t hwriter
    have hm : sec.release i s.mutex = some { s.mutex with writer := none } := by
      rw [release_of_writes hwrites, RWMutex.unlock, if_pos hwriter]
    exact ⟨_, exists_leave hi hnext hm⟩
  | none =>
    rcases Finset.eq_empty_or_nonempty s.mutex.readers with hempty | ⟨t, ht⟩
    · cases hpending : s.mutex.pending with
      | some t =>
        obtain ⟨i, rfl, -⟩ := hs.pending t hpending
        refine ⟨.acquire i, { s with mutex := ⟨∅, none, some (some i)⟩ }, ?_⟩
        rw [lockStep, RWMutex.acquire, if_pos ⟨hpending, hempty⟩]
        rfl
      | none =>
        unfold HealthChecker.Idle at hidle
        push Not at hidle
        obtain ⟨i, hi, hphase⟩ := hidle
        have hstarted : i < s.main.started s.checker.checks.length := by rw [hmain]; exact hi
        have hcheck : i ∈ s.returned := by
          by_contra hcheck
          exact hcalls i hi ⟨hstarted, Or.inl hcheck⟩
        obtain ⟨sec, hnext⟩ := exists_next hround hphase
        exact progress_free hempty hpending hwriter hstarted hcheck hnext
    · cases t with
      | none =>
        obtain ⟨k, hk⟩ := hs.main.mp ht
        cases hmain.symm.trans hk
      | some i =>
        obtain ⟨hi, hnext⟩ := hs.readers i ht
        exact ⟨_, exists_leave hi hnext (if_pos ht)⟩

/-- Between rounds nobody is inside. -/
theorem Locked.Sound.free (hs : s.Sound) (hmain : s.main = .idle) : s.mutex = .free := by
  obtain ⟨hreaders, hpending, hwriter⟩ := hs.no_goroutine (hs.idle hmain)
  have hnone : none ∉ s.mutex.readers := by
    intro hmem
    obtain ⟨k, hk⟩ := hs.main.mp hmem
    cases hmain.symm.trans hk
  have hempty : s.mutex.readers = ∅ :=
    Finset.eq_empty_of_forall_notMem fun t => Option.rec hnone hreaders t
  calc s.mutex = ⟨s.mutex.readers, s.mutex.pending, s.mutex.writer⟩ := rfl
    _ = ⟨∅, none, none⟩ := by rw [hempty, hpending, hwriter]

end Progress

/-- **A round hangs in a call, never in the mutex.**  In every state that the health checker
reaches: as long as the round is not over and no goroutine is in a call, some step can be taken,
although a writer that waits keeps new readers out while `runChecks` is a reader itself; a call can
return whoever has the mutex; and when the round is over, all goroutines are done and the mutex is
free. -/
theorem round_progress {checks : List ℕ} {heap : ℕ → HealthCheck} {as : List LockAct} {s : Locked}
    (hrun : run lockStep (.start (.init checks heap)) as = some s) :
    (s.main ≠ .idle → (∀ i < s.checker.checks.length, ¬ s.InCall i) →
      ∃ a s', lockStep s a = some s') ∧
    (∀ i, s.InCall i → ∃ a s', a.goroutine = some i ∧ lockStep s a = some s') ∧
    (s.main = .idle → s.checker.Idle ∧ s.mutex = .free) := by
  have hs : s.Sound := lockRun_sound (fun _ _ => rfl) hrun
  have hround : s.HasRound :=
    run_invariant (fun _ _ _ ht h => ht.step (lockStep_move h)) (fun hne => absurd rfl hne) hrun
  refine ⟨fun hmain hcalls => ?_, fun i => hs.exists_return,
    fun hmain => ⟨hs.idle hmain, hs.free hmain⟩⟩
  cases hphase : s.main with
  | idle => exact absurd hphase hmain
  | spawning k => exact hs.progress_spawning hphase
  | waiting =>
    by_cases hidle : s.checker.Idle
    · exact ⟨.finish, _, if_pos ⟨hphase, hidle⟩⟩
    · exact hs.progress_waiting (hround hmain) hphase hidle hcalls

theorem round_progress_pair :
    ∃ s s', run lockStep (.start pairChecker) (pairRound.take 6) = some s ∧ s.main ≠ .idle ∧
      (∃ a t, lockStep s a = some t) ∧
      run lockStep (.start pairChecker) pairRound = some s' ∧ s'.mutex = .free := by
  have htest : (run lockStep (.start pairChecker) (pairRound.take 6)).any (fun s =>
      decide (s.main ≠ .idle ∧ ∀ i < s.checker.checks.length, ¬ s.InCall i)) = true ∧
      (run lockStep (.start pairChecker) pairRound).any (fun s' => decide (s'.main = .idle))
        = true := by
    decide +kernel
  obtain ⟨s, hs, hmid⟩ := (Option.any_eq_true _ _).mp htest.1
  obtain ⟨s', hs', hidle⟩ := (Option.any_eq_true _ _).mp htest.2
  obtain ⟨hmain, hcalls⟩ := of_decide_eq_true hmid
  exact ⟨s, s', hs, hmain, (round_progress hs).1 hmain hcalls, hs',
    ((round_progress hs').2.2 (of_decide_eq_true hidle)).2⟩

end Border
