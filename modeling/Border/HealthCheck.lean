/-
# The health checker

Model of `pkg/healthcheck/healthcheck.go`.  A round (`runChecks`) starts one
goroutine for each check; the goroutine of check `i` runs the check and then goes
through critical sections of its own:

* after a failure it bumps `Failures[i]` and decides, in one section, whether the
  threshold is reached (`countFailure`), then calls `FailedAction`, then sets the
  `failed` flag of the check object in another section;
* after a success it calls `ReviveAction` when `Failures[i] > 0`, and then clears
  counter and flag in another section.

The sections of the goroutines of one round interleave freely (`healthStep`).  The
check objects live in a heap, since the actions hold pointers to them.

`checkRound` is the sequential meaning of one round for one check.  The
non-interference theorem `view_of_idle` says that in every interleaving, once a
round has ended, each check with an object of its own stands where `checkRound`,
folded over its own outcomes, puts it.
-/
import Border.Transition

namespace Border

open Transition

/-- The values of `HealthCheck.Type`: `TypePing`, `TypeHTTP`, and every text that
`runCheck` refuses. -/
inductive CheckType
  | ping
  | http
  | other (type : String)
  deriving DecidableEq, Repr

/-- The type a text names. -/
def CheckType.ofString (s : String) : CheckType :=
  if s = "ping" then .ping else if s = "http" then .http else .other s

/-- `healthcheck.HealthCheck`, without the request transformer. -/
structure HealthCheck where
  name : String
  type : CheckType
  timeout : ℤ
  /-- The number of failures in a row that triggers the `FailedAction`. -/
  failures : ℤ
  target : String
  failed : Bool
  deriving DecidableEq

/-- `HealthCheck.Copy`: the target is not copied, and a copy has not failed. -/
def HealthCheck.copy (hc : HealthCheck) : HealthCheck :=
  ⟨hc.name, hc.type, hc.timeout, hc.failures, "", false⟩

/-- What `runCheck` returned: nil or an error. -/
inductive CheckOutcome
  | success
  | failure
  deriving DecidableEq, Repr

/-- The two actions of a `HealthCheckAction`. -/
inductive CheckAction
  | failed
  | revive
  deriving DecidableEq, Repr

/-- Where the goroutine of a check stands in the current round. -/
inductive CheckPhase
  | ready
  /-- The threshold was reached; `FailedAction` is to be called. -/
  | failing
  /-- `FailedAction` has returned; the flag is to be set. -/
  | marking
  /-- The check succeeded; counter and flag are to be cleared. -/
  | clearing
  | done
  deriving DecidableEq, Repr

/-- One invocation of an action: the round, the check, and which action. -/
structure Invocation where
  round : ℕ
  index : ℕ
  action : CheckAction
  deriving DecidableEq

/-- A `HealthChecker` in the course of its rounds. -/
structure HealthChecker where
  /-- `HealthChecks[i].Check`, as addresses of check objects. -/
  checks : List ℕ
  heap : ℕ → HealthCheck
  /-- `Failures[i]`. -/
  failures : ℕ → ℤ
  phase : ℕ → CheckPhase
  /-- The outcomes of every round begun so far, newest first. -/
  rounds : List (ℕ → CheckOutcome)
  /-- The invocations so far, newest first. -/
  log : List Invocation

/-- The check object of check `i`. -/
def HealthChecker.object (h : HealthChecker) (i : ℕ) : HealthCheck :=
  h.heap (h.checks.getD i 0)

/-- `Init`: no failures counted, no round begun. -/
def HealthChecker.init (checks : List ℕ) (heap : ℕ → HealthCheck) : HealthChecker where
  checks := checks
  heap := heap
  failures := fun _ => 0
  phase := fun _ => .done
  rounds := []
  log := []

/-- Every goroutine of the last round has finished. -/
def HealthChecker.Idle (h : HealthChecker) : Prop :=
  ∀ i, i < h.checks.length → h.phase i = .done

instance (h : HealthChecker) : Decidable h.Idle :=
  inferInstanceAs (Decidable (∀ i, i < h.checks.length → h.phase i = .done))

/-- The outcome of check `i` in the current round. -/
def HealthChecker.outcome (h : HealthChecker) (i : ℕ) : Option CheckOutcome :=
  h.rounds.head?.map fun o => o i

/-! ## The critical sections -/

/-- The sections of one goroutine. -/
inductive CheckSection
  | countFailure
  | failedAction
  | markFailed
  | revive
  | clearFailures
  deriving DecidableEq, Repr

/-- Write the `failed` flag of the object of check `i`. -/
def HealthChecker.setFailed (h : HealthChecker) (i : ℕ) (failed : Bool) : HealthChecker :=
  { h with heap := Function.update h.heap (h.checks.getD i 0) { h.object i with failed := failed } }

/-- One section of the goroutine of check `i`; `none` when it is not at it. -/
def HealthChecker.runSection (h : HealthChecker) (i : ℕ) : CheckSection → Option HealthChecker
  | .countFailure =>
    if h.phase i = .ready ∧ h.outcome i = some .failure then
      let count := h.failures i + 1
      let failed := decide (count ≥ (h.object i).failures) && !(h.object i).failed
      some { h with
        failures := Function.update h.failures i count
        phase := Function.update h.phase i (if failed then .failing else .done) }
    else none
  | .failedAction =>
    if h.phase i = .failing then
      some { h with
        phase := Function.update h.phase i .marking
        log := ⟨h.rounds.length, i, .failed⟩ :: h.log }
    else none
  | .markFailed =>
    if h.phase i = .marking then
      some { h.setFailed i true with phase := Function.update h.phase i .done }
    else none
  | .revive =>
    if h.phase i = .ready ∧ h.outcome i = some .success then
      some { h with
        phase := Function.update h.phase i .clearing
        log := if h.failures i > 0 then ⟨h.rounds.length, i, .revive⟩ :: h.log else h.log }
    else none
  | .clearFailures =>
    if h.phase i = .clearing then
      some { h.setFailed i false with
        failures := Function.update h.failures i 0
        phase := Function.update h.phase i .done }
    else none

/-- A new round with the outcomes of its checks, or one section of one
goroutine. -/
inductive HealthAct
  | startRound (outcome : ℕ → CheckOutcome)
  | section (i : ℕ) (sec : CheckSection)

/-- Execute one action.  `run` starts a round only after the last one has
finished. -/
def healthStep (h : HealthChecker) : HealthAct → Option HealthChecker
  | .startRound outcome =>
    if h.Idle then
      some { h with phase := fun _ => .ready, rounds := outcome :: h.rounds }
    else none
  | .section i sec => if i < h.checks.length then h.runSection i sec else none

/-! ## The sequential meaning of a round -/

/-- Counter and flag of one check. -/
structure CheckState where
  count : ℤ
  failed : Bool
  deriving DecidableEq

/-- One round of one check: the new counter and flag, and the action invoked. -/
def checkRound (threshold : ℤ) (c : CheckState) : CheckOutcome → CheckState × Option CheckAction
  | .failure =>
    if c.count + 1 ≥ threshold ∧ c.failed = false then (⟨c.count + 1, true⟩, some .failed)
    else (⟨c.count + 1, c.failed⟩, none)
  | .success => (⟨0, false⟩, if c.count > 0 then some .revive else none)

/-- Counter and flag after the given outcomes, newest first. -/
def checkRun (threshold : ℤ) : List CheckOutcome → CheckState
  | [] => ⟨0, false⟩
  | o :: os => (checkRound threshold (checkRun threshold os) o).1

/-- The invocations over the given outcomes, newest first, with the number of the
round of each. -/
def checkLog (threshold : ℤ) : List CheckOutcome → List (ℕ × CheckAction)
  | [] => []
  | o :: os =>
    ((checkRound threshold (checkRun threshold os) o).2.map fun a => (os.length + 1, a)).toList
      ++ checkLog threshold os

/-! ## What one goroutine sees -/

/-- The invocations of check `i`, newest first. -/
def invocationsOf (i : ℕ) (log : List Invocation) : List (ℕ × CheckAction) :=
  (log.filter fun e => e.index = i).map fun e => (e.round, e.action)

theorem invocationsOf_cons_self (i r : ℕ) (a : CheckAction) (log : List Invocation) :
    invocationsOf i (⟨r, i, a⟩ :: log) = (r, a) :: invocationsOf i log := by
  simp [invocationsOf]

theorem invocationsOf_cons_ne {i j : ℕ} (hij : j ≠ i) (r : ℕ) (a : CheckAction)
    (log : List Invocation) :
    invocationsOf i (⟨r, j, a⟩ :: log) = invocationsOf i log := by
  simp [invocationsOf, hij]

/-- Everything the sections of one goroutine read or write. -/
@[ext]
structure CheckView where
  count : ℤ
  failed : Bool
  phase : CheckPhase
  log : List (ℕ × CheckAction)

/-- The view of check `i`. -/
def HealthChecker.view (h : HealthChecker) (i : ℕ) : CheckView :=
  ⟨h.failures i, (h.object i).failed, h.phase i, invocationsOf i h.log⟩

/-- The outcomes of check `i` in the rounds begun so far, newest first. -/
def HealthChecker.outcomes (h : HealthChecker) (i : ℕ) : List CheckOutcome :=
  h.rounds.map fun o => o i

/-- No other action holds the check object of action `i`. -/
def Unshared (checks : List ℕ) : Prop := checks.Nodup

theorem getD_inj_of_unshared {checks : List ℕ} (hd : Unshared checks) {i j : ℕ}
    (hi : i < checks.length) (hj : j < checks.length)
    (h : checks.getD i 0 = checks.getD j 0) : i = j := by
  have hei : checks.getD i 0 = checks[i] := by simp [hi]
  have hej : checks.getD j 0 = checks[j] := by simp [hj]
  rw [hei, hej] at h
  exact (List.Nodup.getElem_inj_iff hd).mp h

/-- Writing the flag of one object keeps every other object. -/
theorem object_setFailed_ne {h : HealthChecker} (hd : Unshared h.checks) {i j : ℕ}
    (hi : i < h.checks.length) (hj : j < h.checks.length) (hij : j ≠ i) (failed : Bool) :
    (h.setFailed i failed).object j = h.object j := by
  unfold HealthChecker.setFailed HealthChecker.object
  apply Function.update_of_ne
  intro heq
  exact hij (getD_inj_of_unshared hd hj hi heq)

theorem object_setFailed_self (h : HealthChecker) (i : ℕ) (failed : Bool) :
    (h.setFailed i failed).object i = { h.object i with failed := failed } := by
  unfold HealthChecker.setFailed HealthChecker.object
  exact Function.update_self _ _ _

/-- What one section can do. -/
theorem runSection_cases {h h' : HealthChecker} {i : ℕ} {sec : CheckSection}
    (hs : h.runSection i sec = some h') :
    (h.phase i = .ready ∧ h.outcome i = some .failure ∧
      h' = { h with
        failures := Function.update h.failures i (h.failures i + 1)
        phase := Function.update h.phase i
          (if h.failures i + 1 ≥ (h.object i).failures ∧ (h.object i).failed = false
            then .failing else .done) }) ∨
    (h.phase i = .failing ∧
      h' = { h with
        phase := Function.update h.phase i .marking
        log := ⟨h.rounds.length, i, .failed⟩ :: h.log }) ∨
    (h.phase i = .marking ∧
      h' = { h.setFailed i true with phase := Function.update h.phase i .done }) ∨
    (h.phase i = .ready ∧ h.outcome i = some .success ∧
      h' = { h with
        phase := Function.update h.phase i .clearing
        log := if h.failures i > 0 then ⟨h.rounds.length, i, .revive⟩ :: h.log else h.log }) ∨
    (h.phase i = .clearing ∧
      h' = { h.setFailed i false with
        failures := Function.update h.failures i 0
        phase := Function.update h.phase i .done }) := by
  cases sec <;>
    simp only [HealthChecker.runSection, Option.ite_none_right_eq_some, Option.some.injEq] at hs
  case countFailure =>
    obtain ⟨⟨hp, ho⟩, rfl⟩ := hs
    left
    refine ⟨hp, ho, ?_⟩
    simp only [Bool.and_eq_true, decide_eq_true_eq, Bool.not_eq_true']
  case failedAction =>
    right; left
    exact ⟨hs.1, hs.2.symm⟩
  case markFailed =>
    right; right; left
    exact ⟨hs.1, hs.2.symm⟩
  case revive =>
    right; right; right; left
    exact ⟨hs.1.1, hs.1.2, hs.2.symm⟩
  case clearFailures =>
    right; right; right; right
    exact ⟨hs.1, hs.2.symm⟩

/-- A section changes neither the list of checks nor the rounds. -/
theorem runSection_fixed {h h' : HealthChecker} {i : ℕ} {sec : CheckSection}
    (hs : h.runSection i sec = some h') : h'.checks = h.checks ∧ h'.rounds = h.rounds := by
  rcases runSection_cases hs with ⟨-, -, rfl⟩ | ⟨-, rfl⟩ | ⟨-, rfl⟩ | ⟨-, -, rfl⟩ | ⟨-, rfl⟩ <;>
    exact ⟨rfl, rfl⟩

theorem phase_runSection_ne {h h' : HealthChecker} {i j : ℕ} {sec : CheckSection}
    (hs : h.runSection i sec = some h') (hij : j ≠ i) : h'.phase j = h.phase j := by
  rcases runSection_cases hs with ⟨-, -, rfl⟩ | ⟨-, rfl⟩ | ⟨-, rfl⟩ | ⟨-, -, rfl⟩ | ⟨-, rfl⟩ <;>
    exact Function.update_of_ne hij _ _

/-- **Non-interference, one section.**  A section of one goroutine changes nothing
another one can see. -/
theorem view_runSection_ne {h h' : HealthChecker} {i j : ℕ} {sec : CheckSection}
    (hd : Unshared h.checks) (hi : i < h.checks.length) (hj : j < h.checks.length)
    (hij : j ≠ i) (hs : h.runSection i sec = some h') : h'.view j = h.view j := by
  rcases runSection_cases hs with ⟨-, -, rfl⟩ | ⟨-, rfl⟩ | ⟨-, rfl⟩ | ⟨-, -, rfl⟩ | ⟨-, rfl⟩
  · simp [HealthChecker.view, HealthChecker.object, Function.update_of_ne hij]
  · simp [HealthChecker.view, HealthChecker.object, Function.update_of_ne hij,
      invocationsOf_cons_ne hij.symm]
  · have hobj := congrArg HealthCheck.failed (object_setFailed_ne hd hi hj hij true)
    exact CheckView.ext rfl hobj (Function.update_of_ne hij _ _) rfl
  · by_cases hpos : h.failures i > 0
    · simp [HealthChecker.view, HealthChecker.object, Function.update_of_ne hij, hpos,
        invocationsOf_cons_ne hij.symm]
    · simp [HealthChecker.view, HealthChecker.object, Function.update_of_ne hij, hpos]
  · have hobj := congrArg HealthCheck.failed (object_setFailed_ne hd hi hj hij false)
    exact CheckView.ext (Function.update_of_ne hij _ _) hobj (Function.update_of_ne hij _ _) rfl

/-- No section changes more of a check object than its flag. -/
theorem object_runSection {h h' : HealthChecker} {i j : ℕ} {sec : CheckSection}
    (hd : Unshared h.checks) (hi : i < h.checks.length) (hj : j < h.checks.length)
    (hs : h.runSection i sec = some h') :
    ∃ failed, h'.object j = { h.object j with failed := failed } := by
  have hset : ∀ failed, ∃ failed', (h.setFailed i failed).object j
      = { h.object j with failed := failed' } := by
    intro failed
    by_cases hij : j = i
    · exact ⟨failed, by rw [hij, object_setFailed_self]⟩
    · exact ⟨_, object_setFailed_ne hd hi hj hij failed⟩
  rcases runSection_cases hs with ⟨-, -, rfl⟩ | ⟨-, rfl⟩ | ⟨-, rfl⟩ | ⟨-, -, rfl⟩ | ⟨-, rfl⟩
  · exact ⟨_, rfl⟩
  · exact ⟨_, rfl⟩
  · exact hset true
  · exact ⟨_, rfl⟩
  · exact hset false

/-- No section changes a threshold. -/
theorem threshold_runSection {h h' : HealthChecker} {i j : ℕ} {sec : CheckSection}
    (hd : Unshared h.checks) (hi : i < h.checks.length) (hj : j < h.checks.length)
    (hs : h.runSection i sec = some h') : (h'.object j).failures = (h.object j).failures := by
  obtain ⟨failed, hobject⟩ := object_runSection hd hi hj hs
  rw [hobject]

/-! ## The simulation -/

/-- How the view of a check with the given threshold relates to its outcomes,
newest first, in each phase of the current round: before its own sections it stands
where the earlier rounds put it, after them where `checkRound` puts it. -/
inductive InRound (threshold : ℤ) : List CheckOutcome → CheckView → Prop
  | done (os : List CheckOutcome) :
      InRound threshold os
        ⟨(checkRun threshold os).count, (checkRun threshold os).failed, .done,
          checkLog threshold os⟩
  | ready (o : CheckOutcome) (os : List CheckOutcome) :
      InRound threshold (o :: os)
        ⟨(checkRun threshold os).count, (checkRun threshold os).failed, .ready,
          checkLog threshold os⟩
  | failing (os : List CheckOutcome)
      (hreach : (checkRun threshold os).count + 1 ≥ threshold)
      (hflag : (checkRun threshold os).failed = false) :
      InRound threshold (.failure :: os)
        ⟨(checkRun threshold os).count + 1, false, .failing, checkLog threshold os⟩
  | marking (os : List CheckOutcome)
      (hreach : (checkRun threshold os).count + 1 ≥ threshold)
      (hflag : (checkRun threshold os).failed = false) :
      InRound threshold (.failure :: os)
        ⟨(checkRun threshold os).count + 1, false, .marking,
          (os.length + 1, .failed) :: checkLog threshold os⟩
  | clearing (os : List CheckOutcome) (count : ℤ) (failed : Bool) :
      InRound threshold (.success :: os)
        ⟨count, failed, .clearing, checkLog threshold (.success :: os)⟩

/-- A check that reaches its threshold has finished its round as `checkRound`
says. -/
theorem checkRun_failure_reached {threshold : ℤ} {os : List CheckOutcome}
    (hreach : (checkRun threshold os).count + 1 ≥ threshold)
    (hflag : (checkRun threshold os).failed = false) :
    checkRun threshold (.failure :: os) = ⟨(checkRun threshold os).count + 1, true⟩ ∧
      checkLog threshold (.failure :: os)
        = (os.length + 1, .failed) :: checkLog threshold os := by
  simp [checkRun, checkLog, checkRound, hreach, hflag]

/-- A failure that does not trigger leaves the flag alone and invokes nothing. -/
theorem checkRun_failure_not_reached {threshold : ℤ} {os : List CheckOutcome}
    (h : ¬ ((checkRun threshold os).count + 1 ≥ threshold ∧
      (checkRun threshold os).failed = false)) :
    checkRun threshold (.failure :: os)
        = ⟨(checkRun threshold os).count + 1, (checkRun threshold os).failed⟩ ∧
      checkLog threshold (.failure :: os) = checkLog threshold os := by
  constructor
  · rw [checkRun, checkRound, if_neg h]
  · rw [checkLog, checkRound, if_neg h]
    rfl

theorem checkRun_success (threshold : ℤ) (os : List CheckOutcome) :
    checkRun threshold (.success :: os) = ⟨0, false⟩ := rfl

/-- A check that has finished its round stands where its outcomes put it. -/
theorem InRound.eq_of_done {threshold : ℤ} {os : List CheckOutcome} {v : CheckView}
    (hv : InRound threshold os v) (hphase : v.phase = .done) :
    v = ⟨(checkRun threshold os).count, (checkRun threshold os).failed, .done,
      checkLog threshold os⟩ := by
  cases hv with
  | done os => rfl
  | _ => exact absurd hphase (by simp)

/-- In the course of a round nothing is logged that the whole round does not log. -/
theorem InRound.log_sublist {threshold : ℤ} {os : List CheckOutcome} {v : CheckView}
    (hv : InRound threshold os v) : v.log.Sublist (checkLog threshold os) := by
  cases hv with
  | done os => exact List.Sublist.refl _
  | ready o os => exact List.sublist_append_right _ _
  | failing os hreach hflag => exact List.sublist_append_right _ _
  | marking os hreach hflag => rw [(checkRun_failure_reached hreach hflag).2]
  | clearing os count failed => exact List.Sublist.refl _

/-- **One section of its own.**  The goroutine of check `i` goes from phase to
phase along `InRound`. -/
theorem InRound.runSection {h h' : HealthChecker} {i : ℕ} {sec : CheckSection}
    (hv : InRound (h.object i).failures (h.outcomes i) (h.view i))
    (hs : h.runSection i sec = some h') :
    InRound (h.object i).failures (h.outcomes i) (h'.view i) := by
  have houtcome : h.outcome i = (h.outcomes i).head? := by
    rw [HealthChecker.outcome, HealthChecker.outcomes, List.head?_map]
  have hlen : h.rounds.length = (h.outcomes i).length := by
    rw [HealthChecker.outcomes, List.length_map]
  generalize hthr : (h.object i).failures = threshold at hv ⊢
  generalize h.outcomes i = os at hv houtcome hlen ⊢
  generalize hview : h.view i = v at hv
  have hcount : h.failures i = v.count := congrArg CheckView.count hview
  have hflag : (h.object i).failed = v.failed := congrArg CheckView.failed hview
  have hphase : h.phase i = v.phase := congrArg CheckView.phase hview
  have hlog : invocationsOf i h.log = v.log := congrArg CheckView.log hview
  rcases runSection_cases hs with ⟨hp, ho, rfl⟩ | ⟨hp, rfl⟩ | ⟨hp, rfl⟩ | ⟨hp, ho, rfl⟩ |
    ⟨hp, rfl⟩ <;> rw [hphase] at hp
  · -- counting a failure: the decision is that of `checkRound`
    cases hv with
    | ready o os =>
      obtain rfl : o = .failure := Option.some.inj (houtcome.symm.trans ho)
      by_cases hreach : (checkRun threshold os).count + 1 ≥ threshold ∧
          (checkRun threshold os).failed = false
      · have hnew := InRound.failing os hreach.1 hreach.2
        rw [hreach.2] at hflag
        convert hnew using 1
        simp only [HealthChecker.view, Function.update_self, hthr, hcount, hflag, hlog,
          CheckView.mk.injEq]
        exact ⟨trivial, hflag, if_pos ⟨hreach.1, trivial⟩, trivial⟩
      · obtain ⟨hrun, hlog'⟩ := checkRun_failure_not_reached hreach
        have hnew : InRound threshold _ _ := .done (.failure :: os)
        convert hnew using 1
        rw [hrun, hlog']
        simp only [HealthChecker.view, Function.update_self, hthr, hcount, hflag, hlog,
          CheckView.mk.injEq]
        exact ⟨trivial, hflag, if_neg hreach, trivial⟩
    | _ => exact absurd hp (by simp)
  · cases hv with
    | failing os hreach hfalse =>
      have hnew := InRound.marking os hreach hfalse
      convert hnew using 1
      simp only [HealthChecker.view, Function.update_self, hcount, invocationsOf_cons_self, hlog,
        hlen, List.length_cons, CheckView.mk.injEq]
      exact ⟨trivial, hflag, trivial, trivial⟩
    | _ => exact absurd hp (by simp)
  · cases hv with
    | marking os hreach hfalse =>
      obtain ⟨hrun, hlog'⟩ := checkRun_failure_reached hreach hfalse
      have hnew : InRound threshold _ _ := .done (.failure :: os)
      convert hnew using 1
      rw [hrun, hlog']
      have hset := congrArg HealthCheck.failed (object_setFailed_self h i true)
      simp only [HealthChecker.view, Function.update_self, CheckView.mk.injEq]
      exact ⟨hcount, hset, trivial, hlog⟩
    | _ => exact absurd hp (by simp)
  · -- a success: `ReviveAction` is called before the counter is cleared
    cases hv with
    | ready o os =>
      obtain rfl : o = .success := Option.some.inj (houtcome.symm.trans ho)
      have hnew : InRound threshold _ _ := .clearing os (checkRun threshold os).count
        (checkRun threshold os).failed
      convert hnew using 1
      simp only [HealthChecker.view, Function.update_self, hcount, CheckView.mk.injEq]
      refine ⟨trivial, hflag, trivial, ?_⟩
      by_cases hpos : (checkRun threshold os).count > 0
      · simp [checkLog, checkRound, hpos, invocationsOf_cons_self, hlog, hlen]
      · simp [checkLog, checkRound, hpos, hlog]
    | _ => exact absurd hp (by simp)
  · cases hv with
    | clearing os count failed =>
      have hnew : InRound threshold _ _ := .done (.success :: os)
      convert hnew using 1
      have hset := congrArg HealthCheck.failed (object_setFailed_self h i false)
      simp only [HealthChecker.view, Function.update_self, checkRun_success, CheckView.mk.injEq]
      exact ⟨trivial, hset, trivial, hlog⟩
    | _ => exact absurd hp (by simp)

/-- Every check with an object of its own follows its own outcomes. -/
structure Simulates (checks : List ℕ) (threshold : ℕ → ℤ) (h : HealthChecker) : Prop where
  checks_eq : h.checks = checks
  thresholds : ∀ i < checks.length, (h.object i).failures = threshold i
  views : ∀ i < checks.length, InRound (threshold i) (h.outcomes i) (h.view i)

/-- The simulation holds at the start when no object has failed yet. -/
theorem simulates_init {checks : List ℕ} {heap : ℕ → HealthCheck}
    (hfresh : ∀ p ∈ checks, (heap p).failed = false) :
    Simulates checks (fun i => (heap (checks.getD i 0)).failures) (.init checks heap) := by
  refine ⟨rfl, fun i _ => rfl, fun i hi => ?_⟩
  have hmem : checks.getD i 0 ∈ checks := by
    rw [List.getD_eq_getElem checks 0 hi]
    exact List.getElem_mem hi
  have hview : (HealthChecker.init checks heap).view i = ⟨0, false, .done, []⟩ := by
    apply CheckView.ext
    · rfl
    · exact hfresh _ hmem
    · rfl
    · rfl
  rw [hview]
  exact .done []

/-- **One action.**  A section moves its own check and no other; a new round finds
every check done. -/
theorem Simulates.step {checks : List ℕ} {threshold : ℕ → ℤ} {h h' : HealthChecker}
    {a : HealthAct} (hd : Unshared checks) (hsim : Simulates checks threshold h)
    (hs : healthStep h a = some h') : Simulates checks threshold h' := by
  obtain ⟨rfl, hthr, hviews⟩ := hsim
  cases a with
  | startRound outcome =>
    simp only [healthStep, Option.ite_none_right_eq_some, Option.some.injEq] at hs
    obtain ⟨hidle, rfl⟩ := hs
    refine ⟨rfl, hthr, fun i hi => ?_⟩
    -- a round starts only when the sections of the last one have all run
    have hv := (hviews i hi).eq_of_done (hidle i hi)
    show InRound (threshold i) (outcome i :: h.outcomes i) { h.view i with phase := .ready }
    rw [hv]
    exact .ready (outcome i) (h.outcomes i)
  | «section» i sec =>
    simp only [healthStep, Option.ite_none_right_eq_some] at hs
    obtain ⟨hi, hs⟩ := hs
    obtain ⟨hchecks, hrounds⟩ := runSection_fixed hs
    have houtcomes : ∀ j, h'.outcomes j = h.outcomes j := by
      intro j
      rw [HealthChecker.outcomes, hrounds, HealthChecker.outcomes]
    refine ⟨hchecks, fun j hj => ?_, fun j hj => ?_⟩
    · rw [threshold_runSection hd hi hj hs]
      exact hthr j hj
    · rw [houtcomes j]
      by_cases hij : j = i
      · subst hij
        have hv := hviews j hj
        rw [← hthr j hj] at hv ⊢
        exact hv.runSection hs
      · rw [view_runSection_ne hd hi hj hij hs]
        exact hviews j hj

theorem simulates_run {checks : List ℕ} {heap : ℕ → HealthCheck} (hd : Unshared checks)
    (hfresh : ∀ p ∈ checks, (heap p).failed = false) {acts : List HealthAct}
    {h : HealthChecker} (hr : run healthStep (.init checks heap) acts = some h) :
    Simulates checks (fun i => (heap (checks.getD i 0)).failures) h :=
  run_invariant (fun _ _ _ hsim hs => hsim.step hd hs) (simulates_init hfresh) hr

/-- **Non-interference.**  In every interleaving of the sections, once a round has
ended each check stands where `checkRound`, folded over its own outcomes, puts
it. -/
theorem view_of_idle {checks : List ℕ} {heap : ℕ → HealthCheck} (hd : Unshared checks)
    (hfresh : ∀ p ∈ checks, (heap p).failed = false) {acts : List HealthAct}
    {h : HealthChecker} (hr : run healthStep (.init checks heap) acts = some h)
    (hidle : h.Idle) {i : ℕ} (hi : i < checks.length) :
    h.view i =
      ⟨(checkRun (heap (checks.getD i 0)).failures (h.outcomes i)).count,
        (checkRun (heap (checks.getD i 0)).failures (h.outcomes i)).failed, .done,
        checkLog (heap (checks.getD i 0)).failures (h.outcomes i)⟩ := by
  have hsim := simulates_run hd hfresh hr
  apply (hsim.views i hi).eq_of_done
  apply hidle
  rw [hsim.checks_eq]
  exact hi

end Border
