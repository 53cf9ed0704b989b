/-
# Failure detection over whole runs of the health checker

What the actions of a check are worth, in terms of its outcomes alone:

* `failedAction_exact` : `FailedAction` is called once in every streak of failures
  that reaches `max 1 threshold`, at the failure that reaches it, whatever the other
  checks do;
* `actionsOf_alternate_iff` : `FailedAction` and `ReviveAction` alternate exactly
  when no success ends a streak shorter than the threshold, since a success revives
  after any failure and not only after a `FailedAction`.

Both rest on `view_of_idle`, which reduces a run of all checks to the sequential
`checkRun` and `checkLog` of one.
-/
import Border.HealthCheck

namespace Border

open Transition

/-! ## Streaks -/

/-- The length of the current streak of failures, over outcomes newest first. -/
def streak : List CheckOutcome → ℕ
  | [] => 0
  | .failure :: os => streak os + 1
  | .success :: _ => 0

/-- Counter and flag of a check are functions of its current streak. -/
theorem checkRun_eq (threshold : ℤ) (os : List CheckOutcome) :
    checkRun threshold os = ⟨streak os, decide (max 1 threshold ≤ (streak os : ℤ))⟩ := by
  induction os with
  | nil =>
    have hlt : ¬ max 1 threshold ≤ ((streak [] : ℕ) : ℤ) := by
      simp only [streak]
      omega
    rw [decide_eq_false hlt]
    rfl
  | cons o os ih =>
    cases o with
    | success =>
      have hlt : ¬ max 1 threshold ≤ ((streak (.success :: os) : ℕ) : ℤ) := by
        simp only [streak]
        omega
      rw [decide_eq_false hlt]
      rfl
    | failure =>
      by_cases hreach : (checkRun threshold os).count + 1 ≥ threshold ∧
          (checkRun threshold os).failed = false
      · rw [(checkRun_failure_reached hreach.1 hreach.2).1]
        rw [ih] at hreach ⊢
        have hle : max 1 threshold ≤ ((streak (.failure :: os) : ℕ) : ℤ) := by
          have h1 := hreach.1
          simp only [streak] at h1 ⊢
          omega
        rw [decide_eq_true hle]
        rfl
      · rw [(checkRun_failure_not_reached hreach).1]
        rw [ih] at hreach ⊢
        -- the flag stays: it was set already, or the new streak is still too short
        have hflag : max 1 threshold ≤ (streak os : ℤ) ↔
            max 1 threshold ≤ ((streak (.failure :: os) : ℕ) : ℤ) := by
          simp only [streak, decide_eq_false_iff_not] at hreach ⊢
          omega
        simp only [CheckState.mk.injEq, decide_eq_decide]
        exact ⟨rfl, hflag⟩

/-- A failure triggers exactly when it makes the streak as long as the threshold
asks for. -/
theorem reached_iff (threshold : ℤ) (os : List CheckOutcome) :
    ((checkRun threshold os).count + 1 ≥ threshold ∧ (checkRun threshold os).failed = false) ↔
      ((streak (.failure :: os) : ℕ) : ℤ) = max 1 threshold := by
  rw [checkRun_eq]
  simp only [streak, decide_eq_false_iff_not]
  omega

/-! ## Exact detection -/

/-- No invocation carries the number of a round to come. -/
theorem round_le_of_mem_checkLog {threshold : ℤ} {os : List CheckOutcome} {r : ℕ}
    {a : CheckAction} (hmem : (r, a) ∈ checkLog threshold os) : r ≤ os.length := by
  induction os with
  | nil => exact absurd hmem List.not_mem_nil
  | cons o os ih =>
    rw [checkLog, List.mem_append] at hmem
    rcases hmem with hnew | hold
    · simp only [Option.mem_toList, Option.map_eq_some_iff, Prod.mk.injEq] at hnew
      obtain ⟨-, -, hr, -⟩ := hnew
      rw [← hr, List.length_cons]
    · have := ih hold
      rw [List.length_cons]
      omega

/-- How often round `r` is to call `FailedAction`: once when the streak ending with
that round has just reached the threshold, and not at all otherwise. -/
def failedCalls (threshold : ℤ) (os : List CheckOutcome) (r : ℕ) : ℕ :=
  if r ≤ os.length ∧ (streak (os.drop (os.length - r)) : ℤ) = max 1 threshold then 1 else 0

/-- A round says nothing about the others. -/
theorem failedCalls_cons_of_ne {threshold : ℤ} {o : CheckOutcome} {os : List CheckOutcome}
    {r : ℕ} (hr : r ≠ os.length + 1) :
    failedCalls threshold (o :: os) r = failedCalls threshold os r := by
  unfold failedCalls
  by_cases hle : r ≤ os.length
  · have hlen : (o :: os).length - r = (os.length - r) + 1 := by
      rw [List.length_cons]
      omega
    have hle' : r ≤ (o :: os).length := by
      rw [List.length_cons]
      omega
    rw [hlen, List.drop_succ_cons]
    simp only [hle, hle', true_and]
  · have hgt : ¬ r ≤ (o :: os).length := by
      rw [List.length_cons]
      omega
    rw [if_neg (fun h => hgt h.1), if_neg (fun h => hle h.1)]

/-- What the newest round logs under `FailedAction`. -/
theorem failedCalls_newest (threshold : ℤ) (o : CheckOutcome) (os : List CheckOutcome) :
    ((checkRound threshold (checkRun threshold os) o).2.map
        fun a => (os.length + 1, a)).toList.count (os.length + 1, CheckAction.failed)
      = failedCalls threshold (o :: os) (os.length + 1) := by
  have hcalls : failedCalls threshold (o :: os) (os.length + 1)
      = if ((streak (o :: os) : ℕ) : ℤ) = max 1 threshold then 1 else 0 := by
    simp [failedCalls]
  rw [hcalls]
  cases o with
  | success =>
    have hne : ¬ ((streak (.success :: os) : ℕ) : ℤ) = max 1 threshold := by
      simp only [streak]
      omega
    rw [if_neg hne]
    by_cases hpos : (checkRun threshold os).count > 0 <;> simp [checkRound, hpos]
  | failure =>
    by_cases hreach : (checkRun threshold os).count + 1 ≥ threshold ∧
        (checkRun threshold os).failed = false
    · rw [if_pos ((reached_iff threshold os).mp hreach), checkRound, if_pos hreach]
      simp
    · rw [if_neg (mt (reached_iff threshold os).mpr hreach), checkRound, if_neg hreach]
      simp

/-- **Exact detection, one check.** -/
theorem count_failed_checkLog (threshold : ℤ) (os : List CheckOutcome) (r : ℕ) :
    (checkLog threshold os).count (r, .failed) = failedCalls threshold os r := by
  induction os with
  | nil =>
    have hne : ¬ ((streak [] : ℕ) : ℤ) = max 1 threshold := by
      simp only [streak]
      omega
    rw [failedCalls, List.drop_nil, if_neg (fun h => hne h.2)]
    rfl
  | cons o os ih =>
    rw [checkLog, List.count_append]
    by_cases hr : r = os.length + 1
    · have hold : (checkLog threshold os).count (os.length + 1, CheckAction.failed) = 0 := by
        apply List.count_eq_zero_of_not_mem
        intro hmem
        have := round_le_of_mem_checkLog hmem
        omega
      rw [hr, failedCalls_newest, hold, Nat.add_zero]
    · -- the newest round logs under its own number
      have hnew : ((checkRound threshold (checkRun threshold os) o).2.map
          fun a => (os.length + 1, a)).toList.count (r, CheckAction.failed) = 0 := by
        apply List.count_eq_zero_of_not_mem
        intro hmem
        simp only [Option.mem_toList, Option.map_eq_some_iff, Prod.mk.injEq] at hmem
        obtain ⟨-, -, heq, -⟩ := hmem
        exact hr heq.symm
      rw [hnew, ih, failedCalls_cons_of_ne hr, Nat.zero_add]

/-- **Failure detection is exact and independent of other checks.**  In every
interleaving, `FailedAction` of check `i` is never called beyond what its own outcomes
ask for, and once a round has ended it has been called exactly as often, `Failures[i]`
is the current streak, and the flag tells whether that streak has reached
`max 1 threshold`. -/
theorem failedAction_exact {checks : List ℕ} {heap : ℕ → HealthCheck} (hd : Unshared checks)
    (hfresh : ∀ p ∈ checks, (heap p).failed = false) {acts : List HealthAct}
    {h : HealthChecker} (hr : run healthStep (.init checks heap) acts = some h)
    {i : ℕ} (hi : i < checks.length) :
    (∀ r, (invocationsOf i h.log).count (r, .failed)
      ≤ failedCalls (heap (checks.getD i 0)).failures (h.outcomes i) r) ∧
    (h.Idle →
      (∀ r, (invocationsOf i h.log).count (r, .failed)
        = failedCalls (heap (checks.getD i 0)).failures (h.outcomes i) r) ∧
      h.failures i = streak (h.outcomes i) ∧
      ((h.object i).failed = true ↔
        max 1 (heap (checks.getD i 0)).failures ≤ (streak (h.outcomes i) : ℤ))) := by
  have hsim := simulates_run hd hfresh hr
  -- inside a round some calls are still to come; once it has ended none is
  constructor
  · intro r
    rw [← count_failed_checkLog]
    exact (hsim.views i hi).log_sublist.count_le _
  · intro hidle
    have hview := view_of_idle hd hfresh hr hidle hi
    rw [checkRun_eq] at hview
    refine ⟨fun r => ?_, congrArg CheckView.count hview, ?_⟩
    · rw [show invocationsOf i h.log = _ from congrArg CheckView.log hview]
      exact count_failed_checkLog _ _ r
    · rw [show (h.object i).failed = _ from congrArg CheckView.failed hview]
      exact decide_eq_true_iff

/-- Two checks with a threshold of two and objects of their own. -/
def twoChecks : ℕ → HealthCheck :=
  fun _ => ⟨"web", .http, 1000, 2, "", false⟩

/-- Two rounds: both checks fail twice, and the sections of the second round are
interleaved. -/
def bothFailTwice : List HealthAct :=
  [.startRound fun _ => .failure, .section 0 .countFailure, .section 1 .countFailure,
    .startRound fun _ => .failure, .section 1 .countFailure, .section 0 .countFailure,
    .section 1 .failedAction, .section 0 .failedAction, .section 0 .markFailed,
    .section 1 .markFailed]

theorem unshared_twoChecks : Unshared [4, 7] := by
  unfold Unshared
  decide

theorem run_bothFailTwice :
    ∃ h, run healthStep (.init [4, 7] twoChecks) bothFailTwice = some h ∧ h.Idle ∧
      h.outcomes 1 = [.failure, .failure] := by
  have hrun : (run healthStep (.init [4, 7] twoChecks) bothFailTwice).any
      (fun h => h.Idle ∧ h.outcomes 1 = [.failure, .failure]) := by decide
  obtain ⟨h, hr, hfacts⟩ := (Option.any_eq_true _ _).mp hrun
  exact ⟨h, hr, of_decide_eq_true hfacts⟩

theorem failedAction_exact_bothFailTwice :
    ∃ h, run healthStep (.init [4, 7] twoChecks) bothFailTwice = some h ∧ h.Idle ∧
      (invocationsOf 1 h.log).count (1, .failed) = 0 ∧
      (invocationsOf 1 h.log).count (2, .failed) = 1 ∧
      h.failures 1 = 2 ∧ (h.object 1).failed = true := by
  obtain ⟨h, hr, hidle, hos⟩ := run_bothFailTwice
  have hex := failedAction_exact unshared_twoChecks (fun _ _ => rfl) hr (i := 1) (by decide)
  rw [hos] at hex
  obtain ⟨hcalls, hcount, hflag⟩ := hex.2 hidle
  exact ⟨h, hr, hidle, hcalls 1, hcalls 2, hcount, hflag.mpr (by decide)⟩

/-! ## Alternation -/

/-- The sequence the callers of the actions count on: `FailedAction`,
`ReviveAction`, `FailedAction`, … -/
def alternating (k : ℕ) : CheckAction := if k % 2 = 0 then .failed else .revive

theorem failed_eq_alternating (k : ℕ) : .failed = alternating k ↔ k % 2 = 0 := by
  unfold alternating
  split_ifs with h <;> simp [h]

theorem revive_eq_alternating (k : ℕ) : .revive = alternating k ↔ k % 2 = 1 := by
  unfold alternating
  split_ifs with h
  · simp [h]
  · have hodd : k % 2 = 1 := by omega
    simp [hodd]

/-- The actions, oldest first, are a beginning of that sequence. -/
def Alternates (actions : List CheckAction) : Prop :=
  actions = (List.range actions.length).map alternating

instance (actions : List CheckAction) : Decidable (Alternates actions) :=
  inferInstanceAs (Decidable (actions = (List.range actions.length).map alternating))

theorem alternates_concat (actions : List CheckAction) (a : CheckAction) :
    Alternates (actions ++ [a]) ↔ Alternates actions ∧ a = alternating actions.length := by
  unfold Alternates
  rw [List.length_append, List.length_singleton, List.range_succ, List.map_append,
    List.map_singleton]
  constructor
  · intro h
    obtain ⟨h1, h2⟩ := List.append_inj h (by rw [List.length_map, List.length_range])
    exact ⟨h1, List.singleton_inj.mp h2⟩
  · rintro ⟨h1, h2⟩
    rw [← h1, ← h2]

/-- The actions of check `i`, oldest first. -/
def actionsOf (i : ℕ) (log : List Invocation) : List CheckAction :=
  ((invocationsOf i log).map Prod.snd).reverse

/-- The actions of one check over its outcomes, oldest first. -/
def checkActions (threshold : ℤ) (os : List CheckOutcome) : List CheckAction :=
  ((checkLog threshold os).map Prod.snd).reverse

theorem checkActions_cons (threshold : ℤ) (o : CheckOutcome) (os : List CheckOutcome) :
    checkActions threshold (o :: os)
      = checkActions threshold os
        ++ (checkRound threshold (checkRun threshold os) o).2.toList := by
  unfold checkActions
  rw [checkLog, List.map_append, List.reverse_append]
  cases (checkRound threshold (checkRun threshold os) o).2 <;> rfl

/-- Every success comes after no failure at all or after a streak that has reached
the threshold. -/
def NoShortStreak (threshold : ℤ) (os : List CheckOutcome) : Prop :=
  ∀ newer older, os = newer ++ .success :: older →
    streak older = 0 ∨ max 1 threshold ≤ (streak older : ℤ)

theorem noShortStreak_failure (threshold : ℤ) (os : List CheckOutcome) :
    NoShortStreak threshold (.failure :: os) ↔ NoShortStreak threshold os := by
  constructor
  · intro h newer older heq
    exact h (.failure :: newer) older (by rw [heq, List.cons_append])
  · intro h newer older heq
    cases newer with
    | nil => exact absurd heq (by simp)
    | cons o newer =>
      rw [List.cons_append] at heq
      exact h newer older (List.cons.inj heq).2

theorem noShortStreak_success (threshold : ℤ) (os : List CheckOutcome) :
    NoShortStreak threshold (.success :: os) ↔
      NoShortStreak threshold os ∧ (streak os = 0 ∨ max 1 threshold ≤ (streak os : ℤ)) := by
  constructor
  · intro h
    refine ⟨fun newer older heq => ?_, h [] os rfl⟩
    exact h (.success :: newer) older (by rw [heq, List.cons_append])
  · rintro ⟨h, hnew⟩ newer older heq
    cases newer with
    | nil =>
      rw [List.nil_append] at heq
      rw [← (List.cons.inj heq).2]
      exact hnew
    | cons o newer =>
      rw [List.cons_append] at heq
      exact h newer older (List.cons.inj heq).2

/-- As long as no success has ended a short streak, the flag tells which action is
due: an odd number of them have been called exactly when it is set. -/
theorem alternates_checkActions (threshold : ℤ) (os : List CheckOutcome) :
    (Alternates (checkActions threshold os) ↔ NoShortStreak threshold os) ∧
      (NoShortStreak threshold os →
        ((checkActions threshold os).length % 2 = 1 ↔ max 1 threshold ≤ (streak os : ℤ))) := by
  induction os with
  | nil =>
    refine ⟨⟨fun _ newer older heq => absurd heq (by simp), fun _ => rfl⟩, fun _ => ?_⟩
    simp only [checkActions, checkLog, List.map_nil, List.reverse_nil, List.length_nil, streak]
    omega
  | cons o os ih =>
    obtain ⟨halt, hparity⟩ := ih
    rw [checkActions_cons]
    cases o with
    | failure =>
      rw [noShortStreak_failure]
      have hstreak : streak (.failure :: os) = streak os + 1 := rfl
      by_cases hreach : (checkRun threshold os).count + 1 ≥ threshold ∧
          (checkRun threshold os).failed = false
      · -- the flag was not set, so an even number of actions came before
        have hmax := (reached_iff threshold os).mp hreach
        rw [checkRound, if_pos hreach, Option.toList_some, alternates_concat,
          failed_eq_alternating, List.length_append, List.length_singleton]
        refine ⟨⟨fun h => halt.mp h.1, fun h => ⟨halt.mpr h, ?_⟩⟩, fun h => ?_⟩
        · have := hparity h
          omega
        · have := hparity h
          omega
      · have hmax := mt (reached_iff threshold os).mpr hreach
        rw [checkRound, if_neg hreach, Option.toList_none, List.append_nil]
        refine ⟨halt, fun h => ?_⟩
        have := hparity h
        omega
    | success =>
      rw [noShortStreak_success]
      have hstreak : streak (.success :: os) = 0 := rfl
      by_cases hpos : (checkRun threshold os).count > 0
      · -- any failure before, and the success revives
        have hcount : (checkRun threshold os).count = streak os := by rw [checkRun_eq]
        rw [checkRound, if_pos hpos, Option.toList_some, alternates_concat,
          revive_eq_alternating, List.length_append, List.length_singleton, halt]
        refine ⟨⟨fun h => ⟨h.1, Or.inr ((hparity h.1).mp h.2)⟩, fun h => ⟨h.1, ?_⟩⟩, fun h => ?_⟩
        · have := hparity h.1
          omega
        · have := hparity h.1
          omega
      · have hcount : (checkRun threshold os).count = streak os := by rw [checkRun_eq]
        rw [checkRound, if_neg hpos, Option.toList_none, List.append_nil, halt]
        refine ⟨⟨fun h => ⟨h, by omega⟩, fun h => h.1⟩, fun h => ?_⟩
        have := hparity h.1
        omega

/-- **When the actions alternate.**  After any rounds, in any interleaving, the
actions of check `i` alternate exactly when no success of that check came after a
streak of failures too short to trigger. -/
theorem actionsOf_alternate_iff {checks : List ℕ} {heap : ℕ → HealthCheck}
    (hd : Unshared checks) (hfresh : ∀ p ∈ checks, (heap p).failed = false)
    {acts : List HealthAct} {h : HealthChecker}
    (hr : run healthStep (.init checks heap) acts = some h) (hidle : h.Idle)
    {i : ℕ} (hi : i < checks.length) :
    Alternates (actionsOf i h.log) ↔
      NoShortStreak (heap (checks.getD i 0)).failures (h.outcomes i) := by
  have hlog : invocationsOf i h.log = checkLog (heap (checks.getD i 0)).failures (h.outcomes i) :=
    congrArg CheckView.log (view_of_idle hd hfresh hr hidle hi)
  rw [actionsOf, hlog]
  exact (alternates_checkActions _ _).1

theorem actionsOf_alternate_bothFailTwice :
    ∃ h, run healthStep (.init [4, 7] twoChecks) bothFailTwice = some h ∧
      Alternates (actionsOf 1 h.log) := by
  obtain ⟨h, hr, hidle, hos⟩ := run_bothFailTwice
  have hiff := actionsOf_alternate_iff unshared_twoChecks (fun _ _ => rfl) hr hidle (i := 1)
    (by decide)
  refine ⟨h, hr, hiff.mpr ?_⟩
  rw [hos, noShortStreak_failure, noShortStreak_failure]
  intro newer older heq
  exact absurd heq (by simp)

/-- One failure and one success of a check with a threshold of two. -/
def failOnce : List HealthAct :=
  [.startRound fun _ => .failure, .section 0 .countFailure,
    .startRound fun _ => .success, .section 0 .revive, .section 0 .clearFailures]

/-- A failure that did not trigger is revived all the same. -/
theorem actionsOf_failOnce :
    ∃ h, run healthStep (.init [4] twoChecks) failOnce = some h ∧ h.Idle ∧
      actionsOf 0 h.log = [.revive] ∧ ¬ Alternates (actionsOf 0 h.log) := by
  have hrun : (run healthStep (.init [4] twoChecks) failOnce).any
      (fun h => h.Idle ∧ actionsOf 0 h.log = [.revive]) := by decide
  obtain ⟨h, hr, hfacts⟩ := (Option.any_eq_true _ _).mp hrun
  obtain ⟨hidle, hlog⟩ := of_decide_eq_true hfacts
  refine ⟨h, hr, hidle, hlog, ?_⟩
  rw [hlog]
  decide

end Border
