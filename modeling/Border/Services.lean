/-
# A node with its health checker running

The health checker runs its rounds over the checks of `buildHealthChecks`, and the actions
it invokes change the configuration.  `Services.step` is the two together: a section of a
goroutine that invokes an action runs the closure of that check on the configuration, as
one step.

`Tracks` is what holds in every state of a run: every check follows its own outcomes
whatever the actions do.  The lemmas after it read off what is known of a check in each
phase of a round.
-/
import Border.HealthActions
import Border.HealthRounds

namespace Border

open GoJson GoMap NetAddr Transition

/-! ## The composed system -/

/-- A launched node: the configuration, the checks with their closures, and the health
checker. -/
structure Services where
  config : Config
  built : Builder
  checker : HealthChecker

/-- No check stands beyond the end of the list. -/
def noCheck : HealthCheck := ⟨"", .other "", 0, 0, "", false⟩

/-- The check objects, each at an address of its own. -/
def Builder.objects (b : Builder) : ℕ → HealthCheck :=
  fun i => (b.made[i]?.map HealthCheckAction.check).getD noCheck

/-- `healthcheck.Init` over the checks that were built. -/
def Services.start (c : Config) (b : Builder) : Services where
  config := c
  built := b
  checker := .init (List.range b.made.length) b.objects

/-- The closure of check `i`. -/
def Services.closure (s : Services) (i : ℕ) : Option CheckClosure :=
  s.built.made[i]?.map HealthCheckAction.closure

/-- The action that a section of check `i` invokes. -/
def HealthChecker.invoked (h : HealthChecker) (i : ℕ) : CheckSection → Option CheckAction
  | .failedAction => some .failed
  | .revive => if h.failures i > 0 then some .revive else none
  | _ => none

/-- A new round, or one section of one goroutine; the ballot is for the election it may
trigger. -/
inductive ServiceAct
  | startRound (outcome : ℕ → CheckOutcome)
  | section (i : ℕ) (sec : CheckSection) (ballot : Ballot)

/-- What the health checker sees of a step. -/
def ServiceAct.health : ServiceAct → HealthAct
  | .startRound outcome => .startRound outcome
  | .section i sec _ => .section i sec

/-- What the action invoked by a section makes of the configuration. -/
def Services.invoke (s : Services) (i : ℕ) (sec : CheckSection) (ballot : Ballot) :
    Option Config :=
  match s.checker.invoked i sec, s.closure i with
  | some action, some closure =>
    closure.perform s.built.vars ballot (s.checker.object i).target action s.config
  | _, _ => some s.config

/-- Execute one step. -/
def Services.step (s : Services) : ServiceAct → Option Services
  | .startRound outcome =>
    (healthStep s.checker (.startRound outcome)).map fun h => { s with checker := h }
  | .section i sec ballot =>
    (healthStep s.checker (.section i sec)).bind fun h =>
      (s.invoke i sec ballot).map fun c => { s with config := c, checker := h }

/-- What a step can do. -/
theorem Services.step_cases {s s' : Services} {a : ServiceAct} (hs : s.step a = some s') :
    s'.built = s.built ∧ healthStep s.checker a.health = some s'.checker ∧
      ((∃ outcome, a = .startRound outcome ∧ s'.config = s.config) ∨
        ∃ i sec ballot, a = .section i sec ballot ∧ i < s.checker.checks.length ∧
          s.checker.runSection i sec = some s'.checker ∧
          s.invoke i sec ballot = some s'.config) := by
  cases a with
  | startRound outcome =>
    simp only [Services.step, Option.map_eq_some_iff] at hs
    obtain ⟨h, hh, rfl⟩ := hs
    exact ⟨rfl, hh, Or.inl ⟨outcome, rfl, rfl⟩⟩
  | «section» i sec ballot =>
    simp only [Services.step, Option.bind_eq_some_iff, Option.map_eq_some_iff] at hs
    obtain ⟨h, hh, c, hc, rfl⟩ := hs
    have hsec := hh
    simp only [healthStep, Option.ite_none_right_eq_some] at hsec
    exact ⟨rfl, hh, Or.inr ⟨i, sec, ballot, rfl, hsec.1, hsec.2, hc⟩⟩

/-! ## Every check follows its own outcomes -/

/-- What holds in every state of a run whatever the actions do: each check follows its own
outcomes, and has the target it was made with. -/
structure Tracks (b : Builder) (s : Services) : Prop where
  built : s.built = b
  simulates : Simulates (List.range b.made.length) (fun i => (b.objects i).failures) s.checker
  target : ∀ i < b.made.length, (s.checker.object i).target = (b.objects i).target

theorem tracks_start {c : Config} {b : Builder} (hfresh : ∀ a ∈ b.made, a.check.failed = false) :
    Tracks b (.start c b) := by
  have hobjects : ∀ p ∈ List.range b.made.length, (b.objects p).failed = false := by
    intro p hp
    have hlt := List.mem_range.mp hp
    rw [Builder.objects, List.getElem?_eq_getElem hlt]
    exact hfresh _ (List.getElem_mem hlt)
  have hget : ∀ {i}, i < (List.range b.made.length).length →
      (List.range b.made.length).getD i 0 = i := by
    intro i hi
    rw [List.getD_eq_getElem _ _ hi, List.getElem_range]
  have hsim := simulates_init hobjects
  refine ⟨rfl, ⟨rfl, fun i hi => ?_, fun i hi => ?_⟩, fun i hi => ?_⟩
  · have hthr := hsim.thresholds i hi
    rw [hget hi] at hthr
    exact hthr
  · have hview := hsim.views i hi
    rw [hget hi] at hview
    exact hview
  · show (b.objects ((List.range b.made.length).getD i 0)).target = _
    rw [hget (by rw [List.length_range]; exact hi)]

/-- **One step.**  The health checker makes a step of its own, and no step changes more of a
check object than its flag. -/
theorem Tracks.step {b : Builder} {s s' : Services} {a : ServiceAct} (ht : Tracks b s)
    (hs : s.step a = some s') : Tracks b s' := by
  obtain ⟨hbuilt, hhealth, hcases⟩ := Services.step_cases hs
  have hsim := ht.simulates
  refine ⟨hbuilt.trans ht.built, hsim.step List.nodup_range hhealth, fun j hj => ?_⟩
  rcases hcases with ⟨outcome, rfl, -⟩ | ⟨i, sec, ballot, rfl, hi, hsec, -⟩
  · simp only [ServiceAct.health, healthStep, Option.ite_none_right_eq_some,
      Option.some.injEq] at hhealth
    rw [← hhealth.2]
    exact ht.target j hj
  · have hj' : j < s.checker.checks.length := by
      rw [hsim.checks_eq, List.length_range]
      exact hj
    have hunshared : Unshared s.checker.checks := by
      rw [hsim.checks_eq]
      exact List.nodup_range
    obtain ⟨failed, hobject⟩ := object_runSection hunshared hi hj' hsec
    rw [hobject]
    exact ht.target j hj

/-! ## What is known of a check in each phase -/

section Phases

variable {checks : List ℕ} {threshold : ℕ → ℤ} {h : HealthChecker} {i : ℕ}

/-- The check has failed often enough in a row when the round it is in is over. -/
def Down (threshold : ℤ) (os : List CheckOutcome) : Prop := max 1 threshold ≤ (streak os : ℤ)

instance (threshold : ℤ) (os : List CheckOutcome) : Decidable (Down threshold os) :=
  inferInstanceAs (Decidable (max 1 threshold ≤ (streak os : ℤ)))

section Sections

variable {h' : HealthChecker} {j : ℕ} {sec : CheckSection}

theorem outcomes_runSection (hs : h.runSection i sec = some h') (j : ℕ) :
    h'.outcomes j = h.outcomes j := by
  rw [HealthChecker.outcomes, (runSection_fixed hs).2, HealthChecker.outcomes]

theorem failures_runSection_ne (hs : h.runSection i sec = some h') (hji : j ≠ i) :
    h'.failures j = h.failures j := by
  rcases runSection_cases hs with ⟨-, -, rfl⟩ | ⟨-, rfl⟩ | ⟨-, rfl⟩ | ⟨-, -, rfl⟩ | ⟨-, rfl⟩ <;>
    first | rfl | exact Function.update_of_ne hji _ _

/-- After a section of its own no goroutine is where it was at the beginning of the round. -/
theorem phase_runSection_self (hs : h.runSection i sec = some h') : h'.phase i ≠ .ready := by
  rcases runSection_cases hs with ⟨-, -, rfl⟩ | ⟨-, rfl⟩ | ⟨-, rfl⟩ | ⟨-, -, rfl⟩ | ⟨-, rfl⟩ <;>
    simp only [Function.update_self]
  · split_ifs <;> simp
  all_goals simp

theorem invoked_failed (hinv : h.invoked i sec = some .failed) : sec = .failedAction := by
  cases sec with
  | failedAction => rfl
  | revive =>
    rw [HealthChecker.invoked, Option.ite_none_right_eq_some] at hinv
    exact absurd hinv.2 (by simp)
  | _ => exact absurd hinv (by simp [HealthChecker.invoked])

theorem invoked_revive (hinv : h.invoked i sec = some .revive) : sec = .revive ∧ h.failures i > 0 := by
  cases sec with
  | revive =>
    rw [HealthChecker.invoked, Option.ite_none_right_eq_some] at hinv
    exact ⟨rfl, hinv.1⟩
  | _ => exact absurd hinv (by simp [HealthChecker.invoked])

theorem failing_of_invoked (hinv : h.invoked i sec = some .failed)
    (hs : h.runSection i sec = some h') : h.phase i = .failing := by
  obtain rfl := invoked_failed hinv
  simp only [HealthChecker.runSection, Option.ite_none_right_eq_some] at hs
  exact hs.1

end Sections

theorem outcome_eq_head (h : HealthChecker) (i : ℕ) : h.outcome i = (h.outcomes i).head? := by
  rw [HealthChecker.outcome, HealthChecker.outcomes, List.head?_map]

/-- In a phase before its own sections, the counter is the streak of the earlier rounds. -/
theorem Simulates.ready (hsim : Simulates checks threshold h) (hi : i < checks.length)
    (hphase : h.phase i = .ready) :
    ∃ o os, h.outcomes i = o :: os ∧ h.failures i = streak os ∧
      ((h.object i).failed = true ↔ Down (threshold i) os) := by
  have hview := hsim.views i hi
  generalize hos : h.outcomes i = os at hview
  generalize hv : h.view i = v at hview
  have hp : v.phase = .ready := by
    rw [← hv]
    exact hphase
  cases hview with
  | ready o os =>
    refine ⟨o, os, rfl, ?_, ?_⟩
    · rw [show h.failures i = _ from congrArg CheckView.count hv, checkRun_eq]
    · rw [show (h.object i).failed = _ from congrArg CheckView.failed hv, checkRun_eq]
      exact decide_eq_true_iff
  | _ => exact absurd hp (by simp)

/-- A check that is about to call `FailedAction`, or has called it, has just reached its
threshold. -/
theorem Simulates.failing (hsim : Simulates checks threshold h) (hi : i < checks.length)
    (hphase : h.phase i = .failing ∨ h.phase i = .marking) :
    h.outcome i = some .failure ∧ (streak (h.outcomes i) : ℤ) = max 1 (threshold i) := by
  have hview := hsim.views i hi
  rw [outcome_eq_head]
  generalize hos : h.outcomes i = os at hview
  generalize hv : h.view i = v at hview
  have hp : v.phase = .failing ∨ v.phase = .marking := by
    rw [← hv]
    exact hphase
  cases hview with
  | failing os hreach hflag => exact ⟨rfl, (reached_iff _ _).mp ⟨hreach, hflag⟩⟩
  | marking os hreach hflag => exact ⟨rfl, (reached_iff _ _).mp ⟨hreach, hflag⟩⟩
  | _ => exact absurd hp (by simp)

/-- A check that has finished its round stands where its outcomes put it. -/
theorem Simulates.done (hsim : Simulates checks threshold h) (hi : i < checks.length)
    (hphase : h.phase i = .done) :
    h.failures i = streak (h.outcomes i) ∧
      ((h.object i).failed = true ↔ Down (threshold i) (h.outcomes i)) := by
  have hview := (hsim.views i hi).eq_of_done hphase
  rw [checkRun_eq] at hview
  refine ⟨congrArg CheckView.count hview, ?_⟩
  rw [show (h.object i).failed = _ from congrArg CheckView.failed hview]
  exact decide_eq_true_iff

end Phases

end Border
