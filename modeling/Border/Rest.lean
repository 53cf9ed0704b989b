/-
# Systems that come to rest

A system of threads has come to rest in a state when no action that is enabled there changes it.
Runs are unfair here: an action that is enabled may be put off for ever, and one that changes
nothing may be repeated for ever.  So a system is shown to come to rest by a measure that every
step which changes the state makes smaller.

* `length_add_measure_le` : then the steps of a run that change something are no more than the
  measure of the state it starts from;
* `exists_rests` : and from every state some run comes to rest.
-/
import Border.Transition

namespace Transition

variable {σ α : Type*} (step : σ → α → Option σ)

/-- No action that is enabled changes the state. -/
def Rests (s : σ) : Prop := ∀ a s', step s a = some s' → s' = s

/-- The action changes the state, if it is enabled. -/
def Moves (s : σ) (a : α) : Prop := step s a ≠ some s

section Measure

variable {step} {I : σ → Prop} {μ : σ → ℕ}

/-- **A measure bounds the steps that change something.** -/
theorem length_add_measure_le (hI : ∀ s a s', I s → step s a = some s' → I s')
    (hμ : ∀ s a s', I s → step s a = some s' → s' ≠ s → μ s' < μ s) {s s' : σ} {as : List α}
    (hs : I s) (hmoves : Along step (Moves step) s as) (hrun : run step s as = some s') :
    as.length + μ s' ≤ μ s := by
  induction as generalizing s with
  | nil =>
    cases hrun
    rw [List.length_nil, Nat.zero_add]
  | cons a as ih =>
    rw [run_cons, Option.bind_eq_some_iff] at hrun
    obtain ⟨t, ht, hrest⟩ := hrun
    have hne : t ≠ s := by
      rintro rfl
      exact hmoves.1 ht
    have hlt : μ t < μ s := hμ s a t hs ht hne
    have hle : as.length + μ s' ≤ μ t := ih (hI s a t hs ht) (hmoves.2 t ht) hrest
    rw [List.length_cons]
    omega

/-- **With a measure, some run comes to rest.** -/
theorem exists_rests (hI : ∀ s a s', I s → step s a = some s' → I s')
    (hμ : ∀ s a s', I s → step s a = some s' → s' ≠ s → μ s' < μ s) {s : σ} (hs : I s) :
    ∃ as s', run step s as = some s' ∧ Rests step s' := by
  induction hn : μ s using Nat.strong_induction_on generalizing s with
  | h n ih =>
    by_cases hrests : Rests step s
    · exact ⟨[], s, rfl, hrests⟩
    · -- some step changes the state, and the run goes on from there
      unfold Rests at hrests
      push Not at hrests
      obtain ⟨a, t, ht, hne⟩ := hrests
      obtain ⟨as, s', hrun, hrest⟩ :=
        ih (μ t) (hn ▸ hμ s a t hs ht hne) (hI s a t hs ht) rfl
      refine ⟨a :: as, s', ?_, hrest⟩
      rw [run_cons, ht]
      exact hrun

end Measure

end Transition
