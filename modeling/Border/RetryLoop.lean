/-
# Loops that retry

A loop makes one pass after the other.  A pass starts from a state and is given an answer of the
environment; it ends the loop with a result, or leaves the state that the next pass starts from.
`attempts pass s as` is what the loop comes to with the answers `as`: a result, or `none` while
it is still running.

* `attempts_ends` : a loop whose passes lower a measure ends;
* `attempts_result` : what the passes preserve is known of the result;
* `attempts_never`, `exists_endless` : a loop that no answer ends, and one that some answers keep
  running for ever.
-/
import Mathlib

namespace RetryLoop

variable {σ α ρ : Type*} {pass : σ → α → ρ ⊕ σ}

/-- The loop, with one answer for each pass. -/
def attempts (pass : σ → α → ρ ⊕ σ) : σ → List α → Option ρ
  | _, [] => none
  | s, a :: as =>
    match pass s a with
    | .inl r => some r
    | .inr s' => attempts pass s' as

theorem attempts_cons_inl {s : σ} {a : α} {r : ρ} (h : pass s a = .inl r) (as : List α) :
    attempts pass s (a :: as) = some r := by
  rw [attempts, h]

theorem attempts_cons_inr {s s' : σ} {a : α} (h : pass s a = .inr s') (as : List α) :
    attempts pass s (a :: as) = attempts pass s' as := by
  rw [attempts, h]

/-- **Termination.**  When every pass that goes on lowers the measure `μ`, the loop ends within
one pass more than the measure at its start. -/
theorem attempts_ends {P : σ → Prop} {μ : σ → ℕ}
    (hstep : ∀ s a s', P s → pass s a = .inr s' → P s' ∧ μ s' < μ s) {s : σ} (hs : P s)
    {as : List α} (hlen : μ s < as.length) : ∃ r, attempts pass s as = some r := by
  induction as generalizing s with
  | nil => exact absurd hlen (Nat.not_lt_zero _)
  | cons a as ih =>
    cases hpass : pass s a with
    | inl r => exact ⟨r, attempts_cons_inl hpass as⟩
    | inr s' =>
      obtain ⟨hs', hlower⟩ := hstep s a s' hs hpass
      rw [attempts_cons_inr hpass]
      apply ih hs'
      rw [List.length_cons] at hlen
      omega

/-- **The result.**  What the passes preserve holds where the loop ends. -/
theorem attempts_result {P : σ → Prop} {R : ρ → Prop}
    (hstep : ∀ s a s', P s → pass s a = .inr s' → P s')
    (hresult : ∀ s a r, P s → pass s a = .inl r → R r) {s : σ} (hs : P s) {as : List α} {r : ρ}
    (h : attempts pass s as = some r) : R r := by
  induction as generalizing s with
  | nil => exact absurd h (by simp [attempts])
  | cons a as ih =>
    cases hpass : pass s a with
    | inl r' =>
      rw [attempts_cons_inl hpass] at h
      obtain rfl := Option.some.inj h
      exact hresult s a r' hs hpass
    | inr s' =>
      rw [attempts_cons_inr hpass] at h
      exact ih (hstep s a s' hs hpass) h

/-- **No end.**  When every pass goes on, so does the loop. -/
theorem attempts_never {Q : σ → Prop} (hstep : ∀ s a, Q s → ∃ s', pass s a = .inr s' ∧ Q s')
    {s : σ} (hs : Q s) (as : List α) : attempts pass s as = none := by
  induction as generalizing s with
  | nil => rfl
  | cons a as ih =>
    obtain ⟨s', hpass, hs'⟩ := hstep s a hs
    rw [attempts_cons_inr hpass]
    exact ih hs'

/-- **A run without end.**  When some answer always makes the pass go on, there are answers with
which the loop is still running after any number of passes. -/
theorem exists_endless {Q : σ → Prop} (hstep : ∀ s, Q s → ∃ a s', pass s a = .inr s' ∧ Q s')
    {s : σ} (hs : Q s) :
    ∃ answers : ℕ → α, ∀ n, attempts pass s ((List.range n).map answers) = none := by
  choose answer next hpass hnext using hstep
  -- the states of the run, one after the other
  let states : ℕ → { s // Q s } := fun n =>
    Nat.rec ⟨s, hs⟩ (fun _ t => ⟨next t.1 t.2, hnext t.1 t.2⟩) n
  refine ⟨fun n => answer (states n).1 (states n).2, fun n => ?_⟩
  have hrun : ∀ n k, attempts pass (states k).1
      ((List.range' k n).map fun n => answer (states n).1 (states n).2) = none := by
    intro n
    induction n with
    | zero => exact fun k => rfl
    | succ n ih =>
      intro k
      rw [List.range'_succ, List.map_cons, attempts_cons_inr (hpass (states k).1 (states k).2)]
      exact ih (k + 1)
  rw [List.range_eq_range']
  exact hrun n 0

end RetryLoop
