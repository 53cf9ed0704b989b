/-
# Runs of partial step functions

A concurrent component is modelled as a partial step function
`step : σ → α → Option σ`: the action `α` names which thread moves and what the
environment answers, and `none` says that this action is not enabled in the
state.  A run is a list of actions, so quantifying over lists of actions
quantifies over every interleaving.

* `run step s as` executes the actions `as` from `s`;
* `Along step G s as` says that every step of that run meets the condition `G`
  on the state before the step and the action taken;
* `run_invariant_along` is the induction rule: what every step that meets `G`
  preserves holds at the end of every run along `G`;
* `along_project` carries a condition over from a system that sees a part of the state;
* `run_filterMap` carries a run over to a system that sees a part of the state and of the steps.
-/
import Mathlib

namespace Transition

variable {σ α : Type*}

/-- Execute a list of actions; `none` as soon as one of them is not enabled. -/
def run (step : σ → α → Option σ) : σ → List α → Option σ
  | s, [] => some s
  | s, a :: as => (step s a).bind fun s' => run step s' as

@[simp] theorem run_nil (step : σ → α → Option σ) (s : σ) : run step s [] = some s := rfl

theorem run_cons (step : σ → α → Option σ) (s : σ) (a : α) (as : List α) :
    run step s (a :: as) = (step s a).bind fun s' => run step s' as := rfl

/-- A run in two parts. -/
theorem run_append {step : σ → α → Option σ} {s t : σ} {as bs : List α}
    (h : run step s as = some t) : run step s (as ++ bs) = run step t bs := by
  induction as generalizing s with
  | nil =>
    cases h
    rfl
  | cons a as ih =>
    rw [run_cons, Option.bind_eq_some_iff] at h
    obtain ⟨u, hu, hrest⟩ := h
    rw [List.cons_append, run_cons, hu]
    exact ih hrest

/-- A run and one more step. -/
theorem run_concat {step : σ → α → Option σ} {s t : σ} {as : List α} {a : α}
    (h : run step s as = some t) : run step s (as ++ [a]) = step t a := by
  rw [run_append h, run_cons]
  exact Option.bind_fun_some _

/-- Every step the run `as` takes from `s` meets `G`. -/
def Along (step : σ → α → Option σ) (G : σ → α → Prop) : σ → List α → Prop
  | _, [] => True
  | s, a :: as => G s a ∧ ∀ s', step s a = some s' → Along step G s' as

instance decidableAlong {step : σ → α → Option σ} {G : σ → α → Prop} [∀ s a, Decidable (G s a)] :
    ∀ s as, Decidable (Along step G s as)
  | _, [] => isTrue trivial
  | s, a :: as =>
    have (s' : σ) : Decidable (Along step G s' as) := decidableAlong s' as
    inferInstanceAs (Decidable (G s a ∧ ∀ s' ∈ step s a, Along step G s' as))

/-- A weaker condition. -/
theorem along_mono {step : σ → α → Option σ} {G H : σ → α → Prop} (hGH : ∀ s a, G s a → H s a)
    {s : σ} {as : List α} (h : Along step G s as) : Along step H s as := by
  induction as generalizing s with
  | nil => trivial
  | cons a as ih => exact ⟨hGH s a h.1, fun s' hs' => ih (h.2 s' hs')⟩

/-- A condition that the actions meet by themselves. -/
theorem along_of_forall {step : σ → α → Option σ} {G : α → Prop} {as : List α}
    (h : ∀ a ∈ as, G a) (s : σ) : Along step (fun _ a => G a) s as := by
  induction as generalizing s with
  | nil => trivial
  | cons a as ih =>
    exact ⟨h a List.mem_cons_self, fun s' _ => ih (fun b hb => h b (List.mem_cons_of_mem _ hb)) s'⟩

/-- Two conditions at once. -/
theorem along_and {step : σ → α → Option σ} {G H : σ → α → Prop} {s : σ} {as : List α}
    (hG : Along step G s as) (hH : Along step H s as) :
    Along step (fun s a => G s a ∧ H s a) s as := by
  induction as generalizing s with
  | nil => trivial
  | cons a as ih => exact ⟨⟨hG.1, hH.1⟩, fun s' hs' => ih (hG.2 s' hs') (hH.2 s' hs')⟩

/-- **The invariant rule along a condition.**  What every step that meets `G`
preserves holds at the end of every run along `G`. -/
theorem run_invariant_along {step : σ → α → Option σ} {G : σ → α → Prop} {P : σ → Prop}
    (hstep : ∀ s a s', P s → G s a → step s a = some s' → P s')
    {s s' : σ} {as : List α} (hs : P s) (hG : Along step G s as)
    (hrun : run step s as = some s') : P s' := by
  induction as generalizing s with
  | nil =>
    cases hrun
    exact hs
  | cons a as ih =>
    rw [run_cons, Option.bind_eq_some_iff] at hrun
    obtain ⟨t, ht, hrest⟩ := hrun
    exact ih (hstep s a t hs hG.1 ht) (hG.2 t ht) hrest

/-- **The invariant rule.**  What every step preserves holds at the end of every
run. -/
theorem run_invariant {step : σ → α → Option σ} {P : σ → Prop}
    (hstep : ∀ s a s', P s → step s a = some s' → P s')
    {s s' : σ} {as : List α} (hs : P s) (hrun : run step s as = some s') : P s' :=
  run_invariant_along (G := fun _ _ => True) (fun s a s' hi _ h => hstep s a s' hi h) hs
    (along_of_forall (fun _ _ => trivial) s) hrun

/-- **Projection.**  When every step is a step of a second system on what `f` keeps of the
state, a condition on the second system's states is met along every run whose image meets it. -/
theorem along_project {τ β : Type*} {step : σ → α → Option σ} {step' : τ → β → Option τ}
    {f : σ → τ} {g : α → β} {G : τ → β → Prop} {I : σ → Prop}
    (hI : ∀ s a s', I s → step s a = some s' → I s')
    (hstep : ∀ s a s', I s → step s a = some s' → step' (f s) (g a) = some (f s')) {s : σ}
    {as : List α} (hs : I s) (h : Along step' G (f s) (as.map g)) :
    Along step (fun s a => G (f s) (g a)) s as := by
  induction as generalizing s with
  | nil => trivial
  | cons a as ih =>
    exact ⟨h.1, fun s' hs' => ih (hI s a s' hs hs') (h.2 (f s') (hstep s a s' hs hs'))⟩

/-- **Steps that a second system does not see.**  When every step is a step of a second system on
what `f` keeps of the state, or leaves that as it is, a run is a run of the second system. -/
theorem run_filterMap {τ β : Type*} {step : σ → α → Option σ} {step' : τ → β → Option τ}
    {f : σ → τ} {g : α → Option β} {I : σ → Prop}
    (hI : ∀ s a s', I s → step s a = some s' → I s')
    (hseen : ∀ s a s', I s → step s a = some s' → ∀ b, g a = some b →
      step' (f s) b = some (f s'))
    (hunseen : ∀ s a s', I s → step s a = some s' → g a = none → f s' = f s) {s s' : σ}
    {as : List α} (hs : I s) (hrun : run step s as = some s') :
    run step' (f s) (as.filterMap g) = some (f s') := by
  induction as generalizing s with
  | nil =>
    cases hrun
    rfl
  | cons a as ih =>
    rw [run_cons, Option.bind_eq_some_iff] at hrun
    obtain ⟨t, ht, hrest⟩ := hrun
    have hrun' := ih (hI s a t hs ht) hrest
    cases hg : g a with
    | none =>
      rw [List.filterMap_cons_none hg, ← hunseen s a t hs ht hg]
      exact hrun'
    | some b =>
      rw [List.filterMap_cons_some hg, run_cons, hseen s a t hs ht b hg]
      exact hrun'

end Transition
