/-
# Loop variables and the closures that capture them

Before Go 1.22 a `for … range` statement has one variable for all its iterations, which
each iteration assigns anew.  A closure made in the body holds the variable, not its value:
when it runs after the loop it reads what the last iteration has left there.

A `Frame` is what a function with such loops has built so far: the values made in the
bodies, and the variables of the loops begun so far.  `forRange` is one loop, whose body is
given the variable to capture.  `forRange_ok` says what a loop that completes leaves: the
older variables as they were, and its own one at the last element.
-/
import Mathlib

namespace Capture

variable {α χ ε : Type}

/-- What has been made so far, and the loop variables. -/
structure Frame (α χ : Type) where
  made : List χ
  vars : List α

/-- The iterations of a loop with the variable `v`. -/
def iterate (body : ℕ → α → Except ε (List χ)) (v : ℕ) : List α → Frame α χ → Except ε (Frame α χ)
  | [], f => .ok f
  | x :: xs, f => do
    let new ← body v x
    iterate body v xs ⟨f.made ++ new, f.vars.set v x⟩

/-- `for x := range xs`: a new variable, and the iterations. -/
def forRange (zero : α) (body : ℕ → α → Except ε (List χ)) (xs : List α) (f : Frame α χ) :
    Except ε (Frame α χ) :=
  iterate body f.vars.length xs ⟨f.made, f.vars ++ [zero]⟩

/-- The iterations: each value is made by one of them, and the variable ends at the last
element. -/
theorem iterate_ok {body : ℕ → α → Except ε (List χ)} {vars : List α} {v : ℕ}
    (hv : v = vars.length) {xs : List α} {x : α} {made : List χ} {f' : Frame α χ}
    (h : iterate body v xs ⟨made, vars ++ [x]⟩ = .ok f') :
    f'.vars = vars ++ [xs.getLastD x] ∧
      ∃ new, f'.made = made ++ new ∧
        ∀ a ∈ new, ∃ y ∈ xs, ∃ as, body v y = .ok as ∧ a ∈ as := by
  induction xs generalizing x made with
  | nil =>
    obtain rfl := Except.ok.inj h
    exact ⟨rfl, [], (List.append_nil _).symm, fun a ha => absurd ha List.not_mem_nil⟩
  | cons y ys ih =>
    rw [iterate] at h
    cases hbody : body v y with
    | error e =>
      rw [hbody] at h
      exact absurd h (by simp [bind, Except.bind])
    | ok as =>
      have hset : (vars ++ [x]).set v y = vars ++ [y] := by
        rw [hv, List.set_append_right _ _ (le_refl _), Nat.sub_self]
        rfl
      rw [hbody] at h
      change iterate body v ys ⟨made ++ as, (vars ++ [x]).set v y⟩ = .ok f' at h
      rw [hset] at h
      obtain ⟨hvars, new, hmade, hnew⟩ := ih h
      refine ⟨?_, as ++ new, by rw [hmade, List.append_assoc], fun a ha => ?_⟩
      · rw [hvars, List.getLastD_cons]
      · rcases List.mem_append.mp ha with ha | ha
        · exact ⟨y, List.mem_cons_self, as, hbody, ha⟩
        · obtain ⟨z, hz, as', has', ha'⟩ := hnew a ha
          exact ⟨z, List.mem_cons_of_mem _ hz, as', has', ha'⟩

/-- **What a loop that completes leaves.** -/
theorem forRange_ok {zero : α} {body : ℕ → α → Except ε (List χ)} {xs : List α}
    {f f' : Frame α χ} (h : forRange zero body xs f = .ok f') :
    f'.vars = f.vars ++ [xs.getLastD zero] ∧
      ∃ new, f'.made = f.made ++ new ∧
        ∀ a ∈ new, ∃ x ∈ xs, ∃ as, body f.vars.length x = .ok as ∧ a ∈ as :=
  iterate_ok rfl h

end Capture
