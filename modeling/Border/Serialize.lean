/-
# Serialisation by commit points

Several calls are under way at once, each in steps of its own on a shared state.  Suppose
every step either leaves the shared state alone or makes the whole change of one call that
had not yet made it: its commit.  Then at any time the shared state is the one that the
committed calls leave when they are executed one after the other in the order of their
commits.

* `executeAll` executes operations one after the other, `callsAt` looks up the operations of
  the calls of an order;
* `CommitStep` says what a step may do, `Serialized` what follows for the state reached;
* `serialized_run` is the rule for whole runs, and `Serialized.perm` says that once every call
  has committed the order is one of all the calls.
-/
import Border.Transition

namespace Serialize

open Transition

variable {σ α ω τ : Type*}

/-! ## One after the other -/

/-- Execute the operations one after the other; `none` as soon as one of them fails. -/
def executeAll (execute : ω → τ → Option τ) : List ω → τ → Option τ
  | [], t => some t
  | o :: os, t => (execute o t).bind (executeAll execute os)

theorem executeAll_append (execute : ω → τ → Option τ) (os os' : List ω) (t : τ) :
    executeAll execute (os ++ os') t = (executeAll execute os t).bind (executeAll execute os') := by
  induction os generalizing t with
  | nil => rfl
  | cons o os ih =>
    rw [List.cons_append, executeAll, executeAll, Option.bind_assoc]
    exact congrArg (execute o t).bind (funext ih)

/-- Executing one operation more. -/
theorem executeAll_concat {execute : ω → τ → Option τ} {os : List ω} {t t' : τ}
    (h : executeAll execute os t = some t') (o : ω) :
    executeAll execute (os ++ [o]) t = execute o t' := by
  rw [executeAll_append, h, Option.bind_some, executeAll]
  exact Option.bind_fun_some _

/-- The operations of the calls with the given numbers. -/
def callsAt (calls : List ω) (order : List ℕ) : List ω := order.filterMap fun i => calls[i]?

theorem callsAt_concat {calls : List ω} {i : ℕ} {o : ω} (h : calls[i]? = some o)
    (order : List ℕ) : callsAt calls (order ++ [i]) = callsAt calls order ++ [o] := by
  rw [callsAt, List.filterMap_append, callsAt, List.filterMap_cons_some h, List.filterMap_nil]

theorem callsAt_range (calls : List ω) : callsAt calls (List.range calls.length) = calls := by
  induction calls using List.reverseRecOn with
  | nil => rfl
  | append_singleton os o ih =>
    have hprefix : callsAt (os ++ [o]) (List.range os.length) = callsAt os (List.range os.length) :=
      List.filterMap_congr fun i hi => List.getElem?_append_left (List.mem_range.mp hi)
    rw [List.length_append, List.length_singleton, List.range_succ,
      callsAt_concat List.getElem?_concat_length, hprefix, ih]

/-! ## Commits -/

section Commits

variable (calls : List ω) (execute : ω → τ → Option τ) (shared : σ → τ) (order : σ → List ℕ)

/-- What a step may do: nothing to the shared state, or the whole change of one call that had
not committed. -/
inductive CommitStep (s s' : σ) : Prop
  | silent (hshared : shared s' = shared s) (horder : order s' = order s)
  | commit {i : ℕ} {o : ω} (hcall : calls[i]? = some o) (hnew : i ∉ order s)
      (hexecute : execute o (shared s) = some (shared s')) (horder : order s' = order s ++ [i])

/-- The shared state is that of the committed calls, executed in the order of their commits. -/
structure Serialized (start : τ) (s : σ) : Prop where
  nodup : (order s).Nodup
  valid : ∀ i ∈ order s, i < calls.length
  executed : executeAll execute (callsAt calls (order s)) start = some (shared s)

variable {calls execute shared order}

theorem serialized_start {s : σ} (h : order s = []) :
    Serialized calls execute shared order (shared s) s where
  nodup := h ▸ List.nodup_nil
  valid := fun i hi => absurd (h ▸ hi) List.not_mem_nil
  executed := by rw [h]; rfl

theorem Serialized.step {start : τ} {s s' : σ}
    (hs : Serialized calls execute shared order start s)
    (h : CommitStep calls execute shared order s s') :
    Serialized calls execute shared order start s' := by
  cases h with
  | silent hshared horder =>
    exact ⟨horder ▸ hs.nodup, horder ▸ hs.valid, by rw [horder, hshared]; exact hs.executed⟩
  | @commit i o hcall hnew hexecute horder =>
    refine ⟨?_, ?_, ?_⟩
    · rw [horder, List.nodup_append_comm]
      exact List.nodup_cons.mpr ⟨hnew, hs.nodup⟩
    · intro j hj
      rw [horder, List.mem_append, List.mem_singleton] at hj
      rcases hj with hj | rfl
      · exact hs.valid j hj
      · exact (List.getElem?_eq_some_iff.mp hcall).1
    · rw [horder, callsAt_concat hcall, executeAll_concat hs.executed]
      exact hexecute

/-- **Serialisation.**  When every step along `G` from a state with the invariant keeps the
invariant and is silent or a commit, the state a run along `G` reaches is serialised. -/
theorem serialized_run {step : σ → α → Option σ} {G : σ → α → Prop} {P : σ → Prop}
    (hstep : ∀ s a s', P s → G s a → step s a = some s' →
      P s' ∧ CommitStep calls execute shared order s s')
    {s s' : σ} {as : List α} (hs : P s) (horder : order s = []) (hG : Along step G s as)
    (hrun : run step s as = some s') :
    P s' ∧ Serialized calls execute shared order (shared s) s' := by
  refine run_invariant_along (P := fun t => P t ∧
    Serialized calls execute shared order (shared s) t) ?_ ⟨hs, serialized_start horder⟩ hG hrun
  rintro t a t' ⟨hP, hser⟩ hGt ht
  obtain ⟨hP', hcommit⟩ := hstep t a t' hP hGt ht
  exact ⟨hP', hser.step hcommit⟩

/-- Once every call has committed, the order of the commits is an order of all the calls. -/
theorem Serialized.perm {start : τ} {s : σ} (hs : Serialized calls execute shared order start s)
    (hall : ∀ i < calls.length, i ∈ order s) : (callsAt calls (order s)).Perm calls := by
  have hrange : (order s).Perm (List.range calls.length) := by
    rw [List.perm_ext_iff_of_nodup hs.nodup List.nodup_range]
    intro i
    rw [List.mem_range]
    exact ⟨hs.valid i, hall i⟩
  have h := hrange.filterMap fun i => calls[i]?
  rwa [← callsAt, ← callsAt, callsAt_range] at h

end Commits

end Serialize
