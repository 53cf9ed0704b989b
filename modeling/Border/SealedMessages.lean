/-
# Sealed messages and logs of events

Two things that a protocol over an open network is described with.

* A `Box` is a message under a symmetric authenticated encryption that is taken as perfect.
  Whoever controls the network has recorded every box that passed, and can send those, and
  every box under a key it holds (`canSend`); with a key it does not hold it can send nothing new
  (`mem_of_canSend`).
* A log of events has the newest event first.  It is `Justified` when every event stands in some
  relation to the events before it; two events whose relation forbids one order have happened in
  the other one (`Justified.precedes`).
-/
import Mathlib

namespace Sealed

variable {K P : Type} [DecidableEq K] [DecidableEq P]

/-- A message under a key. -/
structure Box (K P : Type) where
  key : K
  plain : P
  deriving DecidableEq, Repr

/-- The boxes that one who holds some keys and has seen some boxes can send. -/
def canSend (holds : K → Bool) (seen : List (Box K P)) (b : Box K P) : Bool :=
  holds b.key || decide (b ∈ seen)

/-- Under a key that is not held, only what was seen can be sent. -/
theorem mem_of_canSend {holds : K → Bool} {seen : List (Box K P)} {b : Box K P}
    (h : canSend holds seen b = true) (hkey : holds b.key = false) : b ∈ seen := by
  rw [canSend, hkey, Bool.false_or] at h
  exact of_decide_eq_true h

end Sealed

namespace History

variable {ε : Type} {J : List ε → ε → Prop}

/-- Every event of the log stands in the relation `J` to the events before it. -/
def Justified (J : List ε → ε → Prop) : List ε → Prop
  | [] => True
  | e :: older => J older e ∧ Justified J older

/-- A justified log is justified up to each of its events. -/
theorem Justified.split {newer older : List ε} {e : ε} (h : Justified J (newer ++ e :: older)) :
    J older e ∧ Justified J older := by
  induction newer with
  | nil => exact h
  | cons _ _ ih => exact ih h.2

/-- **The order of two events.**  If `a` would not be justified after `b`, it has happened
before. -/
theorem Justified.precedes {log : List ε} (h : Justified J log) {a b : ε} (ha : a ∈ log)
    (hb : b ∈ log) (hne : a ≠ b) (hfirst : ∀ older, J older a → b ∉ older) :
    ∃ newer older, log = newer ++ b :: older ∧ a ∈ older := by
  obtain ⟨newer, older, rfl⟩ := List.append_of_mem hb
  refine ⟨newer, older, rfl, ?_⟩
  rcases List.mem_append.mp ha with ha | ha
  · obtain ⟨x, y, rfl⟩ := List.append_of_mem ha
    rw [List.append_assoc, List.cons_append] at h
    exact absurd (List.mem_append_right y List.mem_cons_self) (hfirst _ h.split.1)
  · rcases List.mem_cons.mp ha with ha | ha
    · exact absurd ha hne
    · exact ha

end History
