/-
# Edits that are written back and read again

Several parties share a value in memory and a file.  Each makes one edit of the value in
memory, saves the value to the file, reads the file, and installs what it has read in memory.
Each of the four steps of a party is taken at once, but other parties take steps in between.

Saving and installing overwrite what others have done.  `Kept` says that the file has the edit
of every party that has saved and the memory that of every party that is done; `Safe` is the
condition on a step under which it cannot break this.

* `Sound.step` : a safe step keeps every edit;
* `not_kept_of_not_safe` : a step that is not safe loses one;
* `along_four_steps` : a party that takes its steps in a row, with no other half way, is safe.
-/
import Border.Transition

namespace WriteBack

open Transition

/-- How far a party is, with the value it has read. -/
inductive Phase (γ : Type*)
  | idle
  | edited
  | saved
  | loaded (copy : γ)
  | done
  deriving DecidableEq

/-- The party has saved. -/
def Phase.HasSaved {γ : Type*} : Phase γ → Prop
  | .idle => False
  | .edited => False
  | .saved => True
  | .loaded _ => True
  | .done => True

instance {γ : Type*} : ∀ p : Phase γ, Decidable p.HasSaved
  | .idle => isFalse id
  | .edited => isFalse id
  | .saved => isTrue trivial
  | .loaded _ => isTrue trivial
  | .done => isTrue trivial

/-- The same phase with another view of the value that was read. -/
def Phase.map {γ δ : Type*} (f : γ → δ) : Phase γ → Phase δ
  | .idle => .idle
  | .edited => .edited
  | .saved => .saved
  | .loaded copy => .loaded (f copy)
  | .done => .done

theorem Phase.map_eq_done {γ δ : Type*} {f : γ → δ} {p : Phase γ} :
    p.map f = .done ↔ p = .done := by
  cases p <;> simp [Phase.map]

theorem Phase.hasSaved_map {γ δ : Type*} {f : γ → δ} {p : Phase γ} :
    (p.map f).HasSaved ↔ p.HasSaved := by
  cases p <;> exact Iff.rfl

/-- The value in memory, the value in the file if it can be read, and the parties. -/
structure Board (ι τ : Type*) where
  memory : τ
  file : Option τ
  phase : ι → Phase τ

variable {ι τ : Type*}

/-! ## Which edits are there -/

section Kept

variable (Has : ι → τ → Prop)

/-- The file has the edit of every party that has saved, and the memory that of every party
that is done. -/
structure Kept (b : Board ι τ) : Prop where
  file : ∀ i, (b.phase i).HasSaved → ∃ t, b.file = some t ∧ Has i t
  memory : ∀ i, b.phase i = .done → Has i b.memory

/-- The invariant of safe runs: every edit is kept, and what a party has read has its own. -/
structure Sound (b : Board ι τ) : Prop extends Kept Has b where
  loaded : ∀ i t, b.phase i = .loaded t → Has i t

/-- Before the first step nothing is asked of the file. -/
theorem sound_idle {b : Board ι τ} (hidle : ∀ i, b.phase i = .idle) : Sound Has b := by
  refine ⟨⟨fun i h => ?_, fun i h => ?_⟩, fun i t h => ?_⟩
  all_goals
    rw [hidle i] at h
    exact absurd h (by simp [Phase.HasSaved])

/-- What a step of party `i` in the given phase overwrites has nothing that others rely on and
that is not in what it writes: a value that is saved has the edits of the party itself and of
those that have saved, and one that is installed has the edits of the parties that are done. -/
def SafeIn (b : Board ι τ) (i : ι) : Phase τ → Prop
  | .idle => True
  | .edited => Has i b.memory ∧ ∀ j, (b.phase j).HasSaved → Has j b.memory
  | .saved => True
  | .loaded t => ∀ j, b.phase j = .done → Has j t
  | .done => True

/-- The next step of party `i` is safe. -/
def Safe (b : Board ι τ) (i : ι) : Prop := SafeIn Has b i (b.phase i)

instance [Fintype ι] [DecidableEq τ] [∀ i t, Decidable (Has i t)] (b : Board ι τ) (i : ι) :
    ∀ p : Phase τ, Decidable (SafeIn Has b i p)
  | .idle => isTrue trivial
  | .edited =>
    inferInstanceAs (Decidable (Has i b.memory ∧ ∀ j, (b.phase j).HasSaved → Has j b.memory))
  | .saved => isTrue trivial
  | .loaded t => inferInstanceAs (Decidable (∀ j, b.phase j = .done → Has j t))
  | .done => isTrue trivial

instance [Fintype ι] [DecidableEq τ] [∀ i t, Decidable (Has i t)] (b : Board ι τ) (i : ι) :
    Decidable (Safe Has b i) :=
  inferInstanceAs (Decidable (SafeIn Has b i (b.phase i)))

end Kept

/-! ## Steps -/

section Steps

variable [DecidableEq ι]

/-- Party `i` gets to a phase. -/
def Board.move (b : Board ι τ) (i : ι) (p : Phase τ) : Board ι τ :=
  { b with phase := Function.update b.phase i p }

/-- The next step of party `i`. -/
def step (edit : ι → τ → Option τ) (b : Board ι τ) (i : ι) : Option (Board ι τ) :=
  match b.phase i with
  | .idle => (edit i b.memory).map fun t => { b.move i .edited with memory := t }
  | .edited => some { b.move i .saved with file := some b.memory }
  | .saved => b.file.map fun t => b.move i (.loaded t)
  | .loaded t => some { b.move i .done with memory := t }
  | .done => none

theorem Board.phase_move (b : Board ι τ) (i : ι) (p : Phase τ) (j : ι) :
    ((b.move i p).phase j = p ∧ j = i) ∨ ((b.move i p).phase j = b.phase j ∧ j ≠ i) := by
  by_cases hj : j = i
  · subst hj
    exact Or.inl ⟨Function.update_self .., rfl⟩
  · exact Or.inr ⟨Function.update_of_ne hj .., hj⟩

variable {edit : ι → τ → Option τ} {Has : ι → τ → Prop} {b b' : Board ι τ} {i : ι}

theorem Sound.afterEdit {t : τ} (hb : Sound Has b)
    (hothers : ∀ j, j ≠ i → Has j b.memory → Has j t) :
    Sound Has { b.move i .edited with memory := t } := by
  refine ⟨⟨fun j hj => ?_, fun j hj => ?_⟩, fun j u hj => ?_⟩
  all_goals
    rcases b.phase_move i .edited j with ⟨heq, rfl⟩ | ⟨heq, hne⟩
    · rw [heq] at hj
      exact absurd hj (by simp [Phase.HasSaved])
    rw [heq] at hj
  · exact hb.file j hj
  · exact hothers j hne (hb.memory j hj)
  · exact hb.loaded j u hj

/-- The value that is saved has the edit of the party that saves it, and of all that have saved
before. -/
theorem Sound.afterSave (hb : Sound Has b) (hown : Has i b.memory)
    (hothers : ∀ j, (b.phase j).HasSaved → Has j b.memory) :
    Sound Has { b.move i .saved with file := some b.memory } := by
  refine ⟨⟨fun j hj => ⟨b.memory, rfl, ?_⟩, fun j hj => ?_⟩, fun j u hj => ?_⟩
  all_goals rcases b.phase_move i .saved j with ⟨heq, rfl⟩ | ⟨heq, hne⟩
  all_goals rw [heq] at hj
  · exact hown
  · exact hothers j hj
  · exact absurd hj (by simp)
  · exact hb.memory j hj
  · exact absurd hj (by simp)
  · exact hb.loaded j u hj

/-- A party reads what has been saved, by itself or after it. -/
theorem Sound.afterRead {t : τ} (hb : Sound Has b) (hphase : b.phase i = .saved)
    (ht : b.file = some t) : Sound Has (b.move i (.loaded t)) := by
  obtain ⟨t', hfile, hhas⟩ := hb.file i (by rw [hphase]; trivial)
  obtain rfl : t' = t := Option.some.inj (hfile.symm.trans ht)
  refine ⟨⟨fun j hj => ?_, fun j hj => ?_⟩, fun j u hj => ?_⟩
  all_goals rcases b.phase_move i (.loaded t') j with ⟨heq, rfl⟩ | ⟨heq, hne⟩
  all_goals rw [heq] at hj
  · exact ⟨t', hfile, hhas⟩
  · exact hb.file j hj
  · exact absurd hj (by simp)
  · exact hb.memory j hj
  · obtain rfl := Phase.loaded.inj hj
    exact hhas
  · exact hb.loaded j u hj

/-- What a party has read has its own edit; those of the parties that are done are what the step
has to be careful about. -/
theorem Sound.afterInstall {t : τ} (hb : Sound Has b) (hphase : b.phase i = .loaded t)
    (hdone : ∀ j, b.phase j = .done → Has j t) :
    Sound Has { b.move i .done with memory := t } := by
  refine ⟨⟨fun j hj => ?_, fun j hj => ?_⟩, fun j u hj => ?_⟩
  all_goals rcases b.phase_move i .done j with ⟨heq, rfl⟩ | ⟨heq, hne⟩
  all_goals rw [heq] at hj
  · exact hb.file j (by rw [hphase]; trivial)
  · exact hb.file j hj
  · exact hb.loaded j t hphase
  · exact hdone j hj
  · exact absurd hj (by simp)
  · exact hb.loaded j u hj

/-- **A safe step keeps every edit**, when an edit keeps those of the others. -/
theorem Sound.step (hedit : ∀ i t t', edit i t = some t' → ∀ j, j ≠ i → Has j t → Has j t')
    (hb : Sound Has b) (hsafe : Safe Has b i) (h : step edit b i = some b') : Sound Has b' := by
  unfold Safe at hsafe
  unfold WriteBack.step at h
  -- The phase of party `i` decides which of the four steps it takes.
  cases hphase : b.phase i with
  | idle =>
    rw [hphase] at h
    obtain ⟨t, ht, rfl⟩ := Option.map_eq_some_iff.mp h
    exact hb.afterEdit (hedit i _ t ht)
  | edited =>
    rw [hphase] at h hsafe
    obtain rfl := Option.some.inj h
    exact hb.afterSave hsafe.1 hsafe.2
  | saved =>
    rw [hphase] at h
    obtain ⟨t, ht, rfl⟩ := Option.map_eq_some_iff.mp h
    exact hb.afterRead hphase ht
  | loaded t =>
    rw [hphase] at h hsafe
    obtain rfl := Option.some.inj h
    exact hb.afterInstall hphase hsafe
  | done =>
    rw [hphase] at h
    exact absurd h (by simp)

/-- **A step that is not safe loses an edit.** -/
theorem not_kept_of_not_safe (hsafe : ¬ Safe Has b i) (h : step edit b i = some b') :
    ¬ Kept Has b' := by
  intro hkept
  apply hsafe
  unfold Safe
  unfold WriteBack.step at h
  cases hphase : b.phase i with
  | idle | saved | done => trivial
  | edited =>
    rw [hphase] at h
    obtain rfl := Option.some.inj h
    have hin : ∀ j, ((b.move i .saved).phase j).HasSaved → Has j b.memory := by
      intro j hj
      obtain ⟨t, ht, hhas⟩ := hkept.file j hj
      rwa [Option.some.inj ht]
    refine ⟨hin i ?_, fun j hj => hin j ?_⟩
    · show (Function.update b.phase i .saved i).HasSaved
      rw [Function.update_self]
      trivial
    · rcases b.phase_move i .saved j with ⟨heq, -⟩ | ⟨heq, -⟩
      · rw [heq]
        trivial
      · rwa [heq]
  | loaded t =>
    rw [hphase] at h
    obtain rfl := Option.some.inj h
    intro j hj
    apply hkept.memory j
    rcases b.phase_move i .done j with ⟨heq, -⟩ | ⟨heq, -⟩
    · exact heq
    · exact heq.trans hj

/-- Reading and installing with nothing in between is safe. -/
theorem along_read_install (hb : Sound Has b) (hphase : b.phase i = .saved) :
    Along (step edit) (Safe Has) b [i, i] := by
  refine ⟨by rw [Safe, hphase]; trivial, fun b₁ h₁ => ⟨?_, fun _ _ => trivial⟩⟩
  rw [step, hphase] at h₁
  obtain ⟨t, ht, rfl⟩ := Option.map_eq_some_iff.mp h₁
  have hphase₁ : (b.move i (.loaded t)).phase i = .loaded t := Function.update_self ..
  rw [Safe, hphase₁]
  intro j hj
  rcases b.phase_move i (.loaded t) j with ⟨heq, -⟩ | ⟨heq, -⟩
  · exact absurd (heq.symm.trans hj) (by simp)
  · obtain ⟨t', ht', hhas⟩ := hb.file j (by rw [← heq, hj]; trivial)
    rwa [← Option.some.inj (ht'.symm.trans ht)]

/-- **A party alone is safe**: when every other party that has saved is done, and the edit is
made, the four steps of a party in a row are safe. -/
theorem along_four_steps (hedit : ∀ i t t', edit i t = some t' → ∀ j, j ≠ i → Has j t → Has j t')
    (hb : Sound Has b) (hidle : b.phase i = .idle)
    (hothers : ∀ j, (b.phase j).HasSaved → b.phase j = .done)
    (hmade : ∀ t, edit i b.memory = some t → Has i t) :
    Along (step edit) (Safe Has) b [i, i, i, i] := by
  have hsafe : Safe Has b i := by rw [Safe, hidle]; trivial
  refine ⟨hsafe, fun b₁ h₁ => ?_⟩
  have hb₁ := hb.step hedit hsafe h₁
  rw [step, hidle] at h₁
  obtain ⟨t, ht, rfl⟩ := Option.map_eq_some_iff.mp h₁
  have hphase₁ : (b.move i .edited).phase i = .edited := Function.update_self ..
  -- What is saved has the new edit, and those of the parties that are done.
  have hsafe₁ : Safe Has { b.move i .edited with memory := t } i := by
    rw [Safe, hphase₁]
    refine ⟨hmade t ht, fun j hj => ?_⟩
    rcases b.phase_move i .edited j with ⟨heq, -⟩ | ⟨heq, hne⟩
    · rw [heq] at hj
      exact hj.elim
    · rw [heq] at hj
      exact hedit i _ t ht j hne (hb.memory j (hothers j hj))
  refine ⟨hsafe₁, fun b₂ h₂ => ?_⟩
  have hb₂ := hb₁.step hedit hsafe₁ h₂
  rw [step, hphase₁] at h₂
  obtain rfl := Option.some.inj h₂
  exact along_read_install hb₂ (Function.update_self ..)

end Steps

end WriteBack
