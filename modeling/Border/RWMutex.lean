/-
# Mutexes with readers and writers

`sync.RWMutex` with the threads that hold it.  `Lock` has two parts: a thread first keeps the other
writers out, and from then on no new reader comes in; then it waits for the readers that are inside.

`Exclusive` is what the mutex is for, and every operation keeps it.
-/
import Mathlib

namespace GoSync

variable {ι : Type*} [DecidableEq ι]

/-- A mutex: who reads, who waits for the readers to leave, and who writes. -/
structure RWMutex (ι : Type*) where
  readers : Finset ι
  pending : Option ι
  writer : Option ι

namespace RWMutex

/-- Nobody is inside. -/
def free : RWMutex ι := ⟨∅, none, none⟩

/-- `RLock`. -/
def rlock (t : ι) (m : RWMutex ι) : Option (RWMutex ι) :=
  if m.pending = none ∧ m.writer = none ∧ t ∉ m.readers then
    some { m with readers := insert t m.readers }
  else none

/-- `RUnlock`. -/
def runlock (t : ι) (m : RWMutex ι) : Option (RWMutex ι) :=
  if t ∈ m.readers then some { m with readers := m.readers.erase t } else none

/-- The first part of `Lock`. -/
def announce (t : ι) (m : RWMutex ι) : Option (RWMutex ι) :=
  if m.pending = none ∧ m.writer = none then some { m with pending := some t } else none

/-- The second part of `Lock`. -/
def acquire (t : ι) (m : RWMutex ι) : Option (RWMutex ι) :=
  if m.pending = some t ∧ m.readers = ∅ then some ⟨∅, none, some t⟩ else none

/-- `Unlock`. -/
def unlock (t : ι) (m : RWMutex ι) : Option (RWMutex ι) :=
  if m.writer = some t then some { m with writer := none } else none

/-- Who writes is alone. -/
def Exclusive (m : RWMutex ι) : Prop := m.writer ≠ none → m.readers = ∅ ∧ m.pending = none

variable {m m' : RWMutex ι} {t u : ι}

/-- A reader comes in only when nobody writes or waits to. -/
theorem rlock_eq_some (h : m.rlock t = some m') :
    m.pending = none ∧ m.writer = none ∧ t ∉ m.readers ∧
      m' = { m with readers := insert t m.readers } := by
  rw [rlock, Option.ite_none_right_eq_some, Option.some.injEq] at h
  obtain ⟨⟨hpending, hwriter, ht⟩, rfl⟩ := h
  exact ⟨hpending, hwriter, ht, rfl⟩

theorem runlock_eq_some (h : m.runlock t = some m') :
    t ∈ m.readers ∧ m' = { m with readers := m.readers.erase t } := by
  rw [runlock, Option.ite_none_right_eq_some, Option.some.injEq] at h
  exact ⟨h.1, h.2.symm⟩

omit [DecidableEq ι] in
/-- One writer at a time waits. -/
theorem announce_eq_some (h : m.announce t = some m') :
    m.pending = none ∧ m.writer = none ∧ m' = { m with pending := some t } := by
  rw [announce, Option.ite_none_right_eq_some, Option.some.injEq] at h
  exact ⟨h.1.1, h.1.2, h.2.symm⟩

/-- The writer that waits comes in when the readers have left. -/
theorem acquire_eq_some (h : m.acquire t = some m') :
    m.pending = some t ∧ m.readers = ∅ ∧ m' = ⟨∅, none, some t⟩ := by
  rw [acquire, Option.ite_none_right_eq_some, Option.some.injEq] at h
  exact ⟨h.1.1, h.1.2, h.2.symm⟩

theorem unlock_eq_some (h : m.unlock t = some m') :
    m.writer = some t ∧ m' = { m with writer := none } := by
  rw [unlock, Option.ite_none_right_eq_some, Option.some.injEq] at h
  exact ⟨h.1, h.2.symm⟩

omit [DecidableEq ι] in
/-- Exclusion holds of a free mutex, and each of the five operations keeps it. -/
theorem exclusive_free : (free : RWMutex ι).Exclusive := fun h => absurd rfl h

theorem Exclusive.rlock (h : m.rlock t = some m') : m'.Exclusive := by
  obtain ⟨-, hwriter, -, rfl⟩ := rlock_eq_some h
  exact fun hne => absurd hwriter hne

/-- A reader that leaves shows that nobody writes. -/
theorem Exclusive.runlock (hm : m.Exclusive) (h : m.runlock t = some m') : m'.Exclusive := by
  obtain ⟨ht, rfl⟩ := runlock_eq_some h
  intro hne
  rw [(hm hne).1] at ht
  exact absurd ht (Finset.notMem_empty t)

omit [DecidableEq ι] in
theorem Exclusive.announce (h : m.announce t = some m') : m'.Exclusive := by
  obtain ⟨-, hwriter, rfl⟩ := announce_eq_some h
  exact fun hne => absurd hwriter hne

theorem Exclusive.acquire (h : m.acquire t = some m') : m'.Exclusive := by
  obtain ⟨-, -, rfl⟩ := acquire_eq_some h
  exact fun _ => ⟨rfl, rfl⟩

theorem Exclusive.unlock (h : m.unlock t = some m') : m'.Exclusive := by
  obtain ⟨-, rfl⟩ := unlock_eq_some h
  exact fun hne => absurd rfl hne

end RWMutex

end GoSync
