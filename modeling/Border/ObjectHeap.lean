/-
# Slices of new objects

A slice of pointers is filled by allocating an object for each element and changing it through
its pointer.  Here the heap is the list of the objects that were allocated, and a pointer is the
position of one.

* `build` : a new object and what is done to it;
* `buildEach_eq` : the loop over a slice leaves the objects that were there, and behind them one
  object for each element, at a pointer of its own.
-/
import Mathlib

namespace ObjectHeap

variable {V E α κ : Type}

/-- Change the object that a pointer leads to; `absent` is what comes of a pointer to none. -/
def updateAt (absent : E) (p : ℕ) (f : V → Except E V) (heap : List V) : Except E (List V) :=
  match heap[p]? with
  | none => .error absent
  | some v => (f v).map fun v' => heap.set p v'

/-- Allocate an object and assign the keys to it, one after the other, through its pointer. -/
def build (absent : E) (assign : κ → V → Except E V) (zero : V) (keys : List κ)
    (heap : List V) : Except E (List V × ℕ) :=
  (keys.foldlM (fun h key => updateAt absent heap.length (assign key) h) (heap ++ [zero])).map
    fun h => (h, heap.length)

/-- Fill a slice, with what `make` does for one element. -/
def buildEach (make : α → List V → Except E (List V × ℕ)) :
    List α → List V → Except E (List V × List ℕ)
  | [], heap => .ok (heap, [])
  | a :: as, heap =>
    match make a heap with
    | .error e => .error e
    | .ok (heap', p) => (buildEach make as heap').map fun r => (r.1, p :: r.2)

/-- The newest object is changed in its place. -/
theorem updateAt_length (absent : E) (f : V → Except E V) (heap : List V) (v : V) :
    updateAt absent heap.length f (heap ++ [v]) = (f v).map fun v' => heap ++ [v'] := by
  unfold updateAt
  simp

theorem foldlM_updateAt_length (absent : E) (assign : κ → V → Except E V) (keys : List κ)
    (heap : List V) (v : V) :
    keys.foldlM (fun h key => updateAt absent heap.length (assign key) h) (heap ++ [v])
      = (keys.foldlM (fun v key => assign key v) v).map fun v' => heap ++ [v'] := by
  induction keys generalizing v with
  | nil => rfl
  | cons key keys ih =>
    rw [List.foldlM_cons, List.foldlM_cons, updateAt_length]
    cases assign key v with
    | error e => rfl
    | ok v' => exact ih v'

/-- **A new object** is what the assignments make of the zero value, behind the objects that were
there. -/
theorem build_eq (absent : E) (assign : κ → V → Except E V) (zero : V) (keys : List κ)
    (heap : List V) :
    build absent assign zero keys heap
      = (keys.foldlM (fun v key => assign key v) zero).map
          fun v => (heap ++ [v], heap.length) := by
  unfold build
  rw [foldlM_updateAt_length]
  cases keys.foldlM (fun v key => assign key v) zero with
  | error e => rfl
  | ok v => rfl

/-- **A slice of new objects.**  When each element allocates one object with the value that
`value` gives it, the slice holds the pointers that follow one another behind the heap. -/
theorem buildEach_eq {make : α → List V → Except E (List V × ℕ)} {value : α → Except E V}
    (hmake : ∀ a heap, make a heap = (value a).map fun v => (heap ++ [v], heap.length))
    (as : List α) (heap : List V) :
    buildEach make as heap
      = (as.mapM value).map fun vs => (heap ++ vs, List.range' heap.length vs.length) := by
  induction as generalizing heap with
  | nil =>
    rw [buildEach, List.mapM_nil]
    show _ = Except.ok (heap ++ [], [])
    rw [List.append_nil]
  | cons a as ih =>
    rw [buildEach, hmake, List.mapM_cons]
    cases value a with
    | error e => rfl
    | ok v =>
      show (buildEach make as (heap ++ [v])).map _ = _
      rw [ih]
      cases as.mapM value with
      | error e => rfl
      | ok vs =>
        have hheap : heap ++ [v] ++ vs = heap ++ v :: vs := by simp
        have hptrs : heap.length :: List.range' (heap ++ [v]).length vs.length
            = List.range' heap.length (v :: vs).length := by
          rw [List.length_cons, List.range'_succ, List.length_append]
          rfl
        show Except.ok
            (heap ++ [v] ++ vs, heap.length :: List.range' (heap ++ [v]).length vs.length)
          = Except.ok (heap ++ v :: vs, List.range' heap.length (v :: vs).length)
        rw [hheap, hptrs]

/-- What the pointers behind a heap lead to. -/
theorem getElem?_append_range' (heap vs : List V) :
    List.Forall₂ (fun v p => (heap ++ vs)[p]? = some v) vs
      (List.range' heap.length vs.length) := by
  induction vs generalizing heap with
  | nil => exact .nil
  | cons v vs ih =>
    rw [List.length_cons, List.range'_succ]
    refine .cons (by simp) ?_
    have h := ih (heap ++ [v])
    rw [List.append_assoc, List.length_append] at h
    exact h

end ObjectHeap
