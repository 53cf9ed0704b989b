/-
# Range loops over maps of pointers

A map whose values are pointers shares its objects with every other map that holds the same
pointers.  Here a pointer is an address, the objects stand in a heap, and `deref` is the map of
the values that a map of pointers leads to.

`rekeyObjects` is a loop that changes each object in place and builds a new map with other keys
and the same pointers; it stops at an object it cannot change.

* `deref_rekeyObjects` : seen through the map itself, the loop is the one on values,
  `rekeyInPlace`, provided that no two keys hold the same pointer;
* `rekeyObjects_complete` : a loop that ends has changed every object it has met, whichever map
  it is seen through.
-/
import Border.GoMap

namespace PointerMap

open GoMap

variable {K A V E : Type} [DecidableEq K] [DecidableEq A]

/-! ## The values a map leads to -/

/-- The entry with the object in the place of the pointer. -/
def derefEntry (heap : A → V) : (Σ _ : K, A) → Σ _ : K, V := Sigma.map id fun _ => heap

/-- The map of the objects. -/
def deref (heap : A → V) (m : Finmap (fun _ : K => A)) : Finmap (fun _ : K => V) :=
  m.liftOn
    (fun s => AList.toFinmap ⟨s.entries.map (derefEntry heap), by
      rw [List.NodupKeys, derefEntry, List.map₂_keys]
      exact s.nodupKeys⟩)
    fun s t hst => AList.toFinmap_eq.mpr (hst.map (derefEntry heap))

omit [DecidableEq A] in
theorem lookup_deref (heap : A → V) (m : Finmap (fun _ : K => A)) (k : K) :
    (deref heap m).lookup k = (m.lookup k).map heap := by
  induction m using Finmap.induction_on with
  | H s => exact List.dlookup_map₂ k

/-- No two keys hold the same pointer. -/
def NoAlias (m : Finmap (fun _ : K => A)) : Prop :=
  ∀ k l a, m.lookup k = some a → m.lookup l = some a → k = l

/-- Changing an object changes the value under its key. -/
theorem deref_update {heap : A → V} {m : Finmap (fun _ : K => A)} (hm : NoAlias m) {k : K} {a : A}
    (hk : m.lookup k = some a) (v : V) :
    deref (Function.update heap a v) m = (deref heap m).insert k v := by
  apply Finmap.ext_lookup
  intro l
  rw [lookup_deref]
  by_cases hl : l = k
  · subst hl
    rw [Finmap.lookup_insert, hk, Option.map_some, Function.update_self]
  · rw [Finmap.lookup_insert_of_ne _ hl, lookup_deref]
    cases hlookup : m.lookup l with
    | none => rfl
    | some b =>
      have hne : b ≠ a := by
        rintro rfl
        exact hl (hm l k b hlookup hk)
      rw [Option.map_some, Option.map_some, Function.update_of_ne hne]

/-- A map that does not hold the pointer does not see the change. -/
theorem deref_update_of_notMem {heap : A → V} {m : Finmap (fun _ : K => A)} {a : A}
    (hm : ∀ k, m.lookup k ≠ some a) (v : V) :
    deref (Function.update heap a v) m = deref heap m := by
  apply Finmap.ext_lookup
  intro k
  rw [lookup_deref, lookup_deref]
  cases hlookup : m.lookup k with
  | none => rfl
  | some b =>
    have hne : b ≠ a := by
      rintro rfl
      exact hm k hlookup
    rw [Option.map_some, Option.map_some, Function.update_of_ne hne]

omit [DecidableEq A] in
theorem deref_insert (heap : A → V) (m : Finmap (fun _ : K => A)) (k : K) (a : A) :
    deref heap (m.insert k a) = (deref heap m).insert k (heap a) := by
  apply Finmap.ext_lookup
  intro l
  rw [lookup_deref]
  by_cases hl : l = k
  · subst hl
    rw [Finmap.lookup_insert, Finmap.lookup_insert, Option.map_some]
  · rw [Finmap.lookup_insert_of_ne _ hl, Finmap.lookup_insert_of_ne _ hl, lookup_deref]

/-! ## The loop -/

/-- The loop over the given keys, on values: `g` changes one, or fails and leaves it half
changed.  The map it ranges over is left in the latter case, and the new one otherwise. -/
def rekeyInPlace (f : K → K) (g : V → V × Option E) :
    List K → Finmap (fun _ : K => V) → Finmap (fun _ : K => V) →
      Finmap (fun _ : K => V) × Option E
  | [], _, acc => (acc, none)
  | k :: ks, m, acc =>
    match m.lookup k with
    | none => rekeyInPlace f g ks m acc
    | some v =>
      match g v with
      | (v', some e) => (m.insert k v', some e)
      | (v', none) => rekeyInPlace f g ks (m.insert k v') (acc.insert (f k) v')

/-- The same loop on pointers, with the heap. -/
def rekeyObjects (f : K → K) (g : V → V × Option E) (m : Finmap (fun _ : K => A)) :
    List K → (A → V) → Finmap (fun _ : K => A) →
      (A → V) × Finmap (fun _ : K => A) × Option E
  | [], heap, acc => (heap, acc, none)
  | k :: ks, heap, acc =>
    match m.lookup k with
    | none => rekeyObjects f g m ks heap acc
    | some a =>
      match g (heap a) with
      | (v, some e) => (Function.update heap a v, m, some e)
      | (v, none) => rekeyObjects f g m ks (Function.update heap a v) (acc.insert (f k) a)

/-- **Seen through the map itself**, the loop on pointers is the loop on values. -/
theorem deref_rekeyObjects {f : K → K} {g : V → V × Option E} {m : Finmap (fun _ : K => A)}
    (hm : NoAlias m) {ks : List K} (hks : ks.Nodup) (heap : A → V) {acc : Finmap (fun _ : K => A)}
    (hacc : ∀ k ∈ ks, ∀ a, m.lookup k = some a → ∀ l, acc.lookup l ≠ some a) :
    deref (rekeyObjects f g m ks heap acc).1 (rekeyObjects f g m ks heap acc).2.1
        = (rekeyInPlace f g ks (deref heap m) (deref heap acc)).1 ∧
      (rekeyObjects f g m ks heap acc).2.2
        = (rekeyInPlace f g ks (deref heap m) (deref heap acc)).2 := by
  induction ks generalizing heap acc with
  | nil => exact ⟨rfl, rfl⟩
  | cons k ks ih =>
    obtain ⟨hk, hrest⟩ := List.nodup_cons.mp hks
    have hlookup := lookup_deref heap m k
    rw [rekeyObjects, rekeyInPlace, hlookup]
    cases ha : m.lookup k with
    | none => exact ih hrest heap fun l hl => hacc l (List.mem_cons_of_mem _ hl)
    | some a =>
      rw [Option.map_some]
      dsimp only
      cases hg : g (heap a) with
      | mk v failure =>
        cases failure with
        | some e => exact ⟨deref_update hm ha v, rfl⟩
        | none =>
          have hother : ∀ l, acc.lookup l ≠ some a := hacc k List.mem_cons_self a ha
          have hnew : deref (Function.update heap a v) (acc.insert (f k) a)
              = (deref heap acc).insert (f k) v := by
            rw [deref_insert, deref_update_of_notMem hother, Function.update_self]
          dsimp only
          rw [← deref_update hm ha v, ← hnew]
          refine ih hrest _ fun l hl b hb l' hl' => ?_
          -- an object that is still to be visited is not the one just visited
          by_cases hfk : l' = f k
          · rw [hfk, Finmap.lookup_insert] at hl'
            rw [← Option.some.inj hl'] at hb
            exact hk (hm l k a hb ha ▸ hl)
          · rw [Finmap.lookup_insert_of_ne _ hfk] at hl'
            exact hacc l (List.mem_cons_of_mem _ hl) b hb l' hl'

/-- **What a loop that ends leaves**: the new map holds the old pointers under their new keys,
every object that was met has been changed once, and no other has. -/
theorem rekeyObjects_complete {f : K → K} {g : V → V × Option E} {m : Finmap (fun _ : K => A)}
    (hm : NoAlias m) {ks : List K} (hks : ks.Nodup) {heap : A → V} {acc : Finmap (fun _ : K => A)}
    (h : (rekeyObjects f g m ks heap acc).2.2 = none) :
    (rekeyObjects f g m ks heap acc).2.1 = rekey f id m ks acc ∧
      (∀ k ∈ ks, ∀ a, m.lookup k = some a →
        (rekeyObjects f g m ks heap acc).1 a = (g (heap a)).1) ∧
      ∀ a, (∀ k ∈ ks, m.lookup k ≠ some a) → (rekeyObjects f g m ks heap acc).1 a = heap a := by
  induction ks generalizing heap acc with
  | nil => exact ⟨rfl, fun k hk => absurd hk List.not_mem_nil, fun a _ => rfl⟩
  | cons k ks ih =>
    obtain ⟨hk, hrest⟩ := List.nodup_cons.mp hks
    rw [rekeyObjects] at h ⊢
    rw [rekey]
    cases ha : m.lookup k with
    | none =>
      rw [ha] at h
      obtain ⟨hmap, hmet, hunmet⟩ := ih hrest h
      refine ⟨hmap, fun l hl a hla => ?_, fun a hnone => ?_⟩
      · rcases List.mem_cons.mp hl with rfl | hl
        · rw [ha] at hla
          exact absurd hla (by simp)
        · exact hmet l hl a hla
      · exact hunmet a fun l hl => hnone l (List.mem_cons_of_mem _ hl)
    | some a =>
      rw [ha] at h
      dsimp only at h ⊢
      cases hg : g (heap a) with
      | mk v failure =>
        rw [hg] at h
        cases failure with
        | some e => exact absurd h (by simp)
        | none =>
          dsimp only at h ⊢
          obtain ⟨hmap, hmet, hunmet⟩ := ih hrest h
          -- the keys that are still to be visited lead to other objects
          have hlater : ∀ l ∈ ks, m.lookup l ≠ some a := fun l hl hla => hk (hm l k a hla ha ▸ hl)
          refine ⟨hmap, fun l hl b hlb => ?_, fun b hnone => ?_⟩
          · rcases List.mem_cons.mp hl with rfl | hl
            · obtain rfl := Option.some.inj (ha.symm.trans hlb)
              rw [hunmet a hlater, Function.update_self, hg]
            · have hne : b ≠ a := by
                rintro rfl
                exact hlater l hl hlb
              rw [hmet l hl b hlb, Function.update_of_ne hne]
          · have hne : b ≠ a := by
              rintro rfl
              exact hnone k List.mem_cons_self ha
            rw [hunmet b fun l hl => hnone l (List.mem_cons_of_mem _ hl), Function.update_of_ne hne]

end PointerMap
