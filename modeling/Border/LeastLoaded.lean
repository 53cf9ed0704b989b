/-
# Giving each unit of work to a least loaded place

A finite set of places carries a load each.  When every new unit goes to a place that no
other is below, the loads never come further apart than one (`Level.add_one`), and loads that
are level are the mean rounded down or up (`Level.floor_or_ceil`).
-/
import Mathlib

namespace LeastLoaded

variable {α : Type} {s : Finset α} {load : α → ℤ}

/-- The loads of the places are at most one apart. -/
def Level (s : Finset α) (load : α → ℤ) : Prop := ∀ a ∈ s, ∀ b ∈ s, load a ≤ load b + 1

/-- Some place is below `m` as long as the sum is below `m` for every place. -/
theorem exists_lt_of_sum_lt {m : ℤ} (h : ∑ x ∈ s, load x < s.card * m) : ∃ a ∈ s, load a < m := by
  by_contra hnone
  push Not at hnone
  have hle := Finset.card_nsmul_le_sum s load m hnone
  rw [nsmul_eq_mul] at hle
  exact absurd h (not_lt.mpr hle)

variable [DecidableEq α]

/-- One more unit at the place `a`. -/
def addUnit (load : α → ℤ) (a : α) : α → ℤ := Function.update load a (load a + 1)

theorem addUnit_self (load : α → ℤ) (a : α) : addUnit load a a = load a + 1 :=
  Function.update_self a _ load

theorem addUnit_of_ne (load : α → ℤ) {a b : α} (h : b ≠ a) : addUnit load a b = load b :=
  Function.update_of_ne h _ load

/-- **The step.**  A unit given to a lowest place leaves the loads level. -/
theorem Level.add_one (h : Level s load) {a : α} (hmin : ∀ b ∈ s, load a ≤ load b) :
    Level s (addUnit load a) := by
  intro x hx y hy
  have hxy := h x hx y hy
  have hy' := hmin y hy
  by_cases hxa : x = a
  · by_cases hya : y = a
    · rw [hxa, hya]
      omega
    · rw [hxa, addUnit_self, addUnit_of_ne load hya]
      omega
  · rw [addUnit_of_ne load hxa]
    by_cases hya : y = a
    · subst hya
      rw [addUnit_self]
      omega
    · rw [addUnit_of_ne load hya]
      exact hxy

/-- The step adds one to the sum. -/
theorem sum_addUnit (load : α → ℤ) {a : α} (ha : a ∈ s) :
    ∑ x ∈ s, addUnit load a x = ∑ x ∈ s, load x + 1 := by
  unfold addUnit
  rw [Finset.sum_update_of_mem ha, ← Finset.sum_erase_add s load ha,
    Finset.sdiff_singleton_eq_erase]
  omega

/-- A level load exceeds no other by more than one, and itself not at all. -/
theorem Level.card_mul_le (h : Level s load) {a : α} (ha : a ∈ s) :
    s.card * load a + 1 ≤ ∑ x ∈ s, load x + s.card := by
  have hrest : ∑ x ∈ s.erase a, load a ≤ ∑ x ∈ s.erase a, (load x + 1) :=
    Finset.sum_le_sum fun x hx => h a ha x (Finset.mem_of_mem_erase hx)
  rw [Finset.sum_add_distrib] at hrest
  rw [← Finset.sum_erase_add s load ha]
  have hcard : ((s.erase a).card : ℤ) + 1 = s.card := by
    exact_mod_cast Finset.card_erase_add_one ha
  simp only [Finset.sum_const, nsmul_eq_mul, mul_one] at hrest
  rw [← hcard, add_mul]
  omega

/-- A level load falls short of no other by more than one. -/
theorem Level.sum_le_card_mul (h : Level s load) {a : α} (ha : a ∈ s) :
    ∑ x ∈ s, load x + 1 ≤ s.card * load a + s.card := by
  have hrest : ∑ x ∈ s.erase a, load x ≤ ∑ x ∈ s.erase a, (load a + 1) :=
    Finset.sum_le_sum fun x hx => h x (Finset.mem_of_mem_erase hx) a ha
  rw [← Finset.sum_erase_add s load ha]
  have hcard : ((s.erase a).card : ℤ) + 1 = s.card := by
    exact_mod_cast Finset.card_erase_add_one ha
  simp only [Finset.sum_const, nsmul_eq_mul] at hrest
  rw [← hcard]
  linarith

/-- **Level loads are the mean.**  With `k` units on `n` places each load is `k / n` rounded
down or rounded up. -/
theorem Level.floor_or_ceil (h : Level s load) {k : ℕ} (hsum : ∑ x ∈ s, load x = k) {a : α}
    (ha : a ∈ s) : load a = (k / s.card : ℕ) ∨ load a = (k ⌈/⌉ s.card : ℕ) := by
  have hupper := h.card_mul_le ha
  have hlower := h.sum_le_card_mul ha
  rw [hsum] at hupper hlower
  have hpos : 0 < s.card := Finset.card_pos.mpr ⟨a, ha⟩
  generalize s.card = n at *
  rw [Nat.ceilDiv_eq_add_pred_div]
  -- between the two bounds there are at most the two roundings
  have hdiv := Nat.div_add_mod k n
  have hmod := Nat.mod_lt k hpos
  generalize hq : k / n = q at *
  generalize k % n = r at *
  have hfloor : (q : ℤ) ≤ load a := by
    by_contra hlt
    have hle : load a + 1 ≤ q := by omega
    have hmul : (n : ℤ) * (load a + 1) ≤ n * q := mul_le_mul_of_nonneg_left hle (by omega)
    have hk : (k : ℤ) = n * q + r := by exact_mod_cast hdiv.symm
    linarith
  have hceil : load a ≤ q + 1 := by
    by_contra hlt
    have hle : (q : ℤ) + 2 ≤ load a := by omega
    have hmul : (n : ℤ) * (q + 2) ≤ n * load a := mul_le_mul_of_nonneg_left hle (by omega)
    have hk : (k : ℤ) = n * q + r := by exact_mod_cast hdiv.symm
    have hr : (r : ℤ) < n := by exact_mod_cast hmod
    linarith
  rcases eq_or_lt_of_le hfloor with heq | hlt
  · exact Or.inl heq.symm
  · right
    have hload : load a = q + 1 := by omega
    -- above the floor, something is left over
    have hr : 0 < r := by
      by_contra hzero
      have hk : (k : ℤ) = n * q + r := by exact_mod_cast hdiv.symm
      have hr0 : (r : ℤ) = 0 := by omega
      rw [hload, hk, hr0] at hupper
      linarith
    have hq' : (k + n - 1) / n = q + 1 := by
      rw [← hdiv]
      have hsplit : n * q + r + n - 1 = (r - 1) + n * (q + 1) := by
        rw [mul_add, mul_one]
        omega
      rw [hsplit, Nat.add_mul_div_left _ _ hpos, Nat.div_eq_of_lt (by omega)]
      omega
    rw [hload, hq']
    push_cast
    rfl

end LeastLoaded
