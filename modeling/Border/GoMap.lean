/-
# Range loops over Go maps

A Go map is a `Finmap`.  A `range` loop visits its keys in an order of its own, which
may differ from one loop to the next: a `RangeOrder` is one such choice for every
map, and what is proved for all of them does not depend on the order.

`rekey` is the loop that builds a new map out of an old one, with another key and
another value for each entry.  Two old keys may share a new one; the entry visited
last then counts.

`pickMax` is the loop that looks for the largest value.  `forall_pickMax_iff` says when
its result does not depend on the order: when one entry is larger than every other.
-/
import Mathlib

namespace GoMap

variable {K V : Type}

/-- The order in which a `range` loop visits the keys of a map. -/
structure RangeOrder (K V : Type) where
  keys : Finmap (fun _ : K => V) → List K
  nodup : ∀ m, (keys m).Nodup
  mem_keys : ∀ m k, k ∈ keys m ↔ k ∈ m

/-- The keys in increasing order. -/
def sortedKeys [LinearOrder K] (m : Finmap (fun _ : K => V)) : List K :=
  m.liftOn (fun s => s.keys.insertionSort (· ≤ ·)) fun s t hst => by
    have hkeys : s.keys.Perm t.keys := hst.map Sigma.fst
    have hperm : (s.keys.insertionSort (· ≤ ·)).Perm (t.keys.insertionSort (· ≤ ·)) :=
      ((List.perm_insertionSort _ _).trans hkeys).trans (List.perm_insertionSort _ _).symm
    exact hperm.eq_of_pairwise' (List.pairwise_insertionSort _ _) (List.pairwise_insertionSort _ _)

/-- The order of the keys themselves, as one possible order of a `range` loop. -/
def sortedOrder (K V : Type) [LinearOrder K] : RangeOrder K V where
  keys := sortedKeys
  nodup m := by
    induction m using Finmap.induction_on with
    | H s => exact (List.perm_insertionSort _ _).nodup_iff.mpr s.keys_nodup
  mem_keys m k := by
    induction m using Finmap.induction_on with
    | H s => exact (List.perm_insertionSort _ _).mem_iff

variable [DecidableEq K]

/-- One pass over the given keys, writing `g v` under `f k` for every entry. -/
def rekey (f : K → K) (g : V → V) (m : Finmap (fun _ : K => V)) :
    List K → Finmap (fun _ : K => V) → Finmap (fun _ : K => V)
  | [], acc => acc
  | k :: ks, acc =>
    match m.lookup k with
    | none => rekey f g m ks acc
    | some v => rekey f g m ks (acc.insert (f k) (g v))

/-- The keys of the new map are the images of the old ones. -/
theorem mem_rekey {f : K → K} {g : V → V} {m : Finmap (fun _ : K => V)} {ks : List K}
    {acc : Finmap (fun _ : K => V)} {k' : K} :
    k' ∈ rekey f g m ks acc ↔ k' ∈ acc ∨ ∃ k ∈ ks, k ∈ m ∧ f k = k' := by
  induction ks generalizing acc with
  | nil => simp [rekey]
  | cons k ks ih =>
    rw [rekey]
    cases hk : m.lookup k with
    | none =>
      have hnot : k ∉ m := Finmap.lookup_eq_none.mp hk
      rw [ih]
      simp [hnot]
    | some v =>
      have hmem : k ∈ m := Finmap.mem_of_lookup_eq_some hk
      rw [ih, Finmap.mem_insert]
      simp only [List.mem_cons, exists_eq_or_imp, hmem, true_and, eq_comm (a := k')]
      tauto

/-- An entry that stands under its new key stays there, when no other key that is still to
be visited has that new key. -/
theorem lookup_rekey_of_lookup {f : K → K} {g : V → V} {m : Finmap (fun _ : K => V)} {k : K} {v : V}
    (hv : m.lookup k = some v) {ks : List K} {acc : Finmap (fun _ : K => V)}
    (hks : ∀ l ∈ ks, f l = f k → l = k) (hacc : acc.lookup (f k) = some (g v)) :
    (rekey f g m ks acc).lookup (f k) = some (g v) := by
  induction ks generalizing acc with
  | nil => exact hacc
  | cons l ks ih =>
    have hrest : ∀ l ∈ ks, f l = f k → l = k := fun l hl => hks l (List.mem_cons_of_mem _ hl)
    rw [rekey]
    cases hl : m.lookup l with
    | none => exact ih hrest hacc
    | some w =>
      apply ih hrest
      by_cases hlk : f l = f k
      · obtain rfl := hks l List.mem_cons_self hlk
        obtain rfl : v = w := Option.some.inj (hv.symm.trans hl)
        exact Finmap.lookup_insert acc
      · rw [Finmap.lookup_insert_of_ne acc (Ne.symm hlk)]
        exact hacc

/-- Without collisions every entry is found under its new key. -/
theorem lookup_rekey {f : K → K} {g : V → V} {m : Finmap (fun _ : K => V)} {ks : List K}
    (hinj : ∀ k ∈ ks, ∀ l ∈ ks, f k = f l → k = l) {acc : Finmap (fun _ : K => V)} {k : K} {v : V}
    (hk : k ∈ ks) (hv : m.lookup k = some v) :
    (rekey f g m ks acc).lookup (f k) = some (g v) := by
  induction ks generalizing acc with
  | nil => exact absurd hk List.not_mem_nil
  | cons l ks ih =>
    rw [rekey]
    by_cases hlk : l = k
    · -- this visit of `k` writes the entry, and no later key touches it
      subst hlk
      rw [hv]
      apply lookup_rekey_of_lookup hv
      · intro l' hl' heq
        exact hinj l' (List.mem_cons_of_mem _ hl') l List.mem_cons_self heq
      · exact Finmap.lookup_insert acc
    · have hk' : k ∈ ks := (List.mem_cons.mp hk).resolve_left (Ne.symm hlk)
      have hinj' : ∀ k ∈ ks, ∀ l ∈ ks, f k = f l → k = l := fun a ha b hb =>
        hinj a (List.mem_cons_of_mem _ ha) b (List.mem_cons_of_mem _ hb)
      cases m.lookup l with
      | none => exact ih hinj' hk'
      | some w => exact ih hinj' hk'

/-- What stands in the new map comes from some entry of the old one. -/
theorem exists_of_lookup_rekey {f : K → K} {g : V → V} {m : Finmap (fun _ : K => V)} {ks : List K}
    {acc : Finmap (fun _ : K => V)} {k' : K} {v' : V}
    (h : (rekey f g m ks acc).lookup k' = some v') :
    acc.lookup k' = some v' ∨ ∃ k v, m.lookup k = some v ∧ f k = k' ∧ g v = v' := by
  induction ks generalizing acc with
  | nil => exact Or.inl h
  | cons k ks ih =>
    rw [rekey] at h
    cases hk : m.lookup k with
    | none =>
      rw [hk] at h
      exact ih h
    | some v =>
      rw [hk] at h
      rcases ih h with hacc | hsource
      · by_cases hkk : k' = f k
        · rw [hkk, Finmap.lookup_insert] at hacc
          exact Or.inr ⟨k, v, hk, hkk.symm, Option.some.inj hacc⟩
        · rw [Finmap.lookup_insert_of_ne acc hkk] at hacc
          exact Or.inl hacc
      · exact Or.inr hsource

/-- What is in the new map of a loop comes from the old one. -/
theorem exists_of_lookup_rekey_empty {f : K → K} {g : V → V} {m : Finmap (fun _ : K => V)}
    {ks : List K} {k' : K} {v' : V} (h : (rekey f g m ks ∅).lookup k' = some v') :
    ∃ k v, m.lookup k = some v ∧ f k = k' ∧ g v = v' := by
  rcases exists_of_lookup_rekey h with hempty | hsource
  · rw [Finmap.lookup_empty] at hempty
    exact absurd hempty (by simp)
  · exact hsource

/-- A map of a finite set onto itself that shrinks whatever it moves moves nothing. -/
theorem fixed_of_image_eq {S : Finset K} {f : K → K} {size : K → ℕ}
    (himage : S.image f = S) (hsize : ∀ k ∈ S, f k ≠ k → size (f k) < size k)
    {k : K} (hk : k ∈ S) : f k = k := by
  by_contra hne
  have hinj : Set.InjOn f S := Finset.injOn_of_card_image_eq (by rw [himage])
  have hle : ∀ l ∈ S, size (f l) ≤ size l := by
    intro l hl
    by_cases heq : f l = l
    · rw [heq]
    · exact (hsize l hl heq).le
  have hlt : ∑ l ∈ S, size (f l) < ∑ l ∈ S, size l :=
    Finset.sum_lt_sum hle ⟨k, hk, hsize k hk hne⟩
  have heq : ∑ l ∈ S, size (f l) = ∑ l ∈ S, size l := by
    rw [← Finset.sum_image hinj, himage]
  omega

/-! ## The largest entry -/

section Largest

variable [LinearOrder V]

/-- The loop that keeps the first entry with the largest value so far. -/
def pickMax (m : Finmap (fun _ : K => V)) : List K → K × V → K × V
  | [], best => best
  | k :: ks, best =>
    match m.lookup k with
    | none => pickMax m ks best
    | some v => if best.2 < v then pickMax m ks (k, v) else pickMax m ks best

/-- The entry under `k` is larger than `low` and than every other entry. -/
def Leads (m : Finmap (fun _ : K => V)) (low : V) (k : K) : Prop :=
  ∃ v, m.lookup k = some v ∧ low < v ∧ ∀ l w, m.lookup l = some w → l ≠ k → w < v

/-- What is not beaten stays. -/
theorem pickMax_of_le {m : Finmap (fun _ : K => V)} {ks : List K} {best : K × V}
    (h : ∀ k ∈ ks, ∀ v, m.lookup k = some v → v ≤ best.2) : pickMax m ks best = best := by
  induction ks with
  | nil => rfl
  | cons k ks ih =>
    have hrest := ih fun l hl => h l (List.mem_cons_of_mem _ hl)
    rw [pickMax]
    cases hk : m.lookup k with
    | none => exact hrest
    | some v =>
      have hle : ¬ best.2 < v := not_lt.mpr (h k List.mem_cons_self v hk)
      simp only [if_neg hle]
      exact hrest

/-- The loop ends at an entry that no other beats, unless none beats the start. -/
theorem pickMax_spec (m : Finmap (fun _ : K => V)) (ks : List K) (best : K × V) :
    (pickMax m ks best = best ∨ m.lookup (pickMax m ks best).1 = some (pickMax m ks best).2) ∧
      best.2 ≤ (pickMax m ks best).2 ∧
      ∀ k ∈ ks, ∀ v, m.lookup k = some v → v ≤ (pickMax m ks best).2 := by
  induction ks generalizing best with
  | nil => exact ⟨Or.inl rfl, le_refl _, fun k hk => absurd hk List.not_mem_nil⟩
  | cons l ks ih =>
    cases hl : m.lookup l with
    | none =>
      have hnext : pickMax m (l :: ks) best = pickMax m ks best := by rw [pickMax, hl]
      rw [hnext]
      obtain ⟨hfrom, hle, hall⟩ := ih best
      refine ⟨hfrom, hle, fun k hk v hv => ?_⟩
      rcases List.mem_cons.mp hk with rfl | hk
      · exact absurd (hl.symm.trans hv) (by simp)
      · exact hall k hk v hv
    | some w =>
      by_cases hlt : best.2 < w
      · have hnext : pickMax m (l :: ks) best = pickMax m ks (l, w) := by
          rw [pickMax, hl]
          exact if_pos hlt
        rw [hnext]
        obtain ⟨hfrom, hle, hall⟩ := ih (l, w)
        refine ⟨Or.inr ?_, le_trans hlt.le hle, fun k hk v hv => ?_⟩
        · rcases hfrom with heq | hsome
          · rw [heq]
            exact hl
          · exact hsome
        · rcases List.mem_cons.mp hk with rfl | hk
          · obtain rfl : w = v := Option.some.inj (hl.symm.trans hv)
            exact hle
          · exact hall k hk v hv
      · have hnext : pickMax m (l :: ks) best = pickMax m ks best := by
          rw [pickMax, hl]
          exact if_neg hlt
        rw [hnext]
        obtain ⟨hfrom, hle, hall⟩ := ih best
        refine ⟨hfrom, hle, fun k hk v hv => ?_⟩
        rcases List.mem_cons.mp hk with rfl | hk
        · obtain rfl : w = v := Option.some.inj (hl.symm.trans hv)
          exact le_trans (not_lt.mp hlt) hle
        · exact hall k hk v hv

/-- The order that visits one key before the others. -/
def RangeOrder.visitFirst (order : RangeOrder K V) (k : K) : RangeOrder K V where
  keys m := if k ∈ m then k :: (order.keys m).erase k else order.keys m
  nodup m := by
    by_cases hk : k ∈ m
    · rw [if_pos hk]
      exact List.nodup_cons.mpr ⟨(order.nodup m).not_mem_erase, (order.nodup m).erase k⟩
    · rw [if_neg hk]
      exact order.nodup m
  mem_keys m l := by
    by_cases hk : k ∈ m
    · rw [if_pos hk, List.mem_cons, (order.nodup m).mem_erase_iff, order.mem_keys]
      constructor
      · rintro (rfl | ⟨-, hl⟩)
        · exact hk
        · exact hl
      · intro hl
        by_cases hlk : l = k
        · exact Or.inl hlk
        · exact Or.inr ⟨hlk, hl⟩
    · rw [if_neg hk]
      exact order.mem_keys m l

/-- A largest entry that is visited first is the one that is kept. -/
theorem pickMax_visitFirst {m : Finmap (fun _ : K => V)} {k d : K} {v low : V}
    (hk : m.lookup k = some v) (hlow : low < v)
    (hmax : ∀ l w, m.lookup l = some w → w ≤ v) (order : RangeOrder K V) :
    pickMax m ((order.visitFirst k).keys m) (d, low) = (k, v) := by
  have hkeys : (order.visitFirst k).keys m = k :: (order.keys m).erase k :=
    if_pos (Finmap.mem_of_lookup_eq_some hk)
  rw [hkeys, pickMax, hk]
  simp only [if_pos hlow]
  exact pickMax_of_le fun l _ w hw => hmax l w hw

/-- **When the order does not matter.**  If some entry beats the start, every order of the
loop ends at `k` exactly when the entry under `k` is larger than every other one. -/
theorem forall_pickMax_iff {m : Finmap (fun _ : K => V)} {d k : K} {low : V}
    (order : RangeOrder K V) (hsome : ∃ l w, m.lookup l = some w ∧ low < w) :
    (∀ order : RangeOrder K V, (pickMax m (order.keys m) (d, low)).1 = k) ↔ Leads m low k := by
  constructor
  · intro h
    obtain ⟨l, w, hl, hlow⟩ := hsome
    have hvisit : ∀ l w, m.lookup l = some w → l ∈ order.keys m := fun l w hl =>
      (order.mem_keys m l).mpr (Finmap.mem_of_lookup_eq_some hl)
    obtain ⟨hfrom, -, hall⟩ := pickMax_spec m (order.keys m) (d, low)
    have hle := hall l (hvisit l w hl) w hl
    have hmax : m.lookup k = some (pickMax m (order.keys m) (d, low)).2 := by
      rw [← h order]
      rcases hfrom with heq | hsome
      · rw [heq] at hle
        exact absurd hlow (not_lt.mpr hle)
      · exact hsome
    refine ⟨_, hmax, lt_of_lt_of_le hlow hle, fun l' w' hl' hne => ?_⟩
    -- an entry that is as large would win when it is visited first
    rcases lt_or_eq_of_le (hall l' (hvisit l' w' hl') w' hl') with hlt | heq
    · exact hlt
    · have hfirst := pickMax_visitFirst (d := d) (hl'.trans (congrArg some heq))
        (lt_of_lt_of_le hlow hle) (fun l w hl => hall l (hvisit l w hl) w hl) order
      exact absurd ((congrArg Prod.fst hfirst).symm.trans (h (order.visitFirst l'))) hne
  · rintro ⟨v, hk, hlow, hlead⟩ order
    obtain ⟨hfrom, -, hall⟩ :=
      pickMax_spec m (order.keys m) (d, low)
    have hle := hall k ((order.mem_keys m k).mpr (Finmap.mem_of_lookup_eq_some hk)) v hk
    rcases hfrom with heq | hsome
    · rw [heq] at hle
      exact absurd hlow (not_lt.mpr hle)
    · by_contra hne
      exact absurd (hlead _ _ hsome hne) (not_lt.mpr hle)

end Largest

end GoMap
