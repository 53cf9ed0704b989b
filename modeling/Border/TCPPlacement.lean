/-
# Placing one TCP connection

The loop at `retry` in `forwardTCPConn` (`pkg/lb/tcp.go`), for one accepted connection.  A pass
selects an address with `getLowestBalancer` and dials it; an address whose dial fails leaves the
pool, and the loop goes back to `retry`.  It goes back there too when no address is selected, and
nothing else ends it but a dial that succeeds: with an empty pool it runs for ever.

* `placeConn_steps` : what the loop does are steps of the forwarder (`tcpStep`);
* `placeConn_ends_iff` : while every backend has room, the loop ends within one selection more
  than there are backends, whatever the orders, exactly when some backend can be dialed and
  the empty address does not stand in its way.
-/
import Border.RetryLoop
import Border.TCPBalancer

namespace Border

open Transition RetryLoop

/-! ## The loop -/

/-- The order in which a `range` loop meets a pool. -/
structure PoolOrder where
  list : Finset String → List String
  perm : ∀ pool, (list pool : Multiset String) = pool.val

/-- One pass of the loop at `retry`, with the outcome of the dial of each backend: the connection
is forwarded to an address, or the loop goes back to `retry`. -/
def Balancer.placePass (dial : String → Bool) (b : Balancer) (order : PoolOrder) :
    (Balancer × String) ⊕ Balancer :=
  let lowestAddr := b.getLowestBalancer (order.list b.backendAddresses)
  if lowestAddr ≠ "" then
    if dial lowestAddr then .inl (b.incrementCount lowestAddr, lowestAddr)
    else .inr ((b.incrementCount lowestAddr).removeBackend lowestAddr)
  else .inr b

/-- The loop, with the order in which each selection meets the pool; `none` while it is
running. -/
def Balancer.placeConn (dial : String → Bool) (b : Balancer) (orders : List PoolOrder) :
    Option (Balancer × String) :=
  attempts (Balancer.placePass dial) b orders

/-- Without an address to dial a pass changes nothing. -/
theorem placePass_none (dial : String → Bool) {b : Balancer} {order : PoolOrder}
    (h : b.getLowestBalancer (order.list b.backendAddresses) = "") :
    b.placePass dial order = .inr b := by
  unfold Balancer.placePass
  rw [h]
  exact if_neg (not_not.mpr rfl)

/-- A failed dial drops the backend. -/
theorem placePass_failed {dial : String → Bool} {b : Balancer} {order : PoolOrder} {addr : String}
    (h : b.getLowestBalancer (order.list b.backendAddresses) = addr) (hne : addr ≠ "")
    (hdial : dial addr = false) :
    b.placePass dial order = .inr ((b.incrementCount addr).removeBackend addr) := by
  unfold Balancer.placePass
  rw [h]
  dsimp only
  rw [if_pos hne, hdial]
  rfl

/-- A successful dial ends the loop. -/
theorem placePass_dialed {dial : String → Bool} {b : Balancer} {order : PoolOrder} {addr : String}
    (h : b.getLowestBalancer (order.list b.backendAddresses) = addr) (hne : addr ≠ "")
    (hdial : dial addr = true) :
    b.placePass dial order = .inl (b.incrementCount addr, addr) := by
  unfold Balancer.placePass
  rw [h]
  dsimp only
  rw [if_pos hne, hdial]
  rfl

/-- What a pass can come to. -/
theorem placePass_cases (dial : String → Bool) (b : Balancer) (order : PoolOrder) :
    (b.getLowestBalancer (order.list b.backendAddresses) = "" ∧
      b.placePass dial order = .inr b) ∨
    ∃ addr, b.getLowestBalancer (order.list b.backendAddresses) = addr ∧ addr ≠ "" ∧
      addr ∈ b.backendAddresses ∧
      ((dial addr = true ∧ b.placePass dial order = .inl (b.incrementCount addr, addr)) ∨
        (dial addr = false ∧
          b.placePass dial order = .inr ((b.incrementCount addr).removeBackend addr))) := by
  by_cases hfound : b.getLowestBalancer (order.list b.backendAddresses) = ""
  · exact Or.inl ⟨hfound, placePass_none dial hfound⟩
  · right
    have hpooled := (b.getLowestBalancer_room _ hfound).1
    rw [mem_order_iff (order.perm b.backendAddresses)] at hpooled
    refine ⟨_, rfl, hfound, hpooled, ?_⟩
    cases hdial : dial (b.getLowestBalancer (order.list b.backendAddresses)) with
    | true => exact Or.inl ⟨rfl, placePass_dialed rfl hfound hdial⟩
    | false => exact Or.inr ⟨rfl, placePass_failed rfl hfound hdial⟩

/-- **A pass is made of steps of the forwarder.** -/
theorem placePass_steps {s : TCPState} (hidle : s.selected = none) (dial : String → Bool)
    (order : PoolOrder) :
    (∀ b' addr, s.balancer.placePass dial order = .inl (b', addr) →
      ∃ as s', run tcpStep s as = some s' ∧ s'.balancer = b' ∧ s'.selected = none ∧
        s'.live = addr :: s.live) ∧
    ∀ b', s.balancer.placePass dial order = .inr b' →
      ∃ as s', run tcpStep s as = some s' ∧ s'.balancer = b' ∧ s'.selected = none ∧
        s'.live = s.live := by
  have hselect : tcpStep s (.select (order.list s.balancer.backendAddresses))
      = if s.balancer.getLowestBalancer (order.list s.balancer.backendAddresses) = "" then some s
        else some (TCPState.mk s.balancer
          (some (s.balancer.getLowestBalancer (order.list s.balancer.backendAddresses)))
          s.live s.failed) := by
    rw [tcpStep, if_pos ⟨hidle, order.perm _⟩]
  rcases placePass_cases dial s.balancer order with
    ⟨hnone, hpass⟩ | ⟨addr, haddr, hne, -, ⟨-, hpass⟩ | ⟨-, hpass⟩⟩
  · rw [hpass]
    refine ⟨fun b' addr h => absurd h (by simp), fun b' h => ?_⟩
    refine ⟨[.select (order.list s.balancer.backendAddresses)], s, ?_, Sum.inr.inj h, hidle, rfl⟩
    rw [run_cons, hselect, if_pos hnone]
    rfl
  · rw [hpass]
    refine ⟨fun b' addr' h => ?_, fun b' h => absurd h (by simp)⟩
    obtain ⟨rfl, rfl⟩ := Prod.mk.inj (Sum.inl.inj h)
    rw [haddr, if_neg hne] at hselect
    refine ⟨[.select (order.list s.balancer.backendAddresses), .dial true],
      ⟨s.balancer.incrementCount addr, none, addr :: s.live, s.failed⟩, ?_, rfl, rfl, rfl⟩
    rw [run_cons, hselect]
    rfl
  · rw [hpass]
    refine ⟨fun b' addr' h => absurd h (by simp), fun b' h => ?_⟩
    obtain rfl := Sum.inr.inj h
    rw [haddr, if_neg hne] at hselect
    refine ⟨[.select (order.list s.balancer.backendAddresses), .dial false],
      ⟨(s.balancer.incrementCount addr).removeBackend addr, none, s.live, insert addr s.failed⟩,
      ?_, rfl, rfl, rfl⟩
    rw [run_cons, hselect]
    rfl

/-- **The loop is made of steps of the forwarder.** -/
theorem placeConn_steps {s : TCPState} (hidle : s.selected = none) {dial : String → Bool}
    {orders : List PoolOrder} {b' : Balancer} {addr : String}
    (h : s.balancer.placeConn dial orders = some (b', addr)) :
    ∃ as s', run tcpStep s as = some s' ∧ s'.balancer = b' ∧ s'.selected = none ∧
      s'.live = addr :: s.live := by
  refine attempts_result
    (P := fun b => ∃ as t, run tcpStep s as = some t ∧ t.balancer = b ∧ t.selected = none ∧
      t.live = s.live)
    (R := fun r => ∃ as t, run tcpStep s as = some t ∧ t.balancer = r.1 ∧ t.selected = none ∧
      t.live = r.2 :: s.live) ?_ ?_ ⟨[], s, rfl, rfl, hidle, rfl⟩ h
  · rintro b order b₁ ⟨as, t, hrun, rfl, ht, hlive⟩ hpass
    obtain ⟨as', t', hrun', hb, ht', hlive'⟩ := (placePass_steps ht dial order).2 b₁ hpass
    exact ⟨as ++ as', t', (run_append hrun).trans hrun', hb, ht', hlive'.trans hlive⟩
  · rintro b order ⟨b₁, addr'⟩ ⟨as, t, hrun, rfl, ht, hlive⟩ hpass
    obtain ⟨as', t', hrun', hb, ht', hlive'⟩ := (placePass_steps ht dial order).1 b₁ addr' hpass
    refine ⟨as ++ as', t', (run_append hrun).trans hrun', hb, ht', ?_⟩
    rw [hlive', hlive]

/-! ## Pools that shrink -/

/-- A failed dial leaves the counts of the other backends. -/
theorem count_drop_of_ne (b : Balancer) {addr a : String} (hne : a ≠ addr) :
    ((b.incrementCount addr).removeBackend addr).count a = b.count a := by
  have hlookup : ((b.incrementCount addr).removeBackend addr).count a
      = (b.incrementCount addr).count a := by
    unfold Balancer.removeBackend Balancer.count
    rw [Finmap.lookup_erase_ne hne]
  rw [hlookup, Balancer.count_incrementCount, if_neg hne]

/-- Every backend of the pool has room. -/
def Balancer.Room (b : Balancer) : Prop := ∀ addr ∈ b.backendAddresses, b.count addr < b.maxConns

/-- Some backend can be dialed, and the empty address does not count as little. -/
def Balancer.CanPlace (dial : String → Bool) (b : Balancer) : Prop :=
  ∃ addr ∈ b.backendAddresses, addr ≠ "" ∧ dial addr = true ∧
    ("" ∈ b.backendAddresses → b.count addr < b.count "")

/-- What a retry leaves: the balancer as it was, or without an address whose dial fails. -/
theorem placePass_retry {dial : String → Bool} {b b' : Balancer} {order : PoolOrder}
    (h : b.placePass dial order = .inr b') :
    (b' = b ∧ b.getLowestBalancer (order.list b.backendAddresses) = "") ∨
      ∃ addr ∈ b.backendAddresses, addr ≠ "" ∧ dial addr = false ∧
        b' = (b.incrementCount addr).removeBackend addr := by
  rcases placePass_cases dial b order with
    ⟨hnone, hpass⟩ | ⟨addr, -, hne, hmem, ⟨-, hpass⟩ | ⟨hdial, hpass⟩⟩
  · rw [hpass] at h
    exact Or.inl ⟨(Sum.inr.inj h).symm, hnone⟩
  · rw [hpass] at h
    exact absurd h (by simp)
  · rw [hpass] at h
    exact Or.inr ⟨addr, hmem, hne, hdial, (Sum.inr.inj h).symm⟩

/-- Dropping a backend leaves room. -/
theorem room_drop {b : Balancer} (hroom : b.Room) (addr : String) :
    ((b.incrementCount addr).removeBackend addr).Room := by
  intro a ha
  obtain ⟨hne, ha⟩ := Finset.mem_erase.mp ha
  rw [count_drop_of_ne b hne]
  exact hroom a ha

/-- A drop of a backend whose dial fails changes nothing about what can be placed. -/
theorem canPlace_drop {dial : String → Bool} {b : Balancer} {addr : String} (hne : addr ≠ "")
    (hdial : dial addr = false) :
    ((b.incrementCount addr).removeBackend addr).CanPlace dial ↔ b.CanPlace dial := by
  have hempty : "" ∈ ((b.incrementCount addr).removeBackend addr).backendAddresses
      ↔ "" ∈ b.backendAddresses := by
    show "" ∈ b.backendAddresses.erase addr ↔ _
    rw [Finset.mem_erase]
    exact and_iff_right hne.symm
  have hcount := count_drop_of_ne b hne.symm
  constructor
  · rintro ⟨a, ha, hane, hok, hless⟩
    obtain ⟨haddr, ha⟩ := Finset.mem_erase.mp ha
    refine ⟨a, ha, hane, hok, fun h => ?_⟩
    rw [← hcount, ← count_drop_of_ne b haddr]
    exact hless (hempty.mpr h)
  · rintro ⟨a, ha, hane, hok, hless⟩
    have haddr : a ≠ addr := by
      rintro rfl
      rw [hok] at hdial
      exact absurd hdial (by simp)
    refine ⟨a, Finset.mem_erase.mpr ⟨haddr, ha⟩, hane, hok, fun h => ?_⟩
    rw [hcount, count_drop_of_ne b haddr]
    exact hless (hempty.mp h)

/-! ## Selections -/

/-- Once the loop of `getLowestBalancer` holds an address that the empty one cannot replace, it
ends with an address. -/
theorem foldl_lowestStep_ne_empty (b : Balancer) {order : List String} {lowest : String × ℤ}
    (hnamed : lowest.1 ≠ "") (hless : "" ∈ order → lowest.2 < b.count "") :
    (order.foldl b.lowestStep lowest).1 ≠ "" := by
  induction order generalizing lowest with
  | nil => exact hnamed
  | cons a order ih =>
    rw [List.foldl_cons]
    by_cases htake : b.count a < b.maxConns ∧ (lowest.1 = "" ∨ b.count a ≤ lowest.2)
    · have hle : b.count a ≤ lowest.2 := htake.2.resolve_left hnamed
      rw [Balancer.lowestStep_take htake]
      apply ih
      · rintro rfl
        have hlt := hless List.mem_cons_self
        omega
      · intro h
        exact lt_of_le_of_lt hle (hless (List.mem_cons_of_mem _ h))
    · rw [Balancer.lowestStep_keep htake]
      exact ih hnamed fun h => hless (List.mem_cons_of_mem _ h)

/-- An address with room is enough for a selection to find one, unless the empty address is
pooled and counts as little. -/
theorem getLowestBalancer_ne_empty (b : Balancer) {order : List String} {addr : String}
    (haddr : addr ∈ order) (hne : addr ≠ "") (hroom : b.count addr < b.maxConns)
    (hless : "" ∈ order → b.count addr < b.count "") : b.getLowestBalancer order ≠ "" := by
  obtain ⟨before, after, rfl⟩ := List.append_of_mem haddr
  have hafter : "" ∈ after → b.count addr < b.count "" := fun h => hless (by simp [h])
  unfold Balancer.getLowestBalancer
  rw [List.foldl_append, List.foldl_cons]
  -- the pair the loop holds when it meets the address
  generalize before.foldl b.lowestStep ("", 0) = lowest
  by_cases htake : b.count addr < b.maxConns ∧ (lowest.1 = "" ∨ b.count addr ≤ lowest.2)
  · rw [Balancer.lowestStep_take htake]
    exact foldl_lowestStep_ne_empty b hne hafter
  · rw [Balancer.lowestStep_keep htake]
    have hkept : ¬ (lowest.1 = "" ∨ b.count addr ≤ lowest.2) := fun h => htake ⟨hroom, h⟩
    push Not at hkept
    exact foldl_lowestStep_ne_empty b hkept.1 fun h => lt_trans hkept.2 (hafter h)

/-- The address a selection meets last is selected when it has room and nothing counts less. -/
theorem getLowestBalancer_last (b : Balancer) {before : List String} {addr : String}
    (hroom : b.count addr < b.maxConns) (hleast : ∀ a ∈ before, b.count addr ≤ b.count a) :
    b.getLowestBalancer (before ++ [addr]) = addr := by
  unfold Balancer.getLowestBalancer
  rw [List.foldl_append, List.foldl_cons, List.foldl_nil]
  rcases b.foldl_lowestStep before ("", 0) with hkeep | ⟨a, ha, -, htaken⟩
  · rw [hkeep, Balancer.lowestStep_take ⟨hroom, Or.inl rfl⟩]
  · rw [htaken, Balancer.lowestStep_take ⟨hroom, Or.inr (hleast a ha)⟩]

/-- The pool in the order of the addresses, but with one of them last. -/
def PoolOrder.last (addr : String) : PoolOrder where
  list pool :=
    if addr ∈ pool then (pool.erase addr).sort (· ≤ ·) ++ [addr] else pool.sort (· ≤ ·)
  perm pool := by
    split_ifs with h
    · rw [← Multiset.coe_add, Finset.sort_eq, ← Finset.insert_erase h,
        Finset.insert_val_of_notMem (Finset.notMem_erase addr pool),
        Finset.erase_insert (Finset.notMem_erase addr pool), ← Multiset.singleton_add, add_comm]
      rfl
    · exact Finset.sort_eq _ _

/-- Any pooled address that counts least can be what a selection comes to. -/
theorem getLowestBalancer_poolOrder_last {b : Balancer} (hroom : b.Room) {addr : String}
    (haddr : addr ∈ b.backendAddresses)
    (hleast : ∀ a ∈ b.backendAddresses, b.count addr ≤ b.count a) :
    b.getLowestBalancer ((PoolOrder.last addr).list b.backendAddresses) = addr := by
  unfold PoolOrder.last
  dsimp only
  rw [if_pos haddr]
  apply getLowestBalancer_last b (hroom addr haddr)
  intro a ha
  rw [Finset.mem_sort] at ha
  exact hleast a (Finset.mem_of_mem_erase ha)

/-! ## When the loop ends -/

/-- A connection is forwarded to a pooled backend that can be dialed. -/
theorem placeConn_dialed {b b' : Balancer} {dial : String → Bool} {orders : List PoolOrder}
    {addr : String} (h : b.placeConn dial orders = some (b', addr)) :
    addr ∈ b.backendAddresses ∧ dial addr = true := by
  refine attempts_result (P := fun c => c.backendAddresses ⊆ b.backendAddresses)
    (R := fun r => r.2 ∈ b.backendAddresses ∧ dial r.2 = true) ?_ ?_ (Finset.Subset.refl _) h
  · intro c order c' hsub hpass
    rcases placePass_retry hpass with ⟨rfl, -⟩ | ⟨a, -, -, -, rfl⟩
    · exact hsub
    · exact (Finset.erase_subset _ _).trans hsub
  · intro c order r hsub hpass
    rcases placePass_cases dial c order with
      ⟨-, hretry⟩ | ⟨a, -, -, hmem, ⟨hok, hdone⟩ | ⟨-, hretry⟩⟩
    · rw [hretry] at hpass
      exact absurd hpass (by simp)
    · rw [hdone] at hpass
      rw [← Sum.inl.inj hpass]
      exact ⟨hsub hmem, hok⟩
    · rw [hretry] at hpass
      exact absurd hpass (by simp)

/-- **Termination.**  The pool is the measure: each retry takes a backend out of it that cannot
be dialed, and the one that can be stays. -/
theorem placeConn_ends {b : Balancer} {dial : String → Bool} (hroom : b.Room)
    (hcan : b.CanPlace dial) {orders : List PoolOrder}
    (hlen : b.backendAddresses.card < orders.length) :
    ∃ r, b.placeConn dial orders = some r := by
  refine attempts_ends (P := fun c => c.Room ∧ c.CanPlace dial)
    (μ := fun c => c.backendAddresses.card) ?_ ⟨hroom, hcan⟩ hlen
  rintro c order c' ⟨hroom, hcan⟩ hpass
  rcases placePass_retry hpass with ⟨-, hnone⟩ | ⟨a, ha, hne, hdial, rfl⟩
  · obtain ⟨addr, haddr, hne, -, hless⟩ := hcan
    have hmem := mem_order_iff (order.perm c.backendAddresses)
    refine absurd hnone (getLowestBalancer_ne_empty c ((hmem addr).mpr haddr) hne
      (hroom addr haddr) fun h => hless ((hmem "").mp h))
  · refine ⟨⟨room_drop hroom a, (canPlace_drop hne hdial).mpr hcan⟩, ?_⟩
    exact Finset.card_erase_lt_of_mem ha

/-- Where nothing can be placed, some order makes a pass go back to `retry`. -/
theorem exists_retry {b : Balancer} {dial : String → Bool} (hroom : b.Room)
    (hcan : ¬ b.CanPlace dial) :
    ∃ order b', b.placePass dial order = .inr b' ∧ b'.Room ∧ ¬ b'.CanPlace dial := by
  by_cases hempty : ∀ addr ∈ b.backendAddresses, "" ∈ b.backendAddresses ∧
      ∀ a ∈ b.backendAddresses, b.count "" ≤ b.count a
  · -- the pool is empty, or the empty address counts least: met last, it is selected
    refine ⟨PoolOrder.last "", b, placePass_none dial ?_, hroom, hcan⟩
    by_contra hfound
    have hpooled := (b.getLowestBalancer_room _ hfound).1
    rw [mem_order_iff ((PoolOrder.last "").perm b.backendAddresses)] at hpooled
    obtain ⟨hmem, hleast⟩ := hempty _ hpooled
    exact hfound (getLowestBalancer_poolOrder_last hroom hmem hleast)
  · -- some other address counts least, and less than the empty one: its dial fails
    push Not at hempty
    obtain ⟨addr, haddr, hother⟩ := hempty
    obtain ⟨least, hmem, hleast⟩ := Finset.exists_min_image b.backendAddresses b.count ⟨addr, haddr⟩
    have hless : "" ∈ b.backendAddresses → b.count least < b.count "" := by
      intro h
      obtain ⟨a, ha, hlt⟩ := hother h
      exact lt_of_le_of_lt (hleast a ha) hlt
    have hne : least ≠ "" := by
      rintro rfl
      exact absurd (hless hmem) (lt_irrefl _)
    have hdial : dial least = false := by
      by_contra hok
      exact hcan ⟨least, hmem, hne, Bool.eq_true_of_not_eq_false hok, hless⟩
    have hselected := getLowestBalancer_poolOrder_last hroom hmem hleast
    refine ⟨PoolOrder.last least, _, placePass_failed hselected hne hdial,
      room_drop hroom least, ?_⟩
    rw [canPlace_drop hne hdial]
    exact hcan

/-- Where no pooled backend can be dialed, the loop never ends. -/
theorem placeConn_never {b : Balancer} {dial : String → Bool}
    (hdial : ∀ addr ∈ b.backendAddresses, dial addr = false) (orders : List PoolOrder) :
    b.placeConn dial orders = none := by
  refine attempts_never (Q := fun c => ∀ addr ∈ c.backendAddresses, dial addr = false) ?_ hdial
    orders
  intro c order hdial
  rcases placePass_cases dial c order with
    ⟨-, hpass⟩ | ⟨addr, -, -, hmem, ⟨hok, -⟩ | ⟨-, hpass⟩⟩
  · exact ⟨c, hpass, hdial⟩
  · rw [hdial addr hmem] at hok
    exact absurd hok (by simp)
  · exact ⟨_, hpass, fun a ha => hdial a (Finset.mem_of_mem_erase ha)⟩

/-- **Placing a connection.**  For every pool whose backends all have room and every outcome of
their dials: the loop ends with a successful dial within one selection more than there are
backends, whatever the orders, exactly when a backend can be dialed that the empty address, if it
is pooled, does not keep from being selected.  Otherwise there are orders with which it never
ends, and if no dial succeeds it ends with none. -/
theorem placeConn_ends_iff (b : Balancer) (dial : String → Bool)
    (hroom : ∀ addr ∈ b.backendAddresses, b.count addr < b.maxConns) :
    ((∀ orders : List PoolOrder, orders.length = b.backendAddresses.card + 1 →
      ∃ b' addr, b.placeConn dial orders = some (b', addr) ∧ addr ∈ b.backendAddresses ∧
        dial addr = true) ↔ b.CanPlace dial) ∧
    (¬ b.CanPlace dial →
      ∃ orders : ℕ → PoolOrder, ∀ n, b.placeConn dial ((List.range n).map orders) = none) ∧
    ((∀ addr ∈ b.backendAddresses, dial addr = false) →
      ∀ orders, b.placeConn dial orders = none) := by
  have hendless : ¬ b.CanPlace dial →
      ∃ orders : ℕ → PoolOrder, ∀ n, b.placeConn dial ((List.range n).map orders) = none :=
    fun hcan => exists_endless (Q := fun c => c.Room ∧ ¬ c.CanPlace dial)
      (fun c hc => exists_retry hc.1 hc.2) ⟨hroom, hcan⟩
  refine ⟨⟨fun hends => ?_, fun hcan orders hlen => ?_⟩, hendless, placeConn_never⟩
  · by_contra hcan
    obtain ⟨orders, hrunning⟩ := hendless hcan
    obtain ⟨b', addr, hdone, -⟩ :=
      hends ((List.range (b.backendAddresses.card + 1)).map orders) (by simp)
    rw [hrunning] at hdone
    exact absurd hdone (by simp)
  · have hmore : b.backendAddresses.card < orders.length := by omega
    obtain ⟨⟨b', addr⟩, hdone⟩ := placeConn_ends hroom hcan hmore
    exact ⟨b', addr, hdone, placeConn_dialed hdone⟩

/-- A new balancer has room at every backend, with any cap that admits a connection. -/
theorem room_of_init {listenSpec : String} {config : BalancerConfig} {b : Balancer}
    (h : Balancer.init listenSpec config = some b)
    (hmax : 1 ≤ config.maxConnectionsPerAddress) : b.Room := by
  obtain ⟨hpool, hconns, hcap⟩ := Balancer.init_eq_some h
  intro addr haddr
  rw [hpool, List.mem_toFinset] at haddr
  have hcount : b.count addr = 0 := by
    apply Balancer.count_of_lookup
    rw [hconns, lookup_initConns, if_pos haddr]
  omega

/-- Two backends, of which the first refuses connections. -/
def oneDown : BalancerConfig := ⟨.tcp, ["127.0.0.1:1", "127.0.0.1:80"], 65535, 65535, 0⟩

theorem placeConn_ends_iff_oneDown :
    ∃ b, Balancer.init "127.0.0.1:0" oneDown = some b ∧
      ∀ orders : List PoolOrder, orders.length = b.backendAddresses.card + 1 →
        ∃ b' addr, b.placeConn (fun addr => addr = "127.0.0.1:80") orders = some (b', addr) ∧
          addr ∈ b.backendAddresses ∧ decide (addr = "127.0.0.1:80") = true := by
  obtain ⟨b, hinit⟩ : ∃ b, Balancer.init "127.0.0.1:0" oneDown = some b := ⟨_, rfl⟩
  have hpool := (Balancer.init_eq_some hinit).1
  refine ⟨b, hinit, (placeConn_ends_iff b _ (room_of_init hinit (by decide))).1.mpr ?_⟩
  unfold Balancer.CanPlace
  rw [hpool]
  exact ⟨"127.0.0.1:80", by decide, by decide, by decide, fun h => absurd h (by decide)⟩

/-- The balancer of `TestTCPDialErrors`: one backend, which refuses connections. -/
def dialErrors : BalancerConfig := ⟨.tcp, ["127.0.0.1:1"], 65535, 65535, 100000000⟩

/-- With the only backend down the loop ends neither within two selections nor ever. -/
theorem placeConn_dialErrors :
    ∃ b, Balancer.init "127.0.0.1:0" dialErrors = some b ∧ 1 ≤ b.maxConns ∧
      (∀ addr ∈ b.backendAddresses, b.count addr < b.maxConns) ∧ b.backendAddresses.card = 1 ∧
      ∀ orders, b.placeConn (fun _ => false) orders = none := by
  obtain ⟨b, hinit⟩ : ∃ b, Balancer.init "127.0.0.1:0" dialErrors = some b := ⟨_, rfl⟩
  obtain ⟨hpool, -, hcap⟩ := Balancer.init_eq_some hinit
  refine ⟨b, hinit, ?_, room_of_init hinit (by decide), ?_, placeConn_never fun _ _ => rfl⟩
  · rw [hcap]
    decide
  · rw [hpool]
    decide

/-! ## A pool without backends -/

/-- The forwarder waits at `retry`, with no backend left. -/
structure Emptied (s : TCPState) : Prop where
  pool : s.balancer.backendAddresses = ∅
  idle : s.selected = none

/-- A step from there changes the counts of connections that end, and nothing else. -/
theorem Emptied.step {s s' : TCPState} {a : TCPAct} (hs : Emptied s)
    (h : tcpStep s a = some s') : Emptied s' ∧ s'.live ⊆ s.live := by
  rcases tcpStep_cases h with rfl | ⟨addr, hmem, -⟩ | ⟨addr, hsel, -⟩ | ⟨addr, hsel, -⟩ |
    ⟨addr, -, rfl⟩
  · exact ⟨hs, fun _ h => h⟩
  · rw [hs.pool] at hmem
    exact absurd hmem (Finset.notMem_empty addr)
  · rw [hs.idle] at hsel
    exact absurd hsel (by simp)
  · rw [hs.idle] at hsel
    exact absurd hsel (by simp)
  · refine ⟨⟨?_, hs.idle⟩, fun _ h => List.mem_of_mem_erase h⟩
    show (s.balancer.decrementCount addr).backendAddresses = ∅
    rw [Balancer.backendAddresses_decrementCount]
    exact hs.pool

/-- **No connection is forwarded again** once the pool is empty: whatever happens later, the
forwarder stays at `retry`, and what is live was live before. -/
theorem Emptied.run {s s' : TCPState} {as : List TCPAct} (hs : Emptied s)
    (h : Transition.run tcpStep s as = some s') : Emptied s' ∧ s'.live ⊆ s.live := by
  refine run_invariant (P := fun t => Emptied t ∧ t.live ⊆ s.live) ?_ ⟨hs, fun _ h => h⟩ h
  rintro t a t' ⟨ht, hlive⟩ hstep
  obtain ⟨ht', hlive'⟩ := ht.step hstep
  exact ⟨ht', List.Subset.trans hlive' hlive⟩

end Border
