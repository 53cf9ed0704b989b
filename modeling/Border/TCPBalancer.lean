/-
# Accounting of the TCP balancer

Model of `forwardTCPConn` (`pkg/lb/tcp.go`) as a transition system.  One forwarder
goroutine selects an address with `getLowestBalancer` and later, under the lock,
counts the connection and dials; a failed dial removes the address from the pool
and selects again.  The `decrementCount` of every forwarded connection runs at any
later moment, in between as well.

The state carries two ghosts next to the balancer: the addresses of the forwarded
connections whose decrement has not run (`live`) and the addresses whose dial has
failed (`failed`).
-/
import Border.Transition
import Border.Balancer
import Border.LeastLoaded

namespace Border

open Transition LeastLoaded

/-- The balancer, the address the forwarder has selected and not yet dialed, and
the two ghosts. -/
structure TCPState where
  balancer : Balancer
  selected : Option String
  live : List String
  failed : Finset String

/-- The forwarder waits for its first connection. -/
def TCPState.ofBalancer (b : Balancer) : TCPState := ⟨b, none, [], ∅⟩

/-- One critical section. -/
inductive TCPAct
  /-- `getLowestBalancer`, meeting the pool in this order. -/
  | select (order : List String)
  /-- Increment and dial under the lock, with the outcome of the dial. -/
  | dial (ok : Bool)
  /-- The `decrementCount` of one forwarded connection. -/
  | decrement (addr : String)

/-- Execute one critical section; `none` when it is not enabled. -/
def tcpStep (s : TCPState) : TCPAct → Option TCPState
  | .select order =>
    if s.selected = none ∧ (order : Multiset String) = s.balancer.backendAddresses.val then
      let lowestAddr := s.balancer.getLowestBalancer order
      -- without an address to dial the forwarder goes to `retry`
      if lowestAddr = "" then some s else some { s with selected := some lowestAddr }
    else none
  | .dial ok =>
    match s.selected with
    | none => none
    | some addr =>
      if ok then
        some { s with
          balancer := s.balancer.incrementCount addr
          selected := none
          live := addr :: s.live }
      else
        some { s with
          balancer := (s.balancer.incrementCount addr).removeBackend addr
          selected := none
          failed := insert addr s.failed }
  | .decrement addr =>
    if addr ∈ s.live then
      some { s with
        balancer := s.balancer.decrementCount addr
        live := s.live.erase addr }
    else none

/-- What one section can do: nothing, a selection of a pooled address with room, a
successful or a failed dial of the selected address, or a decrement. -/
theorem tcpStep_cases {s s' : TCPState} {a : TCPAct} (h : tcpStep s a = some s') :
    s' = s ∨
    (∃ addr, addr ∈ s.balancer.backendAddresses ∧
      s.balancer.count addr < s.balancer.maxConns ∧ s' = { s with selected := some addr }) ∨
    (∃ addr, s.selected = some addr ∧
      s' = { s with balancer := s.balancer.incrementCount addr
                    selected := none
                    live := addr :: s.live }) ∨
    (∃ addr, s.selected = some addr ∧
      s' = { s with balancer := (s.balancer.incrementCount addr).removeBackend addr
                    selected := none
                    failed := insert addr s.failed }) ∨
    (∃ addr, addr ∈ s.live ∧
      s' = { s with balancer := s.balancer.decrementCount addr
                    live := s.live.erase addr }) := by
  cases a with
  | select order =>
    simp only [tcpStep] at h
    split_ifs at h with henabled hnone
    · exact Or.inl (Option.some.inj h).symm
    · right; left
      obtain ⟨hmem, hroom⟩ := s.balancer.getLowestBalancer_room order hnone
      refine ⟨_, ?_, hroom, (Option.some.inj h).symm⟩
      have hval : s.balancer.getLowestBalancer order ∈ (order : Multiset String) := hmem
      rw [henabled.2] at hval
      exact hval
  | dial ok =>
    simp only [tcpStep] at h
    split at h
    · exact absurd h (by simp)
    · rename_i addr hsel
      right; right
      split_ifs at h with hok
      · exact Or.inl ⟨addr, hsel, (Option.some.inj h).symm⟩
      · exact Or.inr (Or.inl ⟨addr, hsel, (Option.some.inj h).symm⟩)
  | decrement addr =>
    simp only [tcpStep] at h
    split_ifs at h with hlive
    right; right; right; right
    exact ⟨addr, hlive, (Option.some.inj h).symm⟩

/-! ## The invariant -/

/-- **The accounting invariant.** -/
structure Accounting (s : TCPState) : Prop where
  /-- The two maps have the same keys. -/
  keys : ∀ addr, addr ∈ s.balancer.backendAddresses ↔ addr ∈ s.balancer.backendConns
  /-- A count is the number of live connections. -/
  counts : ∀ addr c, s.balancer.backendConns.lookup addr = some c → c = s.live.count addr
  /-- No count exceeds the cap. -/
  bounded : ∀ addr c, s.balancer.backendConns.lookup addr = some c → c ≤ s.balancer.maxConns
  /-- The selected address is still pooled and still has room: only the forwarder
  itself removes addresses or raises counts. -/
  room : ∀ addr, s.selected = some addr →
    addr ∈ s.balancer.backendAddresses ∧ s.balancer.count addr < s.balancer.maxConns
  /-- An address whose dial failed is gone. -/
  gone : ∀ addr ∈ s.failed, addr ∉ s.balancer.backendAddresses

theorem Accounting.lookup_isSome {s : TCPState} (hs : Accounting s) {addr : String}
    (h : addr ∈ s.balancer.backendAddresses) :
    ∃ c, s.balancer.backendConns.lookup addr = some c := by
  have hmem := (hs.keys addr).mp h
  exact Option.isSome_iff_exists.mp (Finmap.lookup_isSome.mpr hmem)

/-- A balancer fresh from `Init` satisfies the invariant. -/
theorem accounting_init {listenSpec : String} {config : BalancerConfig} {b : Balancer}
    (hmax : 0 ≤ config.maxConnectionsPerAddress)
    (hb : Balancer.init listenSpec config = some b) : Accounting (TCPState.ofBalancer b) := by
  obtain ⟨haddrs, hconns, hcap⟩ := Balancer.init_eq_some hb
  have hzero : ∀ addr c, b.backendConns.lookup addr = some c → c = 0 := by
    intro addr c hc
    rw [hconns, lookup_initConns] at hc
    split_ifs at hc
    exact (Option.some.inj hc).symm
  refine ⟨fun addr => ?_, fun addr c hc => ?_, fun addr c hc => ?_, fun addr h => ?_,
    fun addr h => ?_⟩
  · show addr ∈ b.backendAddresses ↔ addr ∈ b.backendConns
    rw [haddrs, List.mem_toFinset, ← Finmap.lookup_isSome, hconns, lookup_initConns]
    by_cases hmem : addr ∈ config.backends <;> simp [hmem]
  · show c = (List.count addr [] : ℕ)
    rw [hzero addr c hc]
    simp
  · show c ≤ b.maxConns
    rw [hzero addr c hc, hcap]
    exact hmax
  · exact absurd h (by simp [TCPState.ofBalancer])
  · exact absurd h (Finset.notMem_empty addr)

/-- Selecting a pooled address with room keeps the invariant. -/
theorem Accounting.select {s : TCPState} (hs : Accounting s) {addr : String}
    (hmem : addr ∈ s.balancer.backendAddresses)
    (hroom : s.balancer.count addr < s.balancer.maxConns) :
    Accounting { s with selected := some addr } where
  keys := hs.keys
  counts := hs.counts
  bounded := hs.bounded
  room := by
    intro a ha
    obtain rfl : addr = a := Option.some.inj ha
    exact ⟨hmem, hroom⟩
  gone := hs.gone

/-- A successful dial of the selected address keeps the invariant: the count and
the number of live connections both grow by one, and the room seen at the
selection is still there. -/
theorem Accounting.dial {s : TCPState} (hs : Accounting s) {addr : String}
    (hsel : s.selected = some addr) :
    Accounting { s with balancer := s.balancer.incrementCount addr
                        selected := none
                        live := addr :: s.live } := by
  -- decrements since the selection can only have made more room
  obtain ⟨hmem, hroom⟩ := hs.room addr hsel
  obtain ⟨c₀, hc₀⟩ := hs.lookup_isSome hmem
  have hcount : s.balancer.count addr = c₀ := Balancer.count_of_lookup hc₀
  refine ⟨fun a => ?_, fun a c hc => ?_, fun a c hc => ?_, fun a ha => ?_, hs.gone⟩
  · show a ∈ s.balancer.backendAddresses
      ↔ a ∈ s.balancer.backendConns.insert addr (s.balancer.count addr + 1)
    rw [Finmap.mem_insert, hs.keys]
    constructor
    · exact Or.inr
    · rintro (rfl | ha)
      · exact (hs.keys a).mp hmem
      · exact ha
  · show c = ((addr :: s.live).count a : ℕ)
    change (s.balancer.backendConns.insert addr (s.balancer.count addr + 1)).lookup a
      = some c at hc
    by_cases ha : a = addr
    · subst ha
      rw [Finmap.lookup_insert] at hc
      have hlive := hs.counts a c₀ hc₀
      have hcc := Option.some.inj hc
      rw [List.count_cons_self]
      push_cast
      omega
    · rw [Finmap.lookup_insert_of_ne _ ha] at hc
      rw [List.count_cons_of_ne (fun h => ha h.symm)]
      exact hs.counts a c hc
  · show c ≤ s.balancer.maxConns
    change (s.balancer.backendConns.insert addr (s.balancer.count addr + 1)).lookup a
      = some c at hc
    by_cases ha : a = addr
    · subst ha
      rw [Finmap.lookup_insert] at hc
      have hcc := Option.some.inj hc
      omega
    · rw [Finmap.lookup_insert_of_ne _ ha] at hc
      exact hs.bounded a c hc
  · exact absurd ha (by simp)

/-- A failed dial keeps the invariant: the address leaves both maps at once. -/
theorem Accounting.dialFailed {s : TCPState} (hs : Accounting s) {addr : String} :
    Accounting { s with balancer := (s.balancer.incrementCount addr).removeBackend addr
                        selected := none
                        failed := insert addr s.failed } := by
  -- the increment is undone by the removal, so only other addresses are left
  have hlookup : ∀ a c,
      ((s.balancer.incrementCount addr).removeBackend addr).backendConns.lookup a = some c →
        a ≠ addr ∧ s.balancer.backendConns.lookup a = some c := by
    intro a c hc
    change ((s.balancer.backendConns.insert addr (s.balancer.count addr + 1)).erase addr).lookup a
      = some c at hc
    by_cases ha : a = addr
    · rw [ha, Finmap.lookup_erase] at hc
      exact absurd hc (by simp)
    · rw [Finmap.lookup_erase_ne ha, Finmap.lookup_insert_of_ne _ ha] at hc
      exact ⟨ha, hc⟩
  refine ⟨fun a => ?_, fun a c hc => ?_, fun a c hc => ?_, fun a ha => ?_, fun a ha => ?_⟩
  · show a ∈ s.balancer.backendAddresses.erase addr
      ↔ a ∈ (s.balancer.backendConns.insert addr (s.balancer.count addr + 1)).erase addr
    rw [Finset.mem_erase, Finmap.mem_erase, Finmap.mem_insert, hs.keys]
    constructor
    · rintro ⟨hne, ha⟩
      exact ⟨hne, Or.inr ha⟩
    · rintro ⟨hne, heq | ha⟩
      · exact absurd heq hne
      · exact ⟨hne, ha⟩
  · exact hs.counts a c (hlookup a c hc).2
  · exact hs.bounded a c (hlookup a c hc).2
  · exact absurd ha (by simp)
  · show a ∉ s.balancer.backendAddresses.erase addr
    rw [Finset.mem_erase, not_and]
    intro hne
    rw [Finset.mem_insert] at ha
    rcases ha with heq | ha
    · exact absurd heq hne
    · exact hs.gone a ha

/-- A decrement keeps the invariant: on a pooled address it undoes one dial, on a
removed one the guard makes it do nothing. -/
theorem Accounting.decrement {s : TCPState} (hs : Accounting s) {addr : String}
    (hlive : addr ∈ s.live) :
    Accounting { s with balancer := s.balancer.decrementCount addr
                        live := s.live.erase addr } := by
  have hpos : 0 < s.live.count addr := List.count_pos_iff.mpr hlive
  -- every count afterwards is the one before, less one at the decremented address
  have hlookup : ∀ a c, (s.balancer.decrementCount addr).backendConns.lookup a = some c →
      ∃ c₀, s.balancer.backendConns.lookup a = some c₀ ∧
        c = if a = addr then c₀ - 1 else c₀ := by
    intro a c hc
    rw [Balancer.lookup_decrementCount] at hc
    split_ifs at hc ⊢ with ha
    · rw [Option.map_eq_some_iff] at hc
      obtain ⟨c₀, hc₀, rfl⟩ := hc
      exact ⟨c₀, ha ▸ hc₀, rfl⟩
    · exact ⟨c, hc, rfl⟩
  refine ⟨fun a => ?_, fun a c hc => ?_, fun a c hc => ?_, fun a ha => ?_, fun a ha => ?_⟩
  · show a ∈ (s.balancer.decrementCount addr).backendAddresses
      ↔ a ∈ (s.balancer.decrementCount addr).backendConns
    rw [Balancer.backendAddresses_decrementCount, hs.keys, ← Finmap.lookup_isSome,
      ← Finmap.lookup_isSome, Balancer.lookup_decrementCount]
    by_cases haddr : a = addr
    · subst haddr
      simp
    · simp [haddr]
  · show c = ((s.live.erase addr).count a : ℕ)
    obtain ⟨c₀, hc₀, hcc⟩ := hlookup a c hc
    have hold := hs.counts a c₀ hc₀
    by_cases haddr : a = addr
    · subst haddr
      rw [if_pos rfl] at hcc
      rw [List.count_erase_self]
      omega
    · rw [if_neg haddr] at hcc
      rw [List.count_erase_of_ne haddr]
      omega
  · show c ≤ (s.balancer.decrementCount addr).maxConns
    rw [Balancer.maxConns_decrementCount]
    obtain ⟨c₀, hc₀, hcc⟩ := hlookup a c hc
    have hold := hs.bounded a c₀ hc₀
    split_ifs at hcc <;> omega
  · obtain ⟨hmem, hroom⟩ := hs.room a ha
    show a ∈ (s.balancer.decrementCount addr).backendAddresses ∧
      (s.balancer.decrementCount addr).count a < (s.balancer.decrementCount addr).maxConns
    rw [Balancer.backendAddresses_decrementCount, Balancer.maxConns_decrementCount]
    refine ⟨hmem, ?_⟩
    obtain ⟨c₀, hc₀⟩ := hs.lookup_isSome hmem
    rw [Balancer.count_of_lookup hc₀] at hroom
    have hle : (s.balancer.decrementCount addr).count a ≤ c₀ := by
      unfold Balancer.count
      rw [Balancer.lookup_decrementCount]
      by_cases haddr : a = addr
      · subst haddr
        rw [if_pos rfl, hc₀]
        show c₀ - 1 ≤ c₀
        omega
      · rw [if_neg haddr, hc₀]
        exact le_refl c₀
    omega
  · show a ∉ (s.balancer.decrementCount addr).backendAddresses
    rw [Balancer.backendAddresses_decrementCount]
    exact hs.gone a ha

/-- **One section.** -/
theorem Accounting.step {s s' : TCPState} {a : TCPAct} (hs : Accounting s)
    (h : tcpStep s a = some s') : Accounting s' := by
  rcases tcpStep_cases h with rfl | ⟨addr, hmem, hroom, rfl⟩ | ⟨addr, hsel, rfl⟩ |
    ⟨addr, -, rfl⟩ | ⟨addr, hlive, rfl⟩
  · exact hs
  · exact hs.select hmem hroom
  · exact hs.dial hsel
  · exact hs.dialFailed
  · exact hs.decrement hlive

/-! ## The main theorem -/

/-- **TCP accounting.**  In every state a balancer from `Init` with a cap of at
least zero reaches: the two maps have the same keys; the count of a pooled address
is the number of connections dialed to it whose decrement has not run, is not
negative and does not exceed the cap; and an address whose dial failed is neither
selected nor in either map. -/
theorem tcpRun_accounting (listenSpec : String) (config : BalancerConfig) (b : Balancer)
    (hmax : 0 ≤ config.maxConnectionsPerAddress)
    (hb : Balancer.init listenSpec config = some b) (as : List TCPAct) (s : TCPState)
    (hrun : run tcpStep (TCPState.ofBalancer b) as = some s) :
    (∀ addr, addr ∈ s.balancer.backendAddresses ↔ addr ∈ s.balancer.backendConns) ∧
    (∀ addr ∈ s.balancer.backendAddresses,
      s.balancer.backendConns.lookup addr = some (s.live.count addr : ℤ) ∧
      (s.live.count addr : ℤ) ≤ config.maxConnectionsPerAddress) ∧
    (∀ addr ∈ s.failed, s.selected ≠ some addr ∧ addr ∉ s.balancer.backendAddresses ∧
      addr ∉ s.balancer.backendConns) := by
  have hacc : Accounting s :=
    run_invariant (fun s a s' hs h => hs.step h) (accounting_init hmax hb) hrun
  -- no step touches the cap
  have hcap : s.balancer.maxConns = config.maxConnectionsPerAddress := by
    refine run_invariant (P := fun s => s.balancer.maxConns = config.maxConnectionsPerAddress)
      (fun s a s' hs h => ?_) (Balancer.init_eq_some hb).2.2 hrun
    rcases tcpStep_cases h with rfl | ⟨addr, -, -, rfl⟩ | ⟨addr, -, rfl⟩ | ⟨addr, -, rfl⟩ |
      ⟨addr, -, rfl⟩
    · exact hs
    · exact hs
    · exact hs
    · exact hs
    · exact (Balancer.maxConns_decrementCount _ _).trans hs
  refine ⟨hacc.keys, fun addr hmem => ?_, fun addr hfail => ?_⟩
  · obtain ⟨c, hc⟩ := hacc.lookup_isSome hmem
    have hcount := hacc.counts addr c hc
    have hbound := hacc.bounded addr c hc
    rw [hcap] at hbound
    exact ⟨by rw [hc, hcount], by omega⟩
  · have hgone := hacc.gone addr hfail
    exact ⟨fun hsel => hgone (hacc.room addr hsel).1, hgone,
      fun h => hgone ((hacc.keys addr).mpr h)⟩

/-- Two backends and one connection to each at most. -/
def twoBackends : BalancerConfig := ⟨.tcp, ["10.0.0.1:80", "10.0.0.2:80"], 16, 1, 0⟩

/-- The dial of the first choice fails, the second one succeeds. -/
def failover : List TCPAct :=
  [.select ["10.0.0.1:80", "10.0.0.2:80"], .dial false, .select ["10.0.0.1:80"], .dial true]

/-- After the failover the remaining backend counts its one connection and the
failed one is in neither map. -/
theorem tcpRun_accounting_failover :
    ∃ b s, Balancer.init "127.0.0.1:8000" twoBackends = some b ∧
      run tcpStep (TCPState.ofBalancer b) failover = some s ∧
      s.balancer.backendConns.lookup "10.0.0.1:80" = some 1 ∧
      "10.0.0.2:80" ∉ s.balancer.backendConns := by
  refine ⟨_, _, rfl, rfl, ?_, ?_⟩
  · exact ((tcpRun_accounting "127.0.0.1:8000" twoBackends _ (by decide) rfl failover _ rfl).2.1
      "10.0.0.1:80" (by decide)).1
  · exact ((tcpRun_accounting "127.0.0.1:8000" twoBackends _ (by decide) rfl failover _ rfl).2.2
      "10.0.0.2:80" (by decide)).2.2

/-! ## Forwarding without failures -/

/-- Each connection is forwarded to the address selected in its order, every dial
succeeds and no connection ends. -/
def forwards (orders : List (List String)) : List TCPAct :=
  orders.flatMap fun order => [.select order, .dial true]

/-- The forwarder is idle, its pool is `addrs`, and the counts are level and add up to
`k`. -/
structure Spread (addrs : Finset String) (cap : ℤ) (k : ℕ) (s : TCPState) : Prop where
  idle : s.selected = none
  pool : s.balancer.backendAddresses = addrs
  cap : s.balancer.maxConns = cap
  level : Level addrs s.balancer.count
  total : ∑ addr ∈ addrs, s.balancer.count addr = k

theorem Balancer.count_eq_addUnit (b : Balancer) (addr : String) :
    (b.incrementCount addr).count = addUnit b.count addr := by
  funext a
  rw [b.count_incrementCount]
  by_cases ha : a = addr
  · rw [if_pos ha, ha, addUnit_self]
  · rw [if_neg ha, addUnit_of_ne _ ha]

/-- **One connection.**  As long as there is room for one more, it is forwarded, and the
counts stay level. -/
theorem Spread.forward {addrs : Finset String} {cap : ℤ} {k : ℕ} {s : TCPState}
    (hs : Spread addrs cap k s) (hne : "" ∉ addrs) (hroom : (k : ℤ) < addrs.card * cap)
    {order : List String} (horder : (order : Multiset String) = addrs.val) :
    ∃ s', run tcpStep s [.select order, .dial true] = some s' ∧ Spread addrs cap (k + 1) s' := by
  have hmem := mem_order_iff horder
  obtain ⟨free, hfree, hlt⟩ : ∃ a ∈ addrs, s.balancer.count a < cap :=
    exists_lt_of_sum_lt (by rw [hs.total]; exact hroom)
  obtain ⟨hfound, hselected, hlowest⟩ := s.balancer.getLowestBalancer_lowest
    order (fun h => hne ((hmem "").mp h)) ((hmem free).mpr hfree) (hs.cap ▸ hlt)
  have hselect : tcpStep s (.select order)
      = some { s with selected := some (s.balancer.getLowestBalancer order) } := by
    rw [tcpStep, if_pos ⟨hs.idle, by rw [horder, hs.pool]⟩]
    exact if_neg hfound
  have hrun : run tcpStep s [.select order, .dial true]
      = some { s with balancer := s.balancer.incrementCount (s.balancer.getLowestBalancer order)
                      selected := none
                      live := s.balancer.getLowestBalancer order :: s.live } := by
    rw [run_cons, hselect]
    rfl
  refine ⟨_, hrun, rfl, hs.pool, hs.cap, ?_, ?_⟩
  · show Level addrs (s.balancer.incrementCount _).count
    rw [Balancer.count_eq_addUnit]
    exact hs.level.add_one fun a ha => hlowest a ((hmem a).mpr ha)
  · show ∑ addr ∈ addrs, (s.balancer.incrementCount _).count addr = _
    rw [Balancer.count_eq_addUnit, sum_addUnit _ ((hmem _).mp hselected), hs.total]
    push_cast
    rfl

/-- Any number of connections for which there is room. -/
theorem Spread.forwards {addrs : Finset String} {cap : ℤ} (hne : "" ∉ addrs)
    {orders : List (List String)}
    (horders : ∀ order ∈ orders, (order : Multiset String) = addrs.val) {k : ℕ} {s : TCPState}
    (hs : Spread addrs cap k s) (hroom : ((k + orders.length : ℕ) : ℤ) ≤ addrs.card * cap) :
    ∃ s', run tcpStep s (forwards orders) = some s' ∧ Spread addrs cap (k + orders.length) s' := by
  induction orders generalizing k s with
  | nil => exact ⟨s, rfl, hs⟩
  | cons order orders ih =>
    rw [List.length_cons] at hroom ⊢
    obtain ⟨s₁, hrun₁, hs₁⟩ := hs.forward hne (by omega) (horders order List.mem_cons_self)
    obtain ⟨s₂, hrun₂, hs₂⟩ := ih (fun o ho => horders o (List.mem_cons_of_mem _ ho)) hs₁
      (by rw [Nat.add_right_comm, Nat.add_assoc]; exact hroom)
    refine ⟨s₂, ?_, ?_⟩
    · show run tcpStep s ([.select order, .dial true] ++ Border.forwards orders) = some s₂
      exact (run_append hrun₁).trans hrun₂
    · rw [Nat.add_right_comm, Nat.add_assoc] at hs₂
      exact hs₂

/-- A balancer fresh from `Init` has no connections anywhere. -/
theorem spread_init {listenSpec : String} {config : BalancerConfig} {b : Balancer}
    (hb : Balancer.init listenSpec config = some b) :
    Spread config.backends.toFinset config.maxConnectionsPerAddress 0
      (TCPState.ofBalancer b) := by
  obtain ⟨haddrs, hconns, hcap⟩ := Balancer.init_eq_some hb
  have hzero : ∀ addr, b.count addr = 0 := by
    intro addr
    unfold Balancer.count
    rw [hconns, lookup_initConns]
    split_ifs
    · rfl
    · rfl
  refine ⟨rfl, haddrs, hcap, fun x _ y _ => ?_, ?_⟩
  · show b.count x ≤ b.count y + 1
    rw [hzero, hzero]
    decide
  · exact Finset.sum_eq_zero fun addr _ => hzero addr

/-- **Connections are spread evenly.**  A balancer from `Init` with `n` addresses, none of
them empty, forwards any `k` connections that fit under the caps, in whatever orders the
selections meet the pool; afterwards every address counts `k / n` rounded down or up, and
the counts add up to `k`. -/
theorem tcpRun_spread (listenSpec : String) (config : BalancerConfig) (b : Balancer)
    (hb : Balancer.init listenSpec config = some b) (hne : "" ∉ config.backends)
    (orders : List (List String))
    (horders : ∀ order ∈ orders, (order : Multiset String) = b.backendAddresses.val)
    (hroom : (orders.length : ℤ) ≤ b.backendAddresses.card * b.maxConns) :
    ∃ s, run tcpStep (TCPState.ofBalancer b) (forwards orders) = some s ∧
      (∀ addr ∈ config.backends,
        s.balancer.count addr = (orders.length / b.backendAddresses.card : ℕ) ∨
        s.balancer.count addr = (orders.length ⌈/⌉ b.backendAddresses.card : ℕ)) ∧
      ∑ addr ∈ config.backends.toFinset, s.balancer.count addr = orders.length := by
  obtain ⟨haddrs, -, hcap⟩ := Balancer.init_eq_some hb
  rw [haddrs] at horders hroom ⊢
  rw [hcap] at hroom
  obtain ⟨s, hrun, hs⟩ := (spread_init hb).forwards (fun h => hne (List.mem_toFinset.mp h))
    horders (by rw [Nat.zero_add]; exact hroom)
  rw [Nat.zero_add] at hs
  exact ⟨s, hrun, fun addr haddr => hs.level.floor_or_ceil hs.total (List.mem_toFinset.mpr haddr),
    hs.total⟩

/-- Two backends with room for three connections each. -/
def threeEach : BalancerConfig := ⟨.tcp, ["10.0.0.1:80", "10.0.0.2:80"], 16, 3, 0⟩

/-- Three connections, with the pool met in one order and in the other. -/
def threeOrders : List (List String) :=
  [["10.0.0.1:80", "10.0.0.2:80"], ["10.0.0.2:80", "10.0.0.1:80"], ["10.0.0.1:80", "10.0.0.2:80"]]

theorem tcpRun_spread_threeEach :
    ∃ b s, Balancer.init "127.0.0.1:8000" threeEach = some b ∧
      run tcpStep (TCPState.ofBalancer b) (forwards threeOrders) = some s ∧
      (s.balancer.count "10.0.0.1:80" = 1 ∨ s.balancer.count "10.0.0.1:80" = 2) := by
  refine ⟨_, _, rfl, rfl, ?_⟩
  obtain ⟨s, hrun, hcounts, -⟩ := tcpRun_spread "127.0.0.1:8000" threeEach _ rfl (by decide)
    threeOrders (by decide) (by decide)
  obtain rfl := Option.some.inj hrun
  exact hcounts "10.0.0.1:80" (by decide)

end Border
