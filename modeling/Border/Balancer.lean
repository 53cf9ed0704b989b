/-
# The load balancer's connection pool

Model of `pkg/lb/lb.go`: the pool of backend addresses with the number of
connections to each, `Init`, `getLowestBalancer` and `decrementCount`.

Go ranges over a map in an unspecified order, so `getLowestBalancer` takes the
order in which it meets the pooled addresses as an argument.  The TLS settings of
a balancer are left out: nothing here reads them.
-/
import Border.NetAddr

namespace Border

open NetAddr

/-- The values of `BalancerConfig.Kind`: `BalanceTCP`, `BalanceHTTP`, and every
text that `Start` refuses. -/
inductive BalancerKind
  | tcp
  | http
  | other (kind : String)
  deriving DecidableEq, Repr

/-- The kind a text denotes. -/
def BalancerKind.ofString (kind : String) : BalancerKind :=
  if kind = "tcp" then .tcp else if kind = "http" then .http else .other kind

/-- `lb.BalancerConfig`. -/
structure BalancerConfig where
  kind : BalancerKind
  backends : List String
  simultaneousConnections : ℤ
  maxConnectionsPerAddress : ℤ
  connectionTimeout : ℤ

/-- `lb.connMap`. -/
abbrev ConnMap := Finmap (fun _ : String => ℤ)

/-- `lb.Balancer`. -/
structure Balancer where
  listenSpec : String
  listenerIP : String
  kind : BalancerKind
  backendAddresses : Finset String
  backendConns : ConnMap
  connBuffer : ℤ
  /-- The cap on the connections of each address. -/
  maxConns : ℤ
  /-- The time limit of each connection. -/
  timeout : ℤ

/-- `b.backendConns[addr]`: a missing key counts zero. -/
def Balancer.count (b : Balancer) (addr : String) : ℤ := (b.backendConns.lookup addr).getD 0

/-! ## `Init` -/

/-- The loop of `Init` that enters every backend with no connections. -/
def initConns (backends : List String) : ConnMap :=
  backends.foldl (fun conns addr => conns.insert addr 0) ∅

/-- `Init`; `none` is the `Fatalf` on a listener that is not `host:port`. -/
def Balancer.init (listenSpec : String) (config : BalancerConfig) : Option Balancer :=
  match splitHostPort listenSpec with
  | .error _ => none
  | .ok (host, _) => some {
      listenerIP := host
      listenSpec := listenSpec
      kind := config.kind
      backendAddresses := config.backends.toFinset
      backendConns := initConns config.backends
      connBuffer := config.simultaneousConnections
      maxConns := config.maxConnectionsPerAddress
      timeout := config.connectionTimeout }

/-- Entering addresses one after the other: each of them counts zero, every other
key is as before. -/
theorem lookup_foldl_insert_zero (backends : List String) (conns : ConnMap) (addr : String) :
    (backends.foldl (fun conns addr => conns.insert addr 0) conns).lookup addr
      = if addr ∈ backends then some 0 else conns.lookup addr := by
  induction backends generalizing conns with
  | nil => simp
  | cons x xs ih =>
    rw [List.foldl_cons, ih]
    by_cases hmem : addr ∈ xs
    · simp [hmem]
    · rw [if_neg hmem]
      by_cases hx : addr = x
      · subst hx
        rw [Finmap.lookup_insert, if_pos List.mem_cons_self]
      · rw [Finmap.lookup_insert_of_ne _ hx, if_neg (by simp [hx, hmem])]

/-- The initial count map: zero on the backends, nothing elsewhere. -/
theorem lookup_initConns (backends : List String) (addr : String) :
    (initConns backends).lookup addr = if addr ∈ backends then some 0 else none := by
  unfold initConns
  rw [lookup_foldl_insert_zero, Finmap.lookup_empty]

/-- What `Init` returns, when it returns. -/
theorem Balancer.init_eq_some {listenSpec : String} {config : BalancerConfig} {b : Balancer}
    (h : Balancer.init listenSpec config = some b) :
    b.backendAddresses = config.backends.toFinset ∧
      b.backendConns = initConns config.backends ∧
      b.maxConns = config.maxConnectionsPerAddress := by
  unfold Balancer.init at h
  split at h
  · exact absurd h (by simp)
  · rw [Option.some.injEq] at h
    subst h
    exact ⟨rfl, rfl, rfl⟩

/-- `Init` keeps the address and the kind. -/
theorem Balancer.init_listenSpec {listenSpec : String} {config : BalancerConfig} {b : Balancer}
    (h : Balancer.init listenSpec config = some b) :
    b.listenSpec = listenSpec ∧ b.kind = config.kind := by
  unfold Balancer.init at h
  split at h
  · exact absurd h (by simp)
  · rw [← Option.some.inj h]
    exact ⟨rfl, rfl⟩

/-! ## `getLowestBalancer` -/

/-- One iteration of the loop of `getLowestBalancer`, over the pair
`(lowestAddr, lowestCount)`. -/
def Balancer.lowestStep (b : Balancer) (lowest : String × ℤ) (addr : String) : String × ℤ :=
  let count := b.count addr
  if lowest.1 = "" ∧ count < b.maxConns then (addr, count)
  else if count < b.maxConns ∧ count ≤ lowest.2 then (addr, count)
  else lowest

/-- `getLowestBalancer`, with the order in which the range meets the pool. -/
def Balancer.getLowestBalancer (b : Balancer) (order : List String) : String :=
  (order.foldl b.lowestStep ("", 0)).1

/-- An iteration takes an address that has room and counts no more than the pair, or is the
first. -/
theorem Balancer.lowestStep_take {b : Balancer} {lowest : String × ℤ} {addr : String}
    (h : b.count addr < b.maxConns ∧ (lowest.1 = "" ∨ b.count addr ≤ lowest.2)) :
    b.lowestStep lowest addr = (addr, b.count addr) := by
  unfold Balancer.lowestStep
  dsimp only
  rcases h.2 with hnone | hle
  · exact if_pos ⟨hnone, h.1⟩
  · have hsecond : b.count addr < b.maxConns ∧ b.count addr ≤ lowest.2 := ⟨h.1, hle⟩
    rw [if_pos hsecond, ite_self]

/-- An iteration passes over every other address. -/
theorem Balancer.lowestStep_keep {b : Balancer} {lowest : String × ℤ} {addr : String}
    (h : ¬ (b.count addr < b.maxConns ∧ (lowest.1 = "" ∨ b.count addr ≤ lowest.2))) :
    b.lowestStep lowest addr = lowest := by
  unfold Balancer.lowestStep
  dsimp only
  rw [if_neg fun htake => h ⟨htake.2, Or.inl htake.1⟩,
    if_neg fun htake => h ⟨htake.1, Or.inr htake.2⟩]

/-- The loop keeps its pair or takes an address of the order that has room. -/
theorem Balancer.foldl_lowestStep (b : Balancer) (order : List String) (lowest : String × ℤ) :
    order.foldl b.lowestStep lowest = lowest ∨
      ∃ addr ∈ order, b.count addr < b.maxConns ∧
        order.foldl b.lowestStep lowest = (addr, b.count addr) := by
  induction order generalizing lowest with
  | nil => exact Or.inl rfl
  | cons addr order ih =>
    rw [List.foldl_cons]
    rcases ih (b.lowestStep lowest addr) with hkeep | ⟨a, hmem, hroom, htaken⟩
    · rw [hkeep]
      by_cases htake : b.count addr < b.maxConns ∧ (lowest.1 = "" ∨ b.count addr ≤ lowest.2)
      · exact Or.inr ⟨addr, List.mem_cons_self, htake.1, Balancer.lowestStep_take htake⟩
      · exact Or.inl (Balancer.lowestStep_keep htake)
    · exact Or.inr ⟨a, List.mem_cons_of_mem _ hmem, hroom, htaken⟩

/-- An address `getLowestBalancer` returns is pooled and has room. -/
theorem Balancer.getLowestBalancer_room (b : Balancer) (order : List String)
    (h : b.getLowestBalancer order ≠ "") :
    b.getLowestBalancer order ∈ order ∧ b.count (b.getLowestBalancer order) < b.maxConns := by
  unfold Balancer.getLowestBalancer at h ⊢
  rcases b.foldl_lowestStep order ("", 0) with hkeep | ⟨addr, hmem, hroom, htaken⟩
  · rw [hkeep] at h
    exact absurd rfl h
  · rw [htaken]
    exact ⟨hmem, hroom⟩

/-- The loop ends with no address only when nothing it met has room; an address it ends
with has room, and nothing it met counts less. -/
theorem Balancer.foldl_lowestStep_lowest (b : Balancer) {order : List String}
    (hne : "" ∉ order) (lowest : String × ℤ)
    (hlowest : lowest.1 ≠ "" → lowest.2 = b.count lowest.1 ∧ lowest.2 < b.maxConns) :
    ((order.foldl b.lowestStep lowest).1 = "" →
      lowest.1 = "" ∧ ∀ addr ∈ order, b.maxConns ≤ b.count addr) ∧
    ((order.foldl b.lowestStep lowest).1 ≠ "" →
      (order.foldl b.lowestStep lowest).2 = b.count (order.foldl b.lowestStep lowest).1 ∧
      (order.foldl b.lowestStep lowest).2 < b.maxConns ∧
      (lowest.1 ≠ "" → (order.foldl b.lowestStep lowest).2 ≤ lowest.2) ∧
      ∀ addr ∈ order, (order.foldl b.lowestStep lowest).2 ≤ b.count addr) := by
  induction order generalizing lowest with
  | nil =>
    refine ⟨fun h => ⟨h, fun addr h => absurd h List.not_mem_nil⟩, fun h => ?_⟩
    exact ⟨(hlowest h).1, (hlowest h).2, fun _ => le_refl _,
      fun addr h => absurd h List.not_mem_nil⟩
  | cons addr order ih =>
    have haddr : addr ≠ "" := fun h => hne (h ▸ List.mem_cons_self)
    have hrest : "" ∉ order := fun h => hne (List.mem_cons_of_mem _ h)
    rw [List.foldl_cons]
    by_cases htake : b.count addr < b.maxConns ∧ (lowest.1 = "" ∨ b.count addr ≤ lowest.2)
    · -- the address is taken
      rw [Balancer.lowestStep_take htake]
      obtain ⟨hnone, hsome⟩ := ih hrest (addr, b.count addr) fun _ => ⟨rfl, htake.1⟩
      refine ⟨fun h => absurd (hnone h).1 haddr, fun h => ?_⟩
      obtain ⟨hcount, hroom, hle, hall⟩ := hsome h
      refine ⟨hcount, hroom, fun hl => ?_, fun a ha => ?_⟩
      · rcases htake.2 with hempty | hlower
        · exact absurd hempty hl
        · exact le_trans (hle haddr) hlower
      · rcases List.mem_cons.mp ha with rfl | ha
        · exact hle haddr
        · exact hall a ha
    · -- the address is full, or what was met before counts less
      rw [Balancer.lowestStep_keep htake]
      obtain ⟨hnone, hsome⟩ := ih hrest lowest hlowest
      refine ⟨fun h => ⟨(hnone h).1, fun a ha => ?_⟩, fun h => ?_⟩
      · rcases List.mem_cons.mp ha with rfl | ha
        · by_contra hroom
          exact htake ⟨not_le.mp hroom, Or.inl (hnone h).1⟩
        · exact (hnone h).2 a ha
      · obtain ⟨hcount, hroom, hle, hall⟩ := hsome h
        refine ⟨hcount, hroom, hle, fun a ha => ?_⟩
        rcases List.mem_cons.mp ha with rfl | ha
        · by_cases hfull : b.count a < b.maxConns
          · have hnot : ¬ (lowest.1 = "" ∨ b.count a ≤ lowest.2) := fun h => htake ⟨hfull, h⟩
            push Not at hnot
            exact le_trans (hle hnot.1) hnot.2.le
          · omega
        · exact hall a ha

/-- **The selection.**  While some address of the order has room, the address that is
returned is one of them, has room, and no address of the order counts less. -/
theorem Balancer.getLowestBalancer_lowest (b : Balancer) (order : List String)
    (hne : "" ∉ order) {addr : String} (haddr : addr ∈ order)
    (hroom : b.count addr < b.maxConns) :
    b.getLowestBalancer order ≠ "" ∧ b.getLowestBalancer order ∈ order ∧
      ∀ a ∈ order, b.count (b.getLowestBalancer order) ≤ b.count a := by
  obtain ⟨hnone, hsome⟩ := b.foldl_lowestStep_lowest hne ("", 0)
    fun h => absurd rfl h
  have hfound : b.getLowestBalancer order ≠ "" := by
    intro h
    exact absurd ((hnone h).2 addr haddr) (not_le.mpr hroom)
  obtain ⟨hcount, -, -, hall⟩ := hsome hfound
  refine ⟨hfound, (b.getLowestBalancer_room order hfound).1, fun a ha => ?_⟩
  have hle := hall a ha
  rw [hcount] at hle
  exact hle

/-- An order meets the addresses of the pool and no others. -/
theorem mem_order_iff {order : List String} {pool : Finset String}
    (horder : (order : Multiset String) = pool.val) (addr : String) :
    addr ∈ order ↔ addr ∈ pool := by
  rw [← Multiset.mem_coe, horder, Finset.mem_val]

/-- **A least loaded backend with room.**  Whatever the counts, the cap and the order in which
the pool is met: an address that is returned is pooled, has room, and counts no more than any
pooled address with room; and no address is returned exactly when none has room. -/
theorem Balancer.getLowestBalancer_spec (b : Balancer) (hne : "" ∉ b.backendAddresses)
    (order : List String) (horder : (order : Multiset String) = b.backendAddresses.val) :
    (b.getLowestBalancer order ≠ "" →
      b.getLowestBalancer order ∈ b.backendAddresses ∧
      b.count (b.getLowestBalancer order) < b.maxConns ∧
      ∀ addr ∈ b.backendAddresses, b.count addr < b.maxConns →
        b.count (b.getLowestBalancer order) ≤ b.count addr) ∧
    (b.getLowestBalancer order = "" ↔
      ∀ addr ∈ b.backendAddresses, b.maxConns ≤ b.count addr) := by
  have hmem := mem_order_iff horder
  have hnamed : "" ∉ order := fun h => hne ((hmem "").mp h)
  constructor
  · intro hfound
    obtain ⟨hpooled, hroom⟩ := b.getLowestBalancer_room order hfound
    refine ⟨(hmem _).mp hpooled, hroom, fun addr haddr hfree => ?_⟩
    exact (b.getLowestBalancer_lowest order hnamed ((hmem addr).mpr haddr) hfree).2.2 addr
      ((hmem addr).mpr haddr)
  · constructor
    · intro hnone addr haddr
      by_contra hfree
      have hfound := b.getLowestBalancer_lowest order hnamed ((hmem addr).mpr haddr)
        (not_le.mp hfree)
      exact hfound.1 hnone
    · intro hfull
      by_contra hfound
      obtain ⟨hpooled, hroom⟩ := b.getLowestBalancer_room order hfound
      exact absurd (hfull _ ((hmem _).mp hpooled)) (not_le.mpr hroom)

/-- Three backends of which the first is full. -/
def firstFull : Balancer where
  listenSpec := "127.0.0.1:8000"
  listenerIP := "127.0.0.1"
  kind := .tcp
  backendAddresses := {"10.0.0.1:80", "10.0.0.2:80", "10.0.0.3:80"}
  backendConns := (((∅ : ConnMap).insert "10.0.0.1:80" 2).insert "10.0.0.2:80" 1).insert
    "10.0.0.3:80" 0
  connBuffer := 16
  maxConns := 2
  timeout := 0

theorem getLowestBalancer_spec_firstFull :
    firstFull.getLowestBalancer ["10.0.0.2:80", "10.0.0.1:80", "10.0.0.3:80"] = "10.0.0.3:80" ∧
      firstFull.count "10.0.0.3:80" ≤ firstFull.count "10.0.0.2:80" := by
  have hlowest : firstFull.getLowestBalancer ["10.0.0.2:80", "10.0.0.1:80", "10.0.0.3:80"]
      = "10.0.0.3:80" := by decide
  obtain ⟨-, -, hall⟩ := (firstFull.getLowestBalancer_spec (by decide)
    ["10.0.0.2:80", "10.0.0.1:80", "10.0.0.3:80"] (by decide)).1 (by rw [hlowest]; decide)
  rw [hlowest] at hall
  exact ⟨hlowest, hall "10.0.0.2:80" (by decide) (by decide)⟩

/-! ## Counting connections -/

/-- `b.backendConns[addr]++`. -/
def Balancer.incrementCount (b : Balancer) (addr : String) : Balancer :=
  { b with backendConns := b.backendConns.insert addr (b.count addr + 1) }

/-- `decrementCount`, once the context of its connection is done. -/
def Balancer.decrementCount (b : Balancer) (addr : String) : Balancer :=
  match b.backendConns.lookup addr with
  | some c => { b with backendConns := b.backendConns.insert addr (c - 1) }
  | none => b

/-- Remove an address from the pool, as a failed dial does. -/
def Balancer.removeBackend (b : Balancer) (addr : String) : Balancer :=
  { b with
    backendAddresses := b.backendAddresses.erase addr
    backendConns := b.backendConns.erase addr }

theorem Balancer.count_of_lookup {b : Balancer} {addr : String} {c : ℤ}
    (h : b.backendConns.lookup addr = some c) : b.count addr = c := by
  unfold Balancer.count
  rw [h]
  rfl

theorem Balancer.count_incrementCount (b : Balancer) (addr a : String) :
    (b.incrementCount addr).count a = if a = addr then b.count addr + 1 else b.count a := by
  unfold Balancer.incrementCount Balancer.count
  split_ifs with ha
  · rw [ha, Finmap.lookup_insert]
    rfl
  · rw [Finmap.lookup_insert_of_ne _ ha]

/-- Decrementing touches the count of a pooled address only. -/
theorem Balancer.lookup_decrementCount (b : Balancer) (addr a : String) :
    (b.decrementCount addr).backendConns.lookup a
      = if a = addr then (b.backendConns.lookup addr).map (· - 1)
        else b.backendConns.lookup a := by
  unfold Balancer.decrementCount
  cases h : b.backendConns.lookup addr with
  | none =>
    by_cases ha : a = addr
    · subst ha
      simp [h]
    · simp [ha]
  | some c =>
    by_cases ha : a = addr
    · subst ha
      simp
    · simp [ha, Finmap.lookup_insert_of_ne]

theorem Balancer.backendAddresses_decrementCount (b : Balancer) (addr : String) :
    (b.decrementCount addr).backendAddresses = b.backendAddresses := by
  unfold Balancer.decrementCount
  split <;> rfl

theorem Balancer.maxConns_decrementCount (b : Balancer) (addr : String) :
    (b.decrementCount addr).maxConns = b.maxConns := by
  unfold Balancer.decrementCount
  split <;> rfl

end Border
