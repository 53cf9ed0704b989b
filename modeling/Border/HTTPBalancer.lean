/-
# The cap of the HTTP balancer

Model of `BalanceHTTP`, `serveHTTP` and `dialContext` (`pkg/lb/http.go`) as a transition system.
Every request has a handler of its own.  It selects an address with `getLowestBalancer`; then
the transport reuses an idle connection or calls `dialContext`, which counts the connection,
starts its `decrementCount` and dials.  The `decrementCount` of a dial waits for the context of
the request that dialed, while the connection itself may be kept idle and serve other requests.

* `http_counts` : in every run, a count is the number of dials whose decrement has not run;
* `http_capped` : as long as no dial finds the count at the cap and no decrement runs before its
  connection is closed, no more connections than the cap are open;
* `http_cap_exceeded` : two handlers that select before either dials.
-/
import Border.Balancer
import Border.Transition

namespace Border

open Transition

/-! ## Handlers and connections -/

inductive ConnStatus
  /-- In `net.Dialer.DialContext`. -/
  | dialing
  | busy
  /-- Kept by the transport after its request. -/
  | idle
  | closed
  deriving DecidableEq

/-- A connection made by `dialContext`: the address, the handler whose request dialed it, and
whether its `decrementCount` has run. -/
structure Conn where
  addr : String
  dialer : ℕ
  status : ConnStatus
  decremented : Bool
  deriving DecidableEq

/-- Where a handler of `serveHTTP` is. -/
inductive HandlerPhase
  /-- At `retry`. -/
  | waiting
  | selected (lowestAddr : String)
  /-- In `dialContext`, after the count, with the given connection. -/
  | dialing (conn : ℕ)
  /-- The request runs on the given connection. -/
  | running (conn : ℕ)
  | ended
  deriving DecidableEq

/-- The balancer, its handlers, the handlers whose context has timed out, and every connection
that was dialed. -/
structure HTTPState where
  balancer : Balancer
  handlers : ℕ → HandlerPhase
  expired : Finset ℕ
  conns : List Conn

/-- No request has come yet. -/
def HTTPState.ofBalancer (b : Balancer) : HTTPState := ⟨b, fun _ => .waiting, ∅, []⟩

/-- Handler `i` moves on. -/
def HTTPState.move (s : HTTPState) (i : ℕ) (phase : HandlerPhase) : HTTPState :=
  { s with handlers := Function.update s.handlers i phase }

/-- A connection gets another status. -/
def HTTPState.mark (s : HTTPState) (j : ℕ) (c : Conn) (status : ConnStatus) : HTTPState :=
  { s with conns := s.conns.set j { c with status := status } }

/-- The context of handler `i` is done: it has timed out, or the handler has returned. -/
def HTTPState.ContextDone (s : HTTPState) (i : ℕ) : Prop :=
  i ∈ s.expired ∨ s.handlers i = .ended

instance (s : HTTPState) (i : ℕ) : Decidable (s.ContextDone i) :=
  inferInstanceAs (Decidable (i ∈ s.expired ∨ s.handlers i = .ended))

inductive HTTPAct
  /-- `getLowestBalancer`, meeting the pool in this order. -/
  | select (i : ℕ) (order : List String)
  /-- The transport takes an idle connection. -/
  | reuse (i j : ℕ)
  /-- `dialContext`, up to the dial. -/
  | dial (i : ℕ)
  /-- The outcome of the dial. -/
  | connect (i : ℕ) (ok : Bool)
  /-- The request is refused before any connection is asked for. -/
  | refuse (i : ℕ)
  /-- The handler returns; the transport may keep the connection. -/
  | finish (i : ℕ) (keep : Bool)
  | expire (i : ℕ)
  /-- The `decrementCount` of a connection. -/
  | decrement (j : ℕ)
  /-- A connection is closed: idle for too long, by the backend, or broken. -/
  | close (j : ℕ)

section Transport

-- The address that the transport dials for the host of a request's URL; none if no request can
-- be made for it.
variable (dialAddr : String → Option String)

/-- Execute one step; `none` when it is not enabled. -/
def httpStep (s : HTTPState) : HTTPAct → Option HTTPState
  | .select i order =>
    if s.handlers i = .waiting ∧
        (order : Multiset String) = s.balancer.backendAddresses.val then
      let lowestAddr := s.balancer.getLowestBalancer order
      if lowestAddr = "" then some s else some (s.move i (.selected lowestAddr))
    else none
  | .reuse i j =>
    match s.handlers i, s.conns[j]? with
    | .selected lowestAddr, some c =>
      if c.status = .idle ∧ dialAddr lowestAddr = some c.addr then
        some ((s.mark j c .busy).move i (.running j))
      else none
    | _, _ => none
  | .dial i =>
    match s.handlers i with
    | .selected lowestAddr =>
      match dialAddr lowestAddr with
      | none => none
      | some addr =>
        some { (s.move i (.dialing s.conns.length)) with
          balancer := s.balancer.incrementCount addr
          conns := s.conns ++ [⟨addr, i, .dialing, false⟩] }
    | _ => none
  | .connect i ok =>
    match s.handlers i with
    | .dialing j =>
      match s.conns[j]? with
      | none => none
      | some c =>
        if c.status = .dialing then
          if ok then some ((s.mark j c .busy).move i (.running j))
          else some ((s.mark j c .closed).move i .ended)
        else none
    | _ => none
  | .refuse i =>
    match s.handlers i with
    | .selected lowestAddr => if dialAddr lowestAddr = none then some (s.move i .ended) else none
    | _ => none
  | .finish i keep =>
    match s.handlers i with
    | .running j =>
      match s.conns[j]? with
      | none => none
      | some c =>
        if keep ∧ c.status = .busy then some ((s.mark j c .idle).move i .ended)
        else some ((s.mark j c .closed).move i .ended)
    | _ => none
  | .expire i => some { s with expired := insert i s.expired }
  | .decrement j =>
    match s.conns[j]? with
    | none => none
    | some c =>
      if c.decremented = false ∧ s.ContextDone c.dialer then
        some { s with
          balancer := s.balancer.decrementCount c.addr
          conns := s.conns.set j { c with decremented := true } }
      else none
  | .close j =>
    match s.conns[j]? with
    | none => none
    | some c =>
      if c.status = .busy ∨ c.status = .idle then some (s.mark j c .closed) else none

end Transport

/-! ## What a step does to the connections -/

/-- What a step does to the counts and the connections: nothing, a status of a connection that
is not closed changes, a dial, or a decrement. -/
inductive HTTPMove (s : HTTPState) : HTTPAct → HTTPState → Prop
  | other {a : HTTPAct} {s' : HTTPState} (hbalancer : s'.balancer = s.balancer)
      (hconns : s'.conns = s.conns) : HTTPMove s a s'
  | status {a : HTTPAct} {s' : HTTPState} {j : ℕ} {c : Conn} {status : ConnStatus}
      (hc : s.conns[j]? = some c) (hclosed : c.status = .closed → status = .closed)
      (hbalancer : s'.balancer = s.balancer)
      (hconns : s'.conns = s.conns.set j { c with status := status }) : HTTPMove s a s'
  | dial {i : ℕ} {s' : HTTPState} {addr : String}
      (hbalancer : s'.balancer = s.balancer.incrementCount addr)
      (hconns : s'.conns = s.conns ++ [⟨addr, i, .dialing, false⟩]) : HTTPMove s (.dial i) s'
  | decrement {j : ℕ} {s' : HTTPState} {c : Conn} (hc : s.conns[j]? = some c)
      (hnot : c.decremented = false) (hbalancer : s'.balancer = s.balancer.decrementCount c.addr)
      (hconns : s'.conns = s.conns.set j { c with decremented := true }) :
      HTTPMove s (.decrement j) s'

theorem httpStep_dial {dialAddr : String → Option String} {s s' : HTTPState} {i : ℕ}
    (h : httpStep dialAddr s (.dial i) = some s') :
    ∃ lowestAddr addr, s.handlers i = .selected lowestAddr ∧ dialAddr lowestAddr = some addr ∧
      s'.balancer = s.balancer.incrementCount addr ∧
      s'.conns = s.conns ++ [⟨addr, i, .dialing, false⟩] := by
  simp only [httpStep] at h
  split at h
  · rename_i lowestAddr hphase
    split at h
    · exact absurd h (by simp)
    · rename_i addr haddr
      rw [← Option.some.inj h]
      exact ⟨lowestAddr, addr, hphase, haddr, rfl, rfl⟩
  · exact absurd h (by simp)

theorem httpStep_decrement {dialAddr : String → Option String} {s s' : HTTPState} {j : ℕ}
    (h : httpStep dialAddr s (.decrement j) = some s') :
    ∃ c, s.conns[j]? = some c ∧ c.decremented = false ∧ s.ContextDone c.dialer ∧
      s'.balancer = s.balancer.decrementCount c.addr ∧
      s'.conns = s.conns.set j { c with decremented := true } := by
  simp only [httpStep] at h
  split at h
  · exact absurd h (by simp)
  · rename_i c hc
    split_ifs at h with henabled
    rw [← Option.some.inj h]
    exact ⟨c, hc, henabled.1, henabled.2, rfl, rfl⟩

theorem httpStep_move {dialAddr : String → Option String} {s s' : HTTPState} {a : HTTPAct}
    (h : httpStep dialAddr s a = some s') : HTTPMove s a s' := by
  cases a with
  | select i order =>
    simp only [httpStep] at h
    split_ifs at h
    · rw [← Option.some.inj h]
      exact .other rfl rfl
    · rw [← Option.some.inj h]
      exact .other rfl rfl
  | reuse i j =>
    simp only [httpStep] at h
    split at h
    · rename_i c _ hc
      split_ifs at h with henabled
      rw [← Option.some.inj h]
      exact .status hc (fun hclosed => absurd (henabled.1.symm.trans hclosed) (by simp)) rfl rfl
    · exact absurd h (by simp)
  | dial i =>
    obtain ⟨-, addr, -, -, hbalancer, hconns⟩ := httpStep_dial h
    exact .dial hbalancer hconns
  | connect i ok =>
    simp only [httpStep] at h
    split at h
    · split at h
      · exact absurd h (by simp)
      · rename_i c hc
        split_ifs at h with hdialing hok
        · rw [← Option.some.inj h]
          exact .status hc (fun hclosed => absurd (hdialing.symm.trans hclosed) (by simp)) rfl rfl
        · rw [← Option.some.inj h]
          exact .status hc (fun _ => rfl) rfl rfl
    · exact absurd h (by simp)
  | refuse i =>
    simp only [httpStep] at h
    split at h
    · split_ifs at h
      rw [← Option.some.inj h]
      exact .other rfl rfl
    · exact absurd h (by simp)
  | finish i keep =>
    simp only [httpStep] at h
    split at h
    · split at h
      · exact absurd h (by simp)
      · rename_i c hc
        split_ifs at h with hkeep
        · rw [← Option.some.inj h]
          exact .status hc (fun hclosed => absurd (hkeep.2.symm.trans hclosed) (by simp)) rfl rfl
        · rw [← Option.some.inj h]
          exact .status hc (fun _ => rfl) rfl rfl
    · exact absurd h (by simp)
  | expire i =>
    rw [← Option.some.inj h]
    exact .other rfl rfl
  | decrement j =>
    obtain ⟨c, hc, hnot, -, hbalancer, hconns⟩ := httpStep_decrement h
    exact .decrement hc hnot hbalancer hconns
  | close j =>
    simp only [httpStep] at h
    split at h
    · exact absurd h (by simp)
    · rename_i c hc
      split_ifs at h
      rw [← Option.some.inj h]
      exact .status hc (fun _ => rfl) rfl rfl

/-! ## Counting -/

/-- How a number of entries changes when one entry does. -/
theorem countP_set_add {α : Type} {l : List α} {j : ℕ} {c : α} (hc : l[j]? = some c) (c' : α)
    (p : α → Bool) :
    (l.set j c').countP p + (if p c then 1 else 0) = l.countP p + if p c' then 1 else 0 := by
  obtain ⟨hj, rfl⟩ := List.getElem?_eq_some_iff.mp hc
  rw [List.countP_set hj]
  by_cases hp : p l[j]
  · have hpos : 0 < l.countP p := List.countP_pos_iff.mpr ⟨l[j], List.getElem_mem hj, hp⟩
    rw [if_pos hp]
    omega
  · rw [if_neg hp]
    omega

/-- The dials to an address whose decrement has not run. -/
def HTTPState.counted (s : HTTPState) (addr : String) : ℕ :=
  s.conns.countP fun c => c.addr = addr ∧ c.decremented = false

/-- The connections dialed to an address and not closed. -/
def HTTPState.openConns (s : HTTPState) (addr : String) : ℕ :=
  s.conns.countP fun c => c.addr = addr ∧ c.status ≠ .closed

/-- A decrement of an address that counts something. -/
theorem Balancer.count_decrementCount {b : Balancer} {addr : String} (hpos : 0 < b.count addr)
    (a : String) :
    (b.decrementCount addr).count a = if a = addr then b.count addr - 1 else b.count a := by
  unfold Balancer.count
  rw [Balancer.lookup_decrementCount]
  split_ifs with ha
  · cases hlookup : b.backendConns.lookup addr with
    | none =>
      unfold Balancer.count at hpos
      rw [hlookup] at hpos
      exact absurd hpos (by simp)
    | some c => rfl
  · rfl

/-- The counts of the balancer are the numbers of dials whose decrement has not run. -/
def HTTPState.Counts (s : HTTPState) : Prop := ∀ addr, s.balancer.count addr = s.counted addr

theorem counts_ofBalancer {listenSpec : String} {config : BalancerConfig} {b : Balancer}
    (hb : Balancer.init listenSpec config = some b) : (HTTPState.ofBalancer b).Counts := by
  intro addr
  obtain ⟨-, hconns, -⟩ := Balancer.init_eq_some hb
  show b.count addr = 0
  unfold Balancer.count
  rw [hconns, lookup_initConns]
  split_ifs <;> rfl

/-- A dial whose decrement has not run counts. -/
theorem HTTPState.Counts.pos {s : HTTPState} (hs : s.Counts) {j : ℕ} {c : Conn}
    (hc : s.conns[j]? = some c) (hnot : c.decremented = false) :
    0 < s.balancer.count c.addr := by
  have hmem : 0 < s.counted c.addr :=
    List.countP_pos_iff.mpr ⟨c, List.mem_of_getElem? hc, by simp [hnot]⟩
  rw [hs c.addr]
  exact_mod_cast hmem

/-- **Every step keeps the counts.** -/
theorem HTTPState.Counts.step {s s' : HTTPState} {a : HTTPAct} (hs : s.Counts)
    (h : HTTPMove s a s') : s'.Counts := by
  intro addr
  have hcount := hs addr
  unfold HTTPState.counted at hcount ⊢
  cases h with
  | other hbalancer hconns =>
    rw [hbalancer, hconns]
    exact hcount
  | @status a s' j c status hc hclosed hbalancer hconns =>
    have hset := countP_set_add hc { c with status := status }
      fun c => c.addr = addr ∧ c.decremented = false
    rw [hbalancer, hconns, hcount]
    dsimp only at hset
    omega
  | @dial i s' addr' hbalancer hconns =>
    rw [hbalancer, hconns, Balancer.count_incrementCount, List.countP_append,
      List.countP_singleton]
    by_cases haddr : addr = addr'
    · subst haddr
      rw [if_pos rfl, if_pos (by simp), hcount]
      push_cast
      rfl
    · rw [if_neg haddr, if_neg (by simp [Ne.symm haddr]), hcount]
      rfl
  | @decrement j s' c hc hnot hbalancer hconns =>
    have hset := countP_set_add hc { c with decremented := true }
      fun c => c.addr = addr ∧ c.decremented = false
    rw [hbalancer, hconns, Balancer.count_decrementCount (hs.pos hc hnot)]
    by_cases haddr : addr = c.addr
    · subst haddr
      rw [if_pos (by simp [hnot]), if_neg (by simp)] at hset
      rw [if_pos rfl, hcount]
      omega
    · rw [if_neg (by simp [Ne.symm haddr]), if_neg (by simp)] at hset
      rw [if_neg haddr, hcount]
      omega

theorem maxConns_step {s s' : HTTPState} {a : HTTPAct} (h : HTTPMove s a s') :
    s'.balancer.maxConns = s.balancer.maxConns := by
  cases h with
  | other hbalancer hconns | status hc hclosed hbalancer hconns => rw [hbalancer]
  | dial hbalancer hconns =>
    rw [hbalancer]
    rfl
  | decrement hc hnot hbalancer hconns =>
    rw [hbalancer]
    exact Balancer.maxConns_decrementCount _ _

/-- **The counts of the HTTP balancer.**  In every run, the count of an address is the number of
dials to it whose decrement has not run. -/
theorem http_counts {dialAddr : String → Option String} {listenSpec : String}
    {config : BalancerConfig} {b : Balancer} (hb : Balancer.init listenSpec config = some b)
    {as : List HTTPAct} {s : HTTPState}
    (hrun : run (httpStep dialAddr) (.ofBalancer b) as = some s) : s.Counts :=
  run_invariant (P := HTTPState.Counts) (fun _ _ _ hs h => hs.step (httpStep_move h))
    (counts_ofBalancer hb) hrun

/-! ## The cap -/

/-- The address that the handler is about to dial counts less than the cap. -/
def HandlerPhase.HasRoom (dialAddr : String → Option String) (b : Balancer) : HandlerPhase → Prop
  | .selected lowestAddr => ∀ addr ∈ dialAddr lowestAddr, b.count addr < b.maxConns
  | _ => True

instance (dialAddr : String → Option String) (b : Balancer) :
    ∀ phase : HandlerPhase, Decidable (phase.HasRoom dialAddr b)
  | .selected lowestAddr =>
    inferInstanceAs (Decidable (∀ addr ∈ dialAddr lowestAddr, b.count addr < b.maxConns))
  | .waiting | .dialing _ | .running _ | .ended => isTrue trivial

/-- A dial finds the count of its address below the cap; a decrement runs once its connection is
closed. -/
def InTime (dialAddr : String → Option String) (s : HTTPState) : HTTPAct → Prop
  | .dial i => (s.handlers i).HasRoom dialAddr s.balancer
  | .decrement j => ∀ c ∈ s.conns[j]?, c.status = .closed
  | _ => True

instance (dialAddr : String → Option String) (s : HTTPState) :
    ∀ a, Decidable (InTime dialAddr s a)
  | .dial i => inferInstanceAs (Decidable ((s.handlers i).HasRoom dialAddr s.balancer))
  | .decrement j => inferInstanceAs (Decidable (∀ c ∈ s.conns[j]?, c.status = .closed))
  | .select _ _ | .reuse _ _ | .connect _ _ | .refuse _ | .finish _ _ | .expire _ | .close _ =>
    isTrue trivial

/-- The counts do not exceed the cap, and what is open is counted. -/
structure Capped (s : HTTPState) : Prop where
  counts : s.Counts
  bounded : ∀ addr, s.balancer.count addr ≤ s.balancer.maxConns
  closed : ∀ c ∈ s.conns, c.decremented = true → c.status = .closed

theorem Capped.open_le {s : HTTPState} (hs : Capped s) (addr : String) :
    (s.openConns addr : ℤ) ≤ s.balancer.count addr := by
  have hle : s.openConns addr ≤ s.counted addr := by
    apply List.countP_mono_left
    intro c hc hopen
    simp only [decide_eq_true_eq] at hopen ⊢
    refine ⟨hopen.1, ?_⟩
    cases hdec : c.decremented with
    | false => rfl
    | true => exact absurd (hs.closed c hc hdec) hopen.2
  rw [hs.counts addr]
  exact_mod_cast hle

/-- A step in time keeps the cap. -/
theorem Capped.step {dialAddr : String → Option String} {s s' : HTTPState} {a : HTTPAct}
    (hs : Capped s) (hG : InTime dialAddr s a) (h : httpStep dialAddr s a = some s') :
    Capped s' := by
  have hmove := httpStep_move h
  refine ⟨hs.counts.step hmove, fun addr => ?_, fun c hc hdec => ?_⟩
  · rw [maxConns_step hmove]
    have hbound := hs.bounded addr
    cases hmove with
    | other hbalancer hconns | status hc hclosed hbalancer hconns =>
      rw [hbalancer]
      exact hbound
    | dial =>
      obtain ⟨lowestAddr, addr', hphase, haddr, hbalancer, -⟩ := httpStep_dial h
      rw [InTime, hphase] at hG
      have hroom := hG addr' haddr
      rw [hbalancer, Balancer.count_incrementCount]
      split_ifs with heq
      · omega
      · exact hbound
    | @decrement j s' c hc hnot hbalancer hconns =>
      rw [hbalancer, Balancer.count_decrementCount (hs.counts.pos hc hnot)]
      split_ifs with heq
      · rw [← heq]
        omega
      · exact hbound
  · cases hmove with
    | other hbalancer hconns =>
      rw [hconns] at hc
      exact hs.closed c hc hdec
    | @status a s' j c₀ status hc₀ hclosed hbalancer hconns =>
      rw [hconns] at hc
      rcases List.mem_or_eq_of_mem_set hc with hc | rfl
      · exact hs.closed c hc hdec
      · exact hclosed (hs.closed c₀ (List.mem_of_getElem? hc₀) hdec)
    | dial hbalancer hconns =>
      rw [hconns] at hc
      rcases List.mem_append.mp hc with hc | hc
      · exact hs.closed c hc hdec
      · rw [List.mem_singleton.mp hc] at hdec
        exact absurd hdec (by simp)
    | @decrement j s' c₀ hc₀ hnot hbalancer hconns =>
      rw [hconns] at hc
      rcases List.mem_or_eq_of_mem_set hc with hc | rfl
      · exact hs.closed c hc hdec
      · exact hG c₀ hc₀

theorem capped_ofBalancer {listenSpec : String} {config : BalancerConfig} {b : Balancer}
    (hb : Balancer.init listenSpec config = some b)
    (hmax : 1 ≤ config.maxConnectionsPerAddress) : Capped (.ofBalancer b) := by
  have hcounts := counts_ofBalancer hb
  obtain ⟨-, -, hcap⟩ := Balancer.init_eq_some hb
  refine ⟨hcounts, fun addr => ?_, fun c hc => absurd hc List.not_mem_nil⟩
  have hzero : (HTTPState.ofBalancer b).balancer.count addr = 0 := hcounts addr
  show b.count addr ≤ b.maxConns
  rw [hcap]
  exact hzero.le.trans (by omega)

/-- **The cap of the HTTP balancer.**  In a run in which every dial finds the count of its
address below the cap, and every decrement runs after its connection was closed, no more
connections than the cap are open to any address.  A dial that finds the count at the cap takes
it beyond, and after a decrement that runs earlier there is an open connection that does not
count. -/
theorem http_capped {dialAddr : String → Option String} {listenSpec : String}
    {config : BalancerConfig} {b : Balancer} (hb : Balancer.init listenSpec config = some b)
    (hmax : 1 ≤ config.maxConnectionsPerAddress) {as : List HTTPAct} {s : HTTPState}
    (hrun : run (httpStep dialAddr) (.ofBalancer b) as = some s)
    (htime : Along (httpStep dialAddr) (InTime dialAddr) (.ofBalancer b) as) :
    (∀ addr, (s.openConns addr : ℤ) ≤ s.balancer.count addr ∧
      s.balancer.count addr ≤ config.maxConnectionsPerAddress) ∧
    (∀ i s', httpStep dialAddr s (.dial i) = some s' → ¬ InTime dialAddr s (.dial i) →
      ∃ addr, config.maxConnectionsPerAddress < s'.balancer.count addr) ∧
    ∀ j s', httpStep dialAddr s (.decrement j) = some s' → ¬ InTime dialAddr s (.decrement j) →
      ∃ c ∈ s'.conns, c.decremented = true ∧ c.status ≠ .closed := by
  obtain ⟨-, -, hcap⟩ := Balancer.init_eq_some hb
  have hs : Capped s ∧ s.balancer.maxConns = config.maxConnectionsPerAddress :=
    run_invariant_along
      (P := fun s => Capped s ∧ s.balancer.maxConns = config.maxConnectionsPerAddress)
      (fun t a t' ht hG hstep =>
        ⟨ht.1.step hG hstep, (maxConns_step (httpStep_move hstep)).trans ht.2⟩)
      ⟨capped_ofBalancer hb hmax, hcap⟩ htime hrun
  obtain ⟨hcapped, hmaxConns⟩ := hs
  refine ⟨fun addr => ⟨hcapped.open_le addr, ?_⟩, fun i s' hstep hlate => ?_,
    fun j s' hstep hlate => ?_⟩
  · rw [← hmaxConns]
    exact hcapped.bounded addr
  · obtain ⟨lowestAddr, addr, hphase, haddr, hbalancer, -⟩ := httpStep_dial hstep
    have hfull : s.balancer.maxConns ≤ s.balancer.count addr := by
      by_contra hroom
      apply hlate
      rw [InTime, hphase]
      intro addr' haddr'
      obtain rfl := Option.some.inj (haddr.symm.trans haddr')
      omega
    refine ⟨addr, ?_⟩
    rw [hbalancer, Balancer.count_incrementCount, if_pos rfl]
    omega
  · obtain ⟨c, hc, -, -, -, hconns⟩ := httpStep_decrement hstep
    have hopen : c.status ≠ .closed := by
      intro hclosed
      apply hlate
      intro c' hc'
      obtain rfl := Option.some.inj (hc.symm.trans hc')
      exact hclosed
    obtain ⟨hj, -⟩ := List.getElem?_eq_some_iff.mp hc
    refine ⟨{ c with decremented := true }, ?_, rfl, hopen⟩
    rw [hconns]
    exact List.mem_set hj _

/-- One backend, and one connection at most. -/
def oneBackend : BalancerConfig := ⟨.http, ["10.0.0.1:80"], 16, 1, 0⟩

/-- The transport dials the address of the URL. -/
def sameAddr : String → Option String := some

/-- Two requests one after the other, the first of which closes its connection. -/
def closingRequests : List HTTPAct :=
  [.select 0 ["10.0.0.1:80"], .dial 0, .connect 0 true, .finish 0 false, .decrement 0,
    .select 1 ["10.0.0.1:80"], .dial 1, .connect 1 true]

theorem http_capped_closing :
    ∃ b s, Balancer.init "127.0.0.1:8000" oneBackend = some b ∧
      run (httpStep sameAddr) (.ofBalancer b) closingRequests = some s ∧
      s.openConns "10.0.0.1:80" = 1 ∧
      ∀ addr, (s.openConns addr : ℤ) ≤ s.balancer.count addr ∧ s.balancer.count addr ≤ 1 := by
  have hinit : ∃ b, Balancer.init "127.0.0.1:8000" oneBackend = some b := ⟨_, rfl⟩
  obtain ⟨b, hb⟩ := hinit
  have hany : ((Balancer.init "127.0.0.1:8000" oneBackend).bind fun b =>
      run (httpStep sameAddr) (.ofBalancer b) closingRequests).any
        (fun s => s.openConns "10.0.0.1:80" = 1) = true := by decide +kernel
  have htime : ∀ b ∈ Balancer.init "127.0.0.1:8000" oneBackend,
      Along (httpStep sameAddr) (InTime sameAddr) (.ofBalancer b) closingRequests := by
    decide +kernel
  rw [hb] at hany
  obtain ⟨s, hrun, hs⟩ := Option.any_eq_true _ _ |>.mp hany
  exact ⟨b, s, hb, hrun, of_decide_eq_true hs, (http_capped hb (by decide) hrun (htime b hb)).1⟩

/-- **The cap is exceeded.**  Two handlers select the one backend before either has dialed: both
see no connection, both dial, and two connections are open where one is allowed. -/
theorem http_cap_exceeded :
    ∃ b s, Balancer.init "127.0.0.1:8000" oneBackend = some b ∧
      run (httpStep sameAddr) (.ofBalancer b)
        [.select 0 ["10.0.0.1:80"], .select 1 ["10.0.0.1:80"], .dial 0, .connect 0 true, .dial 1,
          .connect 1 true] = some s ∧
      oneBackend.maxConnectionsPerAddress = 1 ∧ s.openConns "10.0.0.1:80" = 2 :=
  ⟨_, _, rfl, rfl, rfl, by decide +kernel⟩

end Border
