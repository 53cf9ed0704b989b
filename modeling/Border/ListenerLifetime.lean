/-
# From `Start` to the close of a listener

`Balancer.Start` opens a listener.  What closes it again is an error of the HTTP server in
`Start` itself or, for a TCP balancer, `monitorListen` once `Shutdown` has cancelled the
context.  The early returns of `Start`, of `createBalancers` and of `Shutdown` close nothing, and
nothing closes the listener of an HTTP balancer.

The state is the set of open addresses and the servers that were launched; a step is a `Launch`
or a `Shutdown` with all its effects.  A server whose `Shutdown` has failed is given up, as
`monitorReload` does: it counts as shut down.

* `startTasks_of_allStart` : a launch with distinct and free addresses starts what
  `createBalancers` starts;
* `listeners_held` : in a run in which no launch fails half-way, no shutdown fails and no server
  with an HTTP balancer is shut down, the open addresses are those that the launched servers hold;
* `http_listener_leaked` : a reload with an HTTP balancer.
-/
import Border.Listeners
import Border.Transition

namespace Border

open GoJson GoMap NetAddr Transition

/-! ## Starting balancers, with what is open -/

/-- `Balancer.Start` with the addresses that are open before and after it. -/
def Balancer.startOn (net : Network) (opened : Finset String) (b : Balancer) :
    Except Failure Unit × Finset String :=
  if b.listenSpec ∈ opened then
    (.error (.error ("Error enabling load balancer: listen tcp " ++ b.listenSpec ++
      ": bind: address already in use")), opened)
  else
    match net.listen b.listenSpec with
    | some e => (.error (.error ("Error enabling load balancer: " ++ e)), opened)
    | none =>
      match b.kind with
      | .tcp => (.ok (), insert b.listenSpec opened)
      | .http =>
        match net.serve b.listenSpec with
        | some e => (.error (.error e), (insert b.listenSpec opened).erase b.listenSpec)
        | none => (.ok (), insert b.listenSpec opened)
      | .other kind =>
        (.error (.error ("Balancer type " ++ quoted kind ++ " is unsupported")),
          insert b.listenSpec opened)

/-- One task, with the addresses that are open before and after it. -/
def startTask (net : Network) (opened : Finset String) :
    Task → Except Failure Balancer × Finset String
  | .error e => (.error e, opened)
  | .ok t =>
    match Balancer.init t.listenSpec t.config with
    | none => (.error (.exit ("Invalid address in listener " ++ quoted t.listenSpec)), opened)
    | some b =>
      match b.startOn net opened with
      | (.error e, opened') =>
        (.error (e.wrap ("Could not start balancer " ++ quoted t.name ++ ": ")), opened')
      | (.ok _, opened') => (.ok b, opened')

/-- The tasks up to the first error. -/
def startTasks (net : Network) :
    List Task → Finset String → Except Failure (List Balancer) × Finset String
  | [], opened => (.ok [], opened)
  | t :: ts, opened =>
    match startTask net opened t with
    | (.error e, opened') => (.error e, opened')
    | (.ok b, opened') =>
      match startTasks net ts opened' with
      | (.error e, opened'') => (.error e, opened'')
      | (.ok bs, opened'') => (.ok (b :: bs), opened'')

/-! ## What a task does -/

/-- The address of the task can be bound. -/
structure StartTask.Binds (net : Network) (opened : Finset String) (t : StartTask) : Prop where
  split : (Balancer.init t.listenSpec t.config).isSome
  free : t.listenSpec ∉ opened
  listen : net.listen t.listenSpec = none

/-- A balancer of that kind starts to serve on its listener. -/
def StartTask.Serves (net : Network) (t : StartTask) : Prop :=
  match t.config.kind with
  | .tcp => True
  | .http => net.serve t.listenSpec = none
  | .other _ => False

/-- The kind is unsupported, which is found out after the listener was opened. -/
def StartTask.Unsupported (t : StartTask) : Prop :=
  match t.config.kind with
  | .other _ => True
  | _ => False

/-- The task starts a balancer. -/
def Startable (net : Network) (opened : Finset String) : Task → Prop
  | .error _ => False
  | .ok t => t.Binds net opened ∧ t.Serves net

/-- The task fails and leaves its listener open. -/
def LeftOpen (net : Network) (opened : Finset String) : Task → Prop
  | .error _ => False
  | .ok t => t.Binds net opened ∧ t.Unsupported

instance (net : Network) (opened : Finset String) (t : StartTask) :
    Decidable (t.Binds net opened) :=
  decidable_of_iff ((Balancer.init t.listenSpec t.config).isSome ∧ t.listenSpec ∉ opened ∧
    net.listen t.listenSpec = none) ⟨fun ⟨h₁, h₂, h₃⟩ => ⟨h₁, h₂, h₃⟩, fun h => ⟨h.1, h.2, h.3⟩⟩

instance (net : Network) : ∀ t : StartTask, Decidable (t.Serves net)
  | ⟨_, _, ⟨.tcp, _, _, _, _⟩⟩ => isTrue trivial
  | ⟨_, listenSpec, ⟨.http, _, _, _, _⟩⟩ =>
    inferInstanceAs (Decidable (net.serve listenSpec = none))
  | ⟨_, _, ⟨.other _, _, _, _, _⟩⟩ => isFalse id

instance : ∀ t : StartTask, Decidable t.Unsupported
  | ⟨_, _, ⟨.other _, _, _, _, _⟩⟩ => isTrue trivial
  | ⟨_, _, ⟨.tcp, _, _, _, _⟩⟩ | ⟨_, _, ⟨.http, _, _, _, _⟩⟩ => isFalse id

instance (net : Network) (opened : Finset String) : ∀ t, Decidable (Startable net opened t)
  | .error _ => isFalse id
  | .ok t => inferInstanceAs (Decidable (t.Binds net opened ∧ t.Serves net))

instance (net : Network) (opened : Finset String) : ∀ t, Decidable (LeftOpen net opened t)
  | .error _ => isFalse id
  | .ok t => inferInstanceAs (Decidable (t.Binds net opened ∧ t.Unsupported))

/-- **What a task does.**  It starts a balancer, it fails and leaves its listener open, or it
fails with nothing changed. -/
theorem startTask_cases (net : Network) (opened : Finset String) (t : Task) :
    (Startable net opened t ∧ ∃ b, startTask net opened t = (.ok b, insert b.listenSpec opened) ∧
      t.run net = .ok b ∧ b.listenSpec ∉ opened) ∨
    (LeftOpen net opened t ∧ ∃ addr ∉ opened, ∃ e,
      startTask net opened t = (.error e, insert addr opened)) ∨
    (¬ Startable net opened t ∧ ¬ LeftOpen net opened t ∧
      ∃ e, startTask net opened t = (.error e, opened)) := by
  cases t with
  | error e => exact Or.inr (Or.inr ⟨id, id, e, rfl⟩)
  | ok t =>
    cases hinit : Balancer.init t.listenSpec t.config with
    | none =>
      have hnot : ¬ t.Binds net opened := fun h => by simpa [hinit] using h.split
      refine Or.inr (Or.inr ⟨fun h => hnot h.1, fun h => hnot h.1, ?_⟩)
      simp [startTask, hinit]
    | some b =>
      obtain ⟨hspec, hkind⟩ := Balancer.init_listenSpec hinit
      by_cases hfree : b.listenSpec ∈ opened
      · have hnot : ¬ t.Binds net opened := fun h => h.free (hspec ▸ hfree)
        refine Or.inr (Or.inr ⟨fun h => hnot h.1, fun h => hnot h.1, ?_⟩)
        simp [startTask, hinit, Balancer.startOn, hfree]
      cases hlisten : net.listen b.listenSpec with
      | some e =>
        have hnot : ¬ t.Binds net opened := by
          intro h
          have hnone := h.listen
          rw [← hspec, hlisten] at hnone
          exact absurd hnone (by simp)
        refine Or.inr (Or.inr ⟨fun h => hnot h.1, fun h => hnot h.1, ?_⟩)
        simp [startTask, hinit, Balancer.startOn, hfree, hlisten]
      | none =>
        have hbinds : t.Binds net opened :=
          ⟨by rw [hinit]; rfl, hspec ▸ hfree, hspec ▸ hlisten⟩
        -- the listener is open; the rest is up to the kind
        cases hk : b.kind with
        | tcp =>
          refine Or.inl ⟨⟨hbinds, ?_⟩, b, ?_, ?_, hfree⟩
          · rw [StartTask.Serves, ← hkind, hk]
            trivial
          · simp [startTask, hinit, Balancer.startOn, hfree, hlisten, hk]
          · simp [Task.run, startBalancer, hinit, Balancer.start, hlisten, hk]
        | http =>
          cases hserve : net.serve b.listenSpec with
          | none =>
            refine Or.inl ⟨⟨hbinds, ?_⟩, b, ?_, ?_, hfree⟩
            · rw [StartTask.Serves, ← hkind, hk, ← hspec]
              exact hserve
            · simp [startTask, hinit, Balancer.startOn, hfree, hlisten, hk, hserve]
            · simp [Task.run, startBalancer, hinit, Balancer.start, hlisten, hk, hserve]
          | some e =>
            refine Or.inr (Or.inr ⟨fun h => ?_, fun h => ?_, ?_⟩)
            · have hserves := h.2
              rw [StartTask.Serves, ← hkind, hk, ← hspec] at hserves
              exact absurd (hserve.symm.trans hserves) (by simp)
            · have hunsupported := h.2
              rw [StartTask.Unsupported, ← hkind, hk] at hunsupported
              exact hunsupported
            · simp [startTask, hinit, Balancer.startOn, hfree, hlisten, hk, hserve]
        | other kind =>
          refine Or.inr (Or.inl ⟨⟨hbinds, ?_⟩, ?_⟩)
          · rw [StartTask.Unsupported, ← hkind, hk]
            trivial
          · refine ⟨b.listenSpec, hfree, ?_⟩
            simp [startTask, hinit, Balancer.startOn, hfree, hlisten, hk]

/-- A task that can start can start whenever its address is free. -/
theorem Startable.of_free {net : Network} {opened opened' : Finset String} {t : Task}
    (h : Startable net opened t) (hfree : ∀ addr, t.address = some addr → addr ∉ opened') :
    Startable net opened' t := by
  cases t with
  | error e => exact h
  | ok t => exact ⟨⟨h.1.split, hfree _ rfl, h.1.listen⟩, h.2⟩

/-- No task that starts fails. -/
theorem Startable.not_leftOpen {net : Network} {opened : Finset String} {t : Task}
    (h : Startable net opened t) : ¬ LeftOpen net opened t := by
  cases t with
  | error e => exact absurd h id
  | ok t =>
    intro hleft
    have hserves := h.2
    have hunsupported := hleft.2
    unfold StartTask.Serves at hserves
    unfold StartTask.Unsupported at hunsupported
    cases hk : t.config.kind with
    | tcp | http =>
      rw [hk] at hunsupported
      exact hunsupported
    | other kind =>
      rw [hk] at hserves
      exact hserves

theorem Startable.free {net : Network} {opened : Finset String} {t : Task}
    (h : Startable net opened t) {addr : String} (haddr : t.address = some addr) :
    addr ∉ opened := by
  cases t with
  | error e => exact absurd h id
  | ok t =>
    obtain rfl := Option.some.inj haddr
    exact h.1.free

/-! ## What all tasks do -/

/-- Every task can start, and no two have the same address. -/
structure AllStart (net : Network) (opened : Finset String) (tasks : List Task) : Prop where
  startable : ∀ t ∈ tasks, Startable net opened t
  nodup : (tasks.map Task.address).Nodup

/-- The first task fails with nothing changed. -/
def FailsFirst (net : Network) (opened : Finset String) : List Task → Prop
  | [] => False
  | t :: _ => ¬ Startable net opened t ∧ ¬ LeftOpen net opened t

instance (net : Network) (opened : Finset String) (tasks : List Task) :
    Decidable (AllStart net opened tasks) :=
  decidable_of_iff ((∀ t ∈ tasks, Startable net opened t) ∧ (tasks.map Task.address).Nodup)
    ⟨fun ⟨h₁, h₂⟩ => ⟨h₁, h₂⟩, fun h => ⟨h.1, h.2⟩⟩

instance (net : Network) (opened : Finset String) : ∀ ts, Decidable (FailsFirst net opened ts)
  | [] => isFalse id
  | t :: _ => inferInstanceAs (Decidable (¬ Startable net opened t ∧ ¬ LeftOpen net opened t))

/-- The addresses of balancers. -/
def addressesOf (bs : List Balancer) : List String := bs.map Balancer.listenSpec

/-- The addresses of the tasks are those of the balancers. -/
theorem map_address_of_run {net : Network} {tasks : List Task} {bs : List Balancer}
    (h : tasks.mapM (Task.run net) = .ok bs) :
    (addressesOf bs).map some = tasks.map Task.address := by
  rw [addressesOf, List.map_map]
  exact map_of_mapM (fun t _ b hb => (Task.run_ok hb).symm) h

/-- When the first task has started, the others find its address taken. -/
theorem allStart_cons {net : Network} {opened : Finset String} {t : Task} {ts : List Task}
    {addr : String} (ht : Startable net opened t) (haddr : t.address = some addr) :
    AllStart net opened (t :: ts) ↔ AllStart net (insert addr opened) ts := by
  constructor
  · rintro ⟨hstart, hnodup⟩
    rw [List.map_cons, List.nodup_cons, haddr] at hnodup
    refine ⟨fun t' ht' => ?_, hnodup.2⟩
    have hstart' := hstart t' (List.mem_cons_of_mem _ ht')
    refine hstart'.of_free fun addr' haddr' hmem => ?_
    rcases Finset.mem_insert.mp hmem with rfl | hmem
    · rw [← haddr'] at hnodup
      exact hnodup.1 (List.mem_map_of_mem ht')
    · exact hstart'.free haddr' hmem
  · rintro ⟨hstart, hnodup⟩
    refine ⟨fun t' ht' => ?_, ?_⟩
    · rcases List.mem_cons.mp ht' with rfl | ht'
      · exact ht
      · have hstart' := hstart t' ht'
        exact hstart'.of_free fun addr' haddr' hmem =>
          hstart'.free haddr' (Finset.mem_insert_of_mem hmem)
    · rw [List.map_cons, List.nodup_cons, haddr]
      refine ⟨fun hmem => ?_, hnodup⟩
      obtain ⟨t', ht', haddr'⟩ := List.mem_map.mp hmem
      exact (hstart t' ht').free haddr' (Finset.mem_insert_self _ _)

/-- **Tasks that can all start.**  All of them are done, as `createBalancers` does them. -/
theorem startTasks_of_allStart {net : Network} {tasks : List Task} {opened : Finset String}
    (h : AllStart net opened tasks) :
    ∃ bs, tasks.mapM (Task.run net) = .ok bs ∧
      startTasks net tasks opened = (.ok bs, opened ∪ (addressesOf bs).toFinset) := by
  induction tasks generalizing opened with
  | nil => exact ⟨[], rfl, by simp [startTasks, addressesOf]⟩
  | cons t ts ih =>
    have ht := h.startable t List.mem_cons_self
    obtain ⟨-, b, htask, hrun, -⟩ | ⟨hleft, -⟩ | ⟨hnot, -⟩ := startTask_cases net opened t
    · obtain ⟨bs, hmapM, hts⟩ := ih ((allStart_cons ht (Task.run_ok hrun)).mp h)
      refine ⟨b :: bs, ?_, ?_⟩
      · rw [List.mapM_cons, hrun, hmapM]
        rfl
      · simp [startTasks, htask, hts, addressesOf]
    · exact absurd hleft ht.not_leftOpen
    · exact absurd ht hnot

/-- Tasks that cannot all start end in an error, and nothing is closed on the way. -/
theorem startTasks_error {net : Network} {tasks : List Task} {opened : Finset String}
    (h : ¬ AllStart net opened tasks) :
    ∃ e opened', startTasks net tasks opened = (.error e, opened') ∧ opened ⊆ opened' := by
  induction tasks generalizing opened with
  | nil => exact absurd ⟨by simp, by simp⟩ h
  | cons t ts ih =>
    obtain ⟨ht, b, htask, hrun, -⟩ | ⟨-, addr, -, e, htask⟩ | ⟨-, -, e, htask⟩ :=
      startTask_cases net opened t
    · have hrest := mt (allStart_cons ht (Task.run_ok hrun)).mpr h
      obtain ⟨e, opened', hts, hsub⟩ := ih hrest
      refine ⟨e, opened', ?_, (Finset.subset_insert _ _).trans hsub⟩
      simp [startTasks, htask, hts]
    · exact ⟨e, insert addr opened, by simp [startTasks, htask], Finset.subset_insert _ _⟩
    · exact ⟨e, _, by simp [startTasks, htask], Finset.Subset.refl _⟩

theorem startTasks_failsFirst {net : Network} {tasks : List Task} {opened : Finset String}
    (h : FailsFirst net opened tasks) :
    ∃ e, startTasks net tasks opened = (.error e, opened) := by
  cases tasks with
  | nil => exact absurd h id
  | cons t ts =>
    obtain ⟨hnot, hnotLeft⟩ := h
    obtain ⟨ht, -⟩ | ⟨hleft, -⟩ | ⟨-, -, e, htask⟩ := startTask_cases net opened t
    · exact absurd ht hnot
    · exact absurd hleft hnotLeft
    · exact ⟨e, by simp [startTasks, htask]⟩

/-- An error after the first listener was opened leaves a listener open. -/
theorem startTasks_leak {net : Network} {tasks : List Task} {opened : Finset String}
    (hall : ¬ AllStart net opened tasks) (hfirst : ¬ FailsFirst net opened tasks) :
    ∃ e opened', startTasks net tasks opened = (.error e, opened') ∧ opened ⊆ opened' ∧
      ∃ addr ∈ opened', addr ∉ opened := by
  obtain ⟨e, opened', herror, hsub⟩ := startTasks_error hall
  refine ⟨e, opened', herror, hsub, ?_⟩
  cases tasks with
  | nil => exact absurd ⟨by simp, by simp⟩ hall
  | cons t ts =>
    obtain ⟨ht, b, htask, hrun, hfree⟩ | ⟨-, addr, hfree, e', htask⟩ | ⟨hnot, hnotLeft, -⟩ :=
      startTask_cases net opened t
    · have hrest := mt (allStart_cons ht (Task.run_ok hrun)).mpr hall
      obtain ⟨e', opened'', hts, hsub'⟩ := startTasks_error hrest
      refine ⟨b.listenSpec, ?_, hfree⟩
      simp only [startTasks, htask, hts, Prod.mk.injEq] at herror
      rw [← herror.2]
      exact hsub' (Finset.mem_insert_self _ _)
    · refine ⟨addr, ?_, hfree⟩
      simp only [startTasks, htask, Prod.mk.injEq] at herror
      rw [← herror.2]
      exact Finset.mem_insert_self _ _
    · exact absurd ⟨hnot, hnotLeft⟩ hfirst

/-- A task that succeeds where nothing is open can start where its address is free. -/
theorem startable_of_run {net : Network} {opened : Finset String} {t : Task} {b : Balancer}
    (h : t.run net = .ok b) (hfree : b.listenSpec ∉ opened) : Startable net opened t := by
  cases t with
  | error e => exact absurd h (by simp [Task.run])
  | ok t =>
    have hspec : t.listenSpec = b.listenSpec := Option.some.inj (Task.run_ok h)
    simp only [Task.run, startBalancer] at h
    cases hinit : Balancer.init t.listenSpec t.config with
    | none =>
      rw [hinit] at h
      exact absurd h (by simp)
    | some b' =>
      obtain ⟨hspec', hkind⟩ := Balancer.init_listenSpec hinit
      simp only [hinit, Balancer.start] at h
      cases hlisten : net.listen b'.listenSpec with
      | some e =>
        simp only [hlisten] at h
        exact absurd h (by simp)
      | none =>
        refine ⟨⟨by rw [hinit]; rfl, hspec ▸ hfree, hspec' ▸ hlisten⟩, ?_⟩
        unfold StartTask.Serves
        rw [← hkind]
        cases hk : b'.kind with
        | tcp => trivial
        | http =>
          cases hserve : net.serve b'.listenSpec with
          | none => exact hspec' ▸ hserve
          | some e =>
            simp only [hlisten, hk, hserve] at h
            exact absurd h (by simp)
        | other kind =>
          simp only [hlisten, hk] at h
          exact absurd h (by simp)

/-- **When balancers can be started.**  Balancers that can be started where nothing is open can
be started when their addresses are distinct and free. -/
theorem allStart_of_free {net : Network} {tasks : List Task} {bs : List Balancer}
    {opened : Finset String} (h : tasks.mapM (Task.run net) = .ok bs)
    (hnodup : (addressesOf bs).Nodup) (hfree : ∀ addr ∈ addressesOf bs, addr ∉ opened) :
    AllStart net opened tasks := by
  refine ⟨fun t ht => ?_, ?_⟩
  · obtain ⟨b, hb, hrun⟩ := exists_of_mapM h ht
    exact startable_of_run hrun (hfree _ (List.mem_map_of_mem hb))
  · rw [← map_address_of_run h]
    exact hnodup.map (Option.some_injective _)

/-! ## Launches and shutdowns -/

/-- What has become of a server. -/
inductive ServerStage
  | up
  /-- `Shutdown` has returned an error before it came to the balancers. -/
  | abandoned
  | stopped
  deriving DecidableEq

/-- A `Server` that was launched: its configuration at that time, its balancers, and what has
become of it. -/
structure LaunchedServer where
  config : ConfigData
  balancers : List Balancer
  stage : ServerStage

/-- The open addresses, and the servers that were launched. -/
structure Lifetime where
  opened : Finset String
  servers : List LaunchedServer

/-- No server was launched yet. -/
def Lifetime.start : Lifetime := ⟨∅, []⟩

inductive LifetimeAct
  /-- `Launch`, up to and with `createBalancers`. -/
  | launch (net : Network) (order : RangeOrder String (Option Zone)) (c : ConfigData)
  /-- `Shutdown` of a server, with the error of the DNS or control server, if any. -/
  | shutdown (k : ℕ) (failure : Option String)

/-- The addresses that the cancellation in `Shutdown` closes: `monitorListen` runs for TCP
balancers only. -/
def closedByCancel (bs : List Balancer) : List String :=
  addressesOf (bs.filter fun b => b.kind = .tcp)

/-- A step.  An error of the DNS or control server ends `Shutdown` before it comes to the
balancers, and cancelling a second time does nothing. -/
def lifetimeStep (s : Lifetime) : LifetimeAct → Option Lifetime
  | .launch net order c =>
    match startTasks net (balancerTasks order c) s.opened with
    | (.error _, opened) => some { s with opened := opened }
    | (.ok bs, opened) => some ⟨opened, s.servers ++ [⟨c, bs, .up⟩]⟩
  | .shutdown k failure =>
    match s.servers[k]? with
    | none => none
    | some server =>
      match failure with
      | some _ =>
        if server.stage = .up then
          some { s with servers := s.servers.set k { server with stage := .abandoned } }
        else some s
      | none =>
        if server.stage = .stopped then some s
        else some ⟨s.opened \ (closedByCancel server.balancers).toFinset,
          s.servers.set k { server with stage := .stopped }⟩

/-- A server that is not shut down holds a balancer with that address. -/
def Lifetime.Held (s : Lifetime) (addr : String) : Prop :=
  ∃ (k : ℕ) (server : LaunchedServer), s.servers[k]? = some server ∧ server.stage = .up ∧
    addr ∈ addressesOf server.balancers

/-- What a step can do. -/
inductive LifetimeMove (s : Lifetime) : LifetimeAct → Lifetime → Prop
  | launched {net : Network} {order : RangeOrder String (Option Zone)} {c : ConfigData}
      {bs : List Balancer} (hall : AllStart net s.opened (balancerTasks order c))
      (hbs : (balancerTasks order c).mapM (Task.run net) = .ok bs) :
      LifetimeMove s (.launch net order c)
        ⟨s.opened ∪ (addressesOf bs).toFinset, s.servers ++ [⟨c, bs, .up⟩]⟩
  | failed {net : Network} {order : RangeOrder String (Option Zone)} {c : ConfigData}
      {opened : Finset String} (hall : ¬ AllStart net s.opened (balancerTasks order c))
      (hopened : s.opened ⊆ opened)
      (hsame : FailsFirst net s.opened (balancerTasks order c) → opened = s.opened)
      (hleak : ¬ FailsFirst net s.opened (balancerTasks order c) →
        ∃ addr ∈ opened, addr ∉ s.opened) :
      LifetimeMove s (.launch net order c) { s with opened := opened }
  | stopped {k : ℕ} {server : LaunchedServer} (hserver : s.servers[k]? = some server)
      (hstage : server.stage ≠ .stopped) :
      LifetimeMove s (.shutdown k none) ⟨s.opened \ (closedByCancel server.balancers).toFinset,
        s.servers.set k { server with stage := .stopped }⟩
  | abandoned {k : ℕ} {e : String} {server : LaunchedServer}
      (hserver : s.servers[k]? = some server) (hup : server.stage = .up) :
      LifetimeMove s (.shutdown k (some e))
        { s with servers := s.servers.set k { server with stage := .abandoned } }
  | unchanged {k : ℕ} {failure : Option String} {server : LaunchedServer}
      (hserver : s.servers[k]? = some server) (hstage : server.stage ≠ .up) :
      LifetimeMove s (.shutdown k failure) s

theorem lifetimeStep_move {s s' : Lifetime} {a : LifetimeAct} (h : lifetimeStep s a = some s') :
    LifetimeMove s a s' := by
  cases a with
  | launch net order c =>
    by_cases hall : AllStart net s.opened (balancerTasks order c)
    · obtain ⟨bs, hbs, hstart⟩ := startTasks_of_allStart hall
      simp only [lifetimeStep, hstart, Option.some.injEq] at h
      rw [← h]
      exact .launched hall hbs
    · by_cases hfirst : FailsFirst net s.opened (balancerTasks order c)
      · obtain ⟨e, hstart⟩ := startTasks_failsFirst hfirst
        simp only [lifetimeStep, hstart, Option.some.injEq] at h
        rw [← h]
        exact .failed hall (Finset.Subset.refl _) (fun _ => rfl) (fun hnot => absurd hfirst hnot)
      · obtain ⟨e, opened, hstart, hsub, hleak⟩ := startTasks_leak hall hfirst
        simp only [lifetimeStep, hstart, Option.some.injEq] at h
        rw [← h]
        exact .failed hall hsub (fun hf => absurd hf hfirst) (fun _ => hleak)
  | shutdown k failure =>
    rw [lifetimeStep] at h
    cases hserver : s.servers[k]? with
    | none =>
      rw [hserver] at h
      exact absurd h (by simp)
    | some server =>
      rw [hserver] at h
      cases failure with
      | some e =>
        dsimp only at h
        by_cases hup : server.stage = .up
        · rw [if_pos hup] at h
          rw [← Option.some.inj h]
          exact .abandoned hserver hup
        · rw [if_neg hup] at h
          rw [← Option.some.inj h]
          exact .unchanged hserver hup
      | none =>
        dsimp only at h
        by_cases hstopped : server.stage = .stopped
        · rw [if_pos hstopped] at h
          rw [← Option.some.inj h]
          exact .unchanged hserver (by rw [hstopped]; decide)
        · rw [if_neg hstopped] at h
          rw [← Option.some.inj h]
          exact .stopped hserver hstopped

/-! ## Runs in which nothing is left behind -/

/-- A launch that starts every balancer or fails with nothing opened; a shutdown that gets to
every balancer of its server, all of which are TCP balancers. -/
def Tidy (s : Lifetime) : LifetimeAct → Prop
  | .launch net order c => AllStart net s.opened (balancerTasks order c) ∨
      FailsFirst net s.opened (balancerTasks order c)
  | .shutdown k failure => ∀ server ∈ s.servers[k]?, server.stage = .up →
      ∀ b ∈ server.balancers, failure = none ∧ b.kind = .tcp

instance (s : Lifetime) : ∀ a, Decidable (Tidy s a)
  | .launch net order c => inferInstanceAs (Decidable (AllStart net s.opened (balancerTasks order c)
      ∨ FailsFirst net s.opened (balancerTasks order c)))
  | .shutdown k failure => inferInstanceAs (Decidable (∀ server ∈ s.servers[k]?,
      server.stage = .up → ∀ b ∈ server.balancers, failure = none ∧ b.kind = .tcp))

/-- The open addresses are those of the servers that are not shut down, each of one server and
of one balancer; a server that was given up has no balancers. -/
structure Lifetime.Settled (s : Lifetime) : Prop where
  held : ∀ addr, addr ∈ s.opened ↔ s.Held addr
  apart : ∀ (i j : ℕ) (server other : LaunchedServer) (addr : String),
    s.servers[i]? = some server → s.servers[j]? = some other →
    server.stage = .up → other.stage = .up → addr ∈ addressesOf server.balancers →
    addr ∈ addressesOf other.balancers → i = j
  made : ∀ server ∈ s.servers, (addressesOf server.balancers).Nodup ∧
    ∃ net order, (balancerTasks order server.config).mapM (Task.run net) = .ok server.balancers
  given : ∀ server ∈ s.servers, server.stage = .abandoned → server.balancers = []

theorem Lifetime.settled_start : Lifetime.start.Settled where
  held addr := ⟨fun h => absurd h (Finset.notMem_empty _), fun ⟨k, server, h, _⟩ =>
    absurd h (by simp [Lifetime.start])⟩
  apart i j server other addr h := absurd h (by simp [Lifetime.start])
  made server h := absurd h List.not_mem_nil
  given server h := absurd h List.not_mem_nil

/-- An entry of a list with one more entry. -/
theorem getElem?_concat_eq_some {α : Type} {l : List α} {x y : α} {k : ℕ} :
    (l ++ [x])[k]? = some y ↔ l[k]? = some y ∨ (k = l.length ∧ x = y) := by
  rw [List.getElem?_append]
  split_ifs with hk
  · constructor
    · exact Or.inl
    · rintro (h | ⟨rfl, -⟩)
      · exact h
      · exact absurd hk (lt_irrefl _)
  · rw [List.getElem?_eq_none (l := l) (by omega), List.getElem?_singleton]
    split_ifs with h0
    · rw [Option.some.injEq]
      constructor
      · exact fun h => Or.inr ⟨by omega, h⟩
      · rintro (h | ⟨-, h⟩)
        · exact absurd h (by simp)
        · exact h
    · constructor
      · exact fun h => absurd h (by simp)
      · rintro (h | ⟨rfl, -⟩)
        · exact absurd h (by simp)
        · exact absurd (Nat.sub_self _) h0

/-- The addresses of balancers that can all start were free. -/
theorem AllStart.free {net : Network} {opened : Finset String} {tasks : List Task}
    {bs : List Balancer} (h : AllStart net opened tasks)
    (hbs : tasks.mapM (Task.run net) = .ok bs) {addr : String} (haddr : addr ∈ addressesOf bs) :
    addr ∉ opened := by
  have hmem : some addr ∈ tasks.map Task.address := by
    rw [← map_address_of_run hbs]
    exact List.mem_map_of_mem haddr
  obtain ⟨t, ht, htaddr⟩ := List.mem_map.mp hmem
  exact (h.startable t ht).free htaddr

theorem AllStart.addresses_nodup {net : Network} {opened : Finset String} {tasks : List Task}
    {bs : List Balancer} (h : AllStart net opened tasks)
    (hbs : tasks.mapM (Task.run net) = .ok bs) : (addressesOf bs).Nodup := by
  have hnodup := h.nodup
  rw [← map_address_of_run hbs] at hnodup
  exact hnodup.of_map _

section Steps

variable {s : Lifetime}

/-- After a launch, the servers hold what they held and what was started. -/
theorem held_launched {opened : Finset String} {c : ConfigData} {bs : List Balancer}
    {addr : String} :
    Lifetime.Held ⟨opened, s.servers ++ [⟨c, bs, .up⟩]⟩ addr ↔
      s.Held addr ∨ addr ∈ addressesOf bs := by
  constructor
  · rintro ⟨k, server, hserver, hup, haddr⟩
    rcases getElem?_concat_eq_some.mp hserver with hserver | ⟨-, rfl⟩
    · exact Or.inl ⟨k, server, hserver, hup, haddr⟩
    · exact Or.inr haddr
  · rintro (⟨k, server, hserver, hup, haddr⟩ | haddr)
    · exact ⟨k, server, getElem?_concat_eq_some.mpr (Or.inl hserver), hup, haddr⟩
    · exact ⟨s.servers.length, _, getElem?_concat_eq_some.mpr (Or.inr ⟨rfl, rfl⟩), rfl, haddr⟩

section Leaving

variable {opened : Finset String} {k : ℕ} {server : LaunchedServer} {stage : ServerStage}

/-- A list after one of its elements was replaced. -/
theorem of_getElem?_set {α : Type} {l : List α} {i : ℕ} {a b : α}
    (h : (l.set k a)[i]? = some b) : i = k ∧ b = a ∨ i ≠ k ∧ l[i]? = some b := by
  by_cases hik : i = k
  · subst hik
    obtain ⟨hlt, heq⟩ := List.getElem?_eq_some_iff.mp h
    rw [List.getElem_set_self] at heq
    exact Or.inl ⟨rfl, heq.symm⟩
  · rw [List.getElem?_set_ne (Ne.symm hik)] at h
    exact Or.inr ⟨hik, h⟩

/-- After a shutdown, the servers that are up are the other ones. -/
theorem up_of_set {i : ℕ} {other : LaunchedServer} (hstage : stage ≠ .up)
    (h : (s.servers.set k { server with stage := stage })[i]? = some other)
    (hup : other.stage = .up) : i ≠ k ∧ s.servers[i]? = some other := by
  rcases of_getElem?_set h with ⟨-, rfl⟩ | hother
  · exact absurd hup hstage
  · exact hother

/-- After a shutdown, an address is held that another server holds. -/
theorem held_set {addr : String} (hstage : stage ≠ .up) :
    Lifetime.Held ⟨opened, s.servers.set k { server with stage := stage }⟩ addr ↔
      ∃ (i : ℕ) (other : LaunchedServer), i ≠ k ∧ s.servers[i]? = some other ∧
        other.stage = .up ∧ addr ∈ addressesOf other.balancers := by
  constructor
  · rintro ⟨i, other, hother, hup, haddr⟩
    obtain ⟨hik, hother⟩ := up_of_set hstage hother hup
    exact ⟨i, other, hik, hother, hup, haddr⟩
  · rintro ⟨i, other, hik, hother, hup, haddr⟩
    refine ⟨i, other, ?_, hup, haddr⟩
    rwa [List.getElem?_set_ne (Ne.symm hik)]

/-- An address of a server that leaves is then held by nobody. -/
theorem Lifetime.Settled.not_held_set (hs : s.Settled) (hserver : s.servers[k]? = some server)
    (hup : server.stage = .up) (hstage : stage ≠ .up) {addr : String}
    (haddr : addr ∈ addressesOf server.balancers) :
    ¬ Lifetime.Held ⟨opened, s.servers.set k { server with stage := stage }⟩ addr := by
  rw [held_set hstage]
  rintro ⟨i, other, hik, hother, hup', haddr'⟩
  exact hik (hs.apart i k other server _ hother hserver hup' hup haddr' haddr)

/-- **A server that leaves with all its addresses.** -/
theorem Lifetime.Settled.leave (hs : s.Settled) (hserver : s.servers[k]? = some server)
    (hstage : stage ≠ .up) (hgiven : server.stage ≠ .up ∨ stage = .abandoned →
      addressesOf server.balancers = [])
    (hopened : opened = s.opened \ (addressesOf server.balancers).toFinset) :
    Lifetime.Settled ⟨opened, s.servers.set k { server with stage := stage }⟩ := by
  refine ⟨fun addr => ?_, ?_, ?_, ?_⟩
  · rw [held_set hstage, hopened, Finset.mem_sdiff, List.mem_toFinset, hs.held addr]
    constructor
    · rintro ⟨⟨i, other, hother, hup, haddr⟩, hnot⟩
      refine ⟨i, other, ?_, hother, hup, haddr⟩
      rintro rfl
      obtain rfl := Option.some.inj (hserver.symm.trans hother)
      exact hnot haddr
    · rintro ⟨i, other, hik, hother, hup, haddr⟩
      refine ⟨⟨i, other, hother, hup, haddr⟩, fun hmem => ?_⟩
      by_cases hserverUp : server.stage = .up
      · exact hik (hs.apart i k other server addr hother hserver hup hserverUp haddr hmem)
      · rw [hgiven (Or.inl hserverUp)] at hmem
        exact absurd hmem List.not_mem_nil
  · intro i j other other' addr hi hj hup hup' haddr haddr'
    exact hs.apart i j other other' addr (up_of_set hstage hi hup).2 (up_of_set hstage hj hup').2
      hup hup' haddr haddr'
  · intro other hother
    rcases List.mem_or_eq_of_mem_set hother with hother | rfl
    · exact hs.made other hother
    · exact hs.made server (List.mem_of_getElem? hserver)
  · intro other hother habandoned
    rcases List.mem_or_eq_of_mem_set hother with hother | rfl
    · exact hs.given other hother habandoned
    · exact List.map_eq_nil_iff.mp (hgiven (Or.inr habandoned))

end Leaving

/-- The cancellation closes all listeners of a server with TCP balancers only. -/
theorem closedByCancel_tcp {bs : List Balancer} (h : ∀ b ∈ bs, b.kind = .tcp) :
    closedByCancel bs = addressesOf bs := by
  rw [closedByCancel, List.filter_eq_self.mpr fun b hb => decide_eq_true (h b hb)]

/-- **A step that leaves nothing behind.** -/
theorem Lifetime.Settled.step {s' : Lifetime} {a : LifetimeAct} (hs : s.Settled) (hG : Tidy s a)
    (h : LifetimeMove s a s') : s'.Settled := by
  cases h with
  | unchanged => exact hs
  | failed hall hopened hsame hleak =>
    rw [hsame (hG.resolve_left hall)]
    exact hs
  | @launched net order c bs hall hbs =>
    have hfree : ∀ (i : ℕ) (server : LaunchedServer) (addr : String),
        s.servers[i]? = some server → server.stage = .up →
        addr ∈ addressesOf server.balancers → addr ∉ addressesOf bs :=
      fun i server addr hserver hup haddr hnew =>
        hall.free hbs hnew ((hs.held addr).mpr ⟨i, server, hserver, hup, haddr⟩)
    refine ⟨?_, ?_, ?_, ?_⟩
    · intro addr
      rw [held_launched, Finset.mem_union, List.mem_toFinset, hs.held addr]
    · intro i j server other addr hi hj hup hup' haddr haddr'
      rcases getElem?_concat_eq_some.mp hi with hi | ⟨hi', rfl⟩
      · rcases getElem?_concat_eq_some.mp hj with hj | ⟨-, rfl⟩
        · exact hs.apart i j server other addr hi hj hup hup' haddr haddr'
        · exact absurd haddr' (hfree i server addr hi hup haddr)
      · rcases getElem?_concat_eq_some.mp hj with hj | ⟨hj', -⟩
        · exact absurd haddr (hfree j other addr hj hup' haddr')
        · omega
    · intro server hserver
      rcases List.mem_append.mp hserver with hserver | hserver
      · exact hs.made server hserver
      · obtain rfl := List.mem_singleton.mp hserver
        exact ⟨hall.addresses_nodup hbs, net, order, hbs⟩
    · intro server hserver habandoned
      rcases List.mem_append.mp hserver with hserver | hserver
      · exact hs.given server hserver habandoned
      · obtain rfl := List.mem_singleton.mp hserver
        cases habandoned
  | @stopped k server hserver hstage =>
    have hgiven : server.stage ≠ .up → server.balancers = [] := by
      intro hup
      refine hs.given server (List.mem_of_getElem? hserver) ?_
      cases hcase : server.stage with
      | up => exact absurd hcase hup
      | abandoned => rfl
      | stopped => exact absurd hcase hstage
    have htcp : ∀ b ∈ server.balancers, b.kind = .tcp := by
      intro b hb
      by_cases hup : server.stage = .up
      · exact (hG server hserver hup b hb).2
      · rw [hgiven hup] at hb
        exact absurd hb List.not_mem_nil
    refine hs.leave hserver (by decide) ?_ (by rw [closedByCancel_tcp htcp])
    rintro (hup | hnot)
    · rw [hgiven hup]
      rfl
    · cases hnot
  | @abandoned k e server hserver hup =>
    -- a shutdown that fails may only be one of a server without balancers
    have hnone : server.balancers = [] := by
      refine List.eq_nil_iff_forall_not_mem.mpr fun b hb => ?_
      exact absurd (hG server hserver hup b hb).1 (by simp)
    have haddresses : addressesOf server.balancers = [] := by
      rw [hnone]
      rfl
    refine hs.leave hserver (by decide) (fun _ => haddresses) ?_
    rw [haddresses, List.toFinset_nil, Finset.sdiff_empty]

/-- **A step that leaves a listener behind**: it is open, and no server holds it.  A server that
was given up has it only when it is the one of this step. -/
theorem leaked_of_not_tidy {s' : Lifetime} {a : LifetimeAct} (hs : s.Settled) (hG : ¬ Tidy s a)
    (h : LifetimeMove s a s') :
    ∃ addr ∈ s'.opened, ¬ s'.Held addr ∧ ∀ (j : ℕ) (server : LaunchedServer),
      s'.servers[j]? = some server → server.stage = .abandoned →
      addr ∈ addressesOf server.balancers → ∃ e, a = .shutdown j (some e) := by
  have hgiven : ∀ (j : ℕ) (server : LaunchedServer) (addr : String),
      s.servers[j]? = some server → server.stage = .abandoned →
      addr ∉ addressesOf server.balancers := by
    intro j server addr hserver habandoned haddr
    rw [hs.given server (List.mem_of_getElem? hserver) habandoned] at haddr
    exact absurd haddr List.not_mem_nil
  cases h with
  | @unchanged k failure server hserver hstage =>
    refine absurd (fun server' hserver' hup => ?_) hG
    obtain rfl := Option.some.inj (hserver.symm.trans hserver')
    exact absurd hup hstage
  | launched hall hbs => exact absurd (Or.inl hall) hG
  | failed hall hopened hsame hleak =>
    obtain ⟨addr, haddr, hnew⟩ := hleak fun hfirst => hG (Or.inr hfirst)
    refine ⟨addr, haddr, fun hheld => hnew ((hs.held addr).mpr hheld), ?_⟩
    exact fun j server hserver habandoned hmem =>
      absurd hmem (hgiven j server addr hserver habandoned)
  | @stopped k server hserver hstage =>
    obtain ⟨hup, b, hb, hkind⟩ : server.stage = .up ∧ ∃ b ∈ server.balancers, b.kind ≠ .tcp := by
      by_contra hall
      push Not at hall
      refine hG fun server' hserver' hup b hb => ?_
      obtain rfl := Option.some.inj (hserver.symm.trans hserver')
      exact ⟨rfl, hall hup b hb⟩
    have haddr : b.listenSpec ∈ addressesOf server.balancers := List.mem_map_of_mem hb
    refine ⟨b.listenSpec, ?_, hs.not_held_set hserver hup (by decide) haddr, ?_⟩
    · refine Finset.mem_sdiff.mpr ⟨(hs.held _).mpr ⟨k, server, hserver, hup, haddr⟩, ?_⟩
      rw [List.mem_toFinset]
      intro hclosed
      -- the balancers of a server have different addresses, so it would be this one
      obtain ⟨b', hb', hspec⟩ := List.mem_map.mp hclosed
      obtain ⟨hmem, htcp⟩ := List.mem_filter.mp hb'
      obtain rfl := List.inj_on_of_nodup_map (hs.made server (List.mem_of_getElem? hserver)).1
        hmem hb hspec
      exact hkind (of_decide_eq_true htcp)
    · intro j other hother habandoned hmem
      rcases of_getElem?_set hother with ⟨-, rfl⟩ | ⟨-, hother⟩
      · cases habandoned
      · exact absurd hmem (hgiven j other _ hother habandoned)
  | @abandoned k e server hserver hup =>
    obtain ⟨b, hb⟩ : ∃ b, b ∈ server.balancers := by
      by_contra hnone
      push Not at hnone
      refine hG fun server' hserver' _ b hb => ?_
      obtain rfl := Option.some.inj (hserver.symm.trans hserver')
      exact absurd hb (hnone b)
    have haddr : b.listenSpec ∈ addressesOf server.balancers := List.mem_map_of_mem hb
    refine ⟨b.listenSpec, (hs.held _).mpr ⟨k, server, hserver, hup, haddr⟩,
      hs.not_held_set hserver hup (by decide) haddr, fun j other hother habandoned hmem => ?_⟩
    rcases of_getElem?_set hother with ⟨rfl, -⟩ | ⟨-, hother⟩
    · exact ⟨e, rfl⟩
    · exact absurd hmem (hgiven j other _ hother habandoned)

/-- An address that is open, that no server holds, and that no server but `exempt` could still
close. -/
structure Lifetime.Leaked (s : Lifetime) (addr : String) (exempt : ℕ → Prop) : Prop where
  opened : addr ∈ s.opened
  unheld : ¬ s.Held addr
  given : ∀ (j : ℕ) (server : LaunchedServer), s.servers[j]? = some server →
    server.stage = .abandoned → addr ∈ addressesOf server.balancers → exempt j

/-- What is left behind stays behind: no launch can bind it again, and no step closes it but a
second shutdown of the server that was given up with it. -/
theorem Lifetime.Leaked.step {s' : Lifetime} {a : LifetimeAct} {addr : String} {exempt : ℕ → Prop}
    (hs : s.Leaked addr exempt) (hagain : ∀ k, exempt k → a ≠ .shutdown k none)
    (h : LifetimeMove s a s') : s'.Leaked addr exempt := by
  have hset : ∀ {opened : Finset String} {k : ℕ} {server : LaunchedServer} {stage : ServerStage},
      s.servers[k]? = some server → stage ≠ .up →
      (stage = .abandoned → server.stage = .up) → addr ∈ opened →
      Lifetime.Leaked ⟨opened, s.servers.set k { server with stage := stage }⟩ addr exempt := by
    intro opened k server stage hserver hstage hup hopen
    refine ⟨hopen, ?_, fun j other hother habandoned hmem => ?_⟩
    · rw [held_set hstage]
      rintro ⟨i, other, -, hother, hup', haddr⟩
      exact hs.unheld ⟨i, other, hother, hup', haddr⟩
    · rcases of_getElem?_set hother with ⟨rfl, rfl⟩ | ⟨-, hother⟩
      · exact absurd ⟨j, server, hserver, hup habandoned, hmem⟩ hs.unheld
      · exact hs.given j other hother habandoned hmem
  cases h with
  | unchanged => exact hs
  | launched hall hbs =>
    refine ⟨Finset.mem_union_left _ hs.opened, ?_, fun j server hserver habandoned hmem => ?_⟩
    · rw [held_launched]
      rintro (hheld | hnew)
      · exact hs.unheld hheld
      · exact hall.free hbs hnew hs.opened
    · rcases getElem?_concat_eq_some.mp hserver with hserver | ⟨-, rfl⟩
      · exact hs.given j server hserver habandoned hmem
      · cases habandoned
  | failed hall hopened => exact ⟨hopened hs.opened, hs.unheld, hs.given⟩
  | @abandoned k e server hserver hup =>
    exact hset hserver (by decide) (fun _ => hup) hs.opened
  | @stopped k server hserver hstage =>
    refine hset hserver (by decide) (fun h => by cases h) ?_
    refine Finset.mem_sdiff.mpr ⟨hs.opened, fun hclosed => ?_⟩
    obtain ⟨b, hb, rfl⟩ := List.mem_map.mp (List.mem_toFinset.mp hclosed)
    have haddr : b.listenSpec ∈ addressesOf server.balancers :=
      List.mem_map_of_mem (List.mem_of_mem_filter hb)
    cases hcase : server.stage with
    | up => exact hs.unheld ⟨k, server, hserver, hcase, haddr⟩
    | abandoned => exact hagain k (hs.given k server hserver hcase haddr) rfl
    | stopped => exact hstage hcase

end Steps

/-- Two orders of the zones give the same tasks. -/
theorem balancerTasks_perm (order order' : RangeOrder String (Option Zone)) (c : ConfigData) :
    (balancerTasks order c).Perm (balancerTasks order' c) := by
  apply List.Perm.flatMap_right
  rw [List.perm_ext_iff_of_nodup (order.nodup _) (order'.nodup _)]
  intro key
  rw [order.mem_keys, order'.mem_keys]

/-- Balancers made from one configuration have the same addresses. -/
theorem addressesOf_perm {net net' : Network} {order order' : RangeOrder String (Option Zone)}
    {c : ConfigData} {bs bs' : List Balancer}
    (h : (balancerTasks order c).mapM (Task.run net) = .ok bs)
    (h' : (balancerTasks order' c).mapM (Task.run net') = .ok bs') :
    (addressesOf bs).Perm (addressesOf bs') := by
  have hperm := (balancerTasks_perm order order' c).map Task.address
  rw [← map_address_of_run h, ← map_address_of_run h'] at hperm
  simpa using hperm.filterMap id

/-- **Launching again.**  After the shutdown of a server with TCP balancers only, a launch with
its configuration binds every address again. -/
theorem relaunch_binds {s : Lifetime} (hs : s.Settled) {k : ℕ} {server : LaunchedServer}
    (hserver : s.servers[k]? = some server) (hup : server.stage = .up)
    (htidy : Tidy s (.shutdown k none)) {s' : Lifetime}
    (hstep : lifetimeStep s (.shutdown k none) = some s') {net : Network}
    {order : RangeOrder String (Option Zone)} {peerName : String} {bs : List Balancer}
    (hbs : createBalancers net order peerName server.config = .ok bs) :
    lifetimeStep s' (.launch net order server.config)
      = some ⟨s'.opened ∪ (addressesOf bs).toFinset,
          s'.servers ++ [⟨server.config, bs, .up⟩]⟩ := by
  rw [createBalancers_eq_tasks] at hbs
  obtain ⟨hnodup, net₀, order₀, hmade⟩ := hs.made server (List.mem_of_getElem? hserver)
  have hperm := addressesOf_perm hbs hmade
  have hs' : s' = ⟨s.opened \ (addressesOf server.balancers).toFinset,
      s.servers.set k { server with stage := .stopped }⟩ := by
    have hnot : server.stage ≠ .stopped := by
      rw [hup]
      decide
    simp only [lifetimeStep, hserver, if_neg hnot, Option.some.injEq] at hstep
    rw [← hstep, closedByCancel_tcp fun b hb => (htidy server hserver hup b hb).2]
  have hfree : ∀ addr ∈ addressesOf bs, addr ∉ s'.opened := by
    intro addr haddr hmem
    rw [hs'] at hmem
    exact (Finset.mem_sdiff.mp hmem).2 (List.mem_toFinset.mpr (hperm.mem_iff.mp haddr))
  obtain ⟨bs', hbs', hstart⟩ :=
    startTasks_of_allStart (allStart_of_free hbs (hperm.nodup_iff.mpr hnodup) hfree)
  obtain rfl := Except.ok.inj (hbs.symm.trans hbs')
  rw [lifetimeStep, hstart]

/-- **Listeners of launched servers.**  In a run in which every launch starts all its balancers
or fails with nothing opened, and every shutdown gets to the balancers of its server, which are all
TCP balancers, the open addresses are those of the balancers that a launched and not yet shut down
server holds, and after a shutdown a launch with the same configuration binds every address again.
Any other step leaves an address open that no server holds, for good, unless it is a shutdown that
has failed and that is called again. -/
theorem listeners_held {as : List LifetimeAct} {s : Lifetime}
    (hrun : run lifetimeStep .start as = some s) (htidy : Along lifetimeStep Tidy .start as) :
    ((∀ addr, addr ∈ s.opened ↔ s.Held addr) ∧
      ∀ k server s', s.servers[k]? = some server → server.stage = .up →
        Tidy s (.shutdown k none) → lifetimeStep s (.shutdown k none) = some s' →
        ∀ net order peerName bs, createBalancers net order peerName server.config = .ok bs →
          lifetimeStep s' (.launch net order server.config)
            = some ⟨s'.opened ∪ (addressesOf bs).toFinset,
                s'.servers ++ [⟨server.config, bs, .up⟩]⟩) ∧
    ∀ a s', lifetimeStep s a = some s' → ¬ Tidy s a →
      ∃ addr, (addr ∈ s'.opened ∧ ¬ s'.Held addr) ∧
        ∀ bs t, run lifetimeStep s' bs = some t →
          (∀ k e, a = .shutdown k (some e) → .shutdown k none ∉ bs) →
          addr ∈ t.opened ∧ ¬ t.Held addr := by
  have hs : s.Settled :=
    run_invariant_along (P := Lifetime.Settled)
      (fun t a t' ht hG hstep => ht.step hG (lifetimeStep_move hstep))
      Lifetime.settled_start htidy hrun
  refine ⟨⟨hs.held, fun k server s' hserver hup ht hstep net order peerName bs hbs =>
    relaunch_binds hs hserver hup ht hstep hbs⟩, fun a s' hstep hnot => ?_⟩
  obtain ⟨addr, hopen, hheld, hgiven⟩ := leaked_of_not_tidy hs hnot (lifetimeStep_move hstep)
  refine ⟨addr, ⟨hopen, hheld⟩, fun bs t ht hagain => ?_⟩
  have hleaked : s'.Leaked addr fun j => ∃ e, a = .shutdown j (some e) := ⟨hopen, hheld, hgiven⟩
  have hbs : Along lifetimeStep
      (fun _ b => ∀ k, (∃ e, a = .shutdown k (some e)) → b ≠ .shutdown k none) s' bs :=
    along_of_forall
      (G := fun b => ∀ k, (∃ e, a = .shutdown k (some e)) → b ≠ LifetimeAct.shutdown k none)
      (fun b hb k ⟨e, hk⟩ heq => hagain k e hk (heq ▸ hb)) s'
  have hfinal := run_invariant_along
    (P := fun u => Lifetime.Leaked u addr fun j => ∃ e, a = .shutdown j (some e))
    (fun u b u' hu hb hstep => hu.step hb (lifetimeStep_move hstep)) hleaked hbs ht
  exact ⟨hfinal.opened, hfinal.unheld⟩

/-- A launch of a node with one LB record, with one listener. -/
def launchCluster (kind : String) : LifetimeAct :=
  .launch quietNetwork (sortedOrder _ _) (clusterConfig kind ["foo:8000"])

/-- A reload with a TCP balancer: launch, shutdown, launch. -/
theorem listeners_held_tcp :
    ∃ s, run lifetimeStep .start [launchCluster "tcp", .shutdown 0 none, launchCluster "tcp"]
        = some s ∧
      s.opened = {"10.0.0.1:8000"} ∧ s.Held "10.0.0.1:8000" := by
  have hany : (run lifetimeStep .start [launchCluster "tcp", .shutdown 0 none,
      launchCluster "tcp"]).any (fun s => s.opened = {"10.0.0.1:8000"}) = true := by
    decide +kernel
  obtain ⟨s, hrun, hs⟩ := Option.any_eq_true _ _ |>.mp hany
  have hopened := of_decide_eq_true hs
  obtain ⟨⟨hheld, -⟩, -⟩ := listeners_held hrun (by decide +kernel)
  refine ⟨s, hrun, hopened, (hheld _).mp ?_⟩
  rw [hopened]
  exact Finset.mem_singleton_self _

/-- **A reload with an HTTP balancer.**  The server is launched and shut down, and its address
stays open, so that the second launch cannot bind it and fails. -/
theorem http_listener_leaked :
    ∃ s s', run lifetimeStep .start [launchCluster "http", .shutdown 0 none] = some s ∧
      s.opened = {"10.0.0.1:8000"} ∧ (∀ addr, ¬ s.Held addr) ∧
      lifetimeStep s (launchCluster "http") = some s' ∧
      s'.opened = s.opened ∧ s'.servers.length = s.servers.length := by
  have hany : (run lifetimeStep .start [launchCluster "http", .shutdown 0 none]).any (fun s =>
      s.opened = {"10.0.0.1:8000"} ∧ (∀ server ∈ s.servers, server.stage = .stopped) ∧
      (lifetimeStep s (launchCluster "http")).any fun s' =>
        s'.opened = s.opened ∧ s'.servers.length = s.servers.length) = true := by
    decide +kernel
  obtain ⟨s, hrun, hs⟩ := Option.any_eq_true _ _ |>.mp hany
  obtain ⟨hopened, hdown, hagain⟩ := of_decide_eq_true hs
  obtain ⟨s', hstep, hs'⟩ := Option.any_eq_true _ _ |>.mp hagain
  obtain ⟨hsame, hlength⟩ := of_decide_eq_true hs'
  refine ⟨s, s', hrun, hopened, ?_, hstep, hsame, hlength⟩
  rintro addr ⟨k, server, hserver, hup, -⟩
  exact absurd ((hdown server (List.mem_of_getElem? hserver)).symm.trans hup) (by simp)

end Border
