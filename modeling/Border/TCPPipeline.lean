/-
# The goroutines of a TCP balancer

A balancer of kind `tcp` (`pkg/lb/tcp.go`) is a pipeline of goroutines.  `acceptTCPConns` sends every
connection that it accepts into a channel with a buffer; `forwardTCPConn` receives one, places it
with `getLowestBalancer` and `net.Dial`, and starts for it two copies, one for each direction, two
`closeConn` and a `decrementCount`.  Whatever ends a connection (an end of file, the time limit,
`Shutdown`) cancels its context, and the last three goroutines wait for that.

The placement is the one of `TCPBalancer`, step by step; here the connections have identities.

* `pipeline_delivers` : in every run connections are taken in the order in which they were accepted,
  none is lost or taken twice, no connection is disturbed before its context is cancelled, and the
  counts are the numbers of connections that are counted;
* `shutdown_bounded` : after `Shutdown`, once the listener is closed, only a bounded number of steps
  changes anything, in whatever order the goroutines run;
* `shutdown_leaves` : where nothing changes any more, all connections that were taken are closed at
  both ends and no count is left; but the connections in the buffer, and the one that waits for room
  in it, are neither served nor closed.
-/
import Border.Rest
import Border.TCPPlacement

namespace Border

open Transition

/-! ## Lists in which one element is replaced -/

section Replace

variable {α : Type} {l : List α} {i : ℕ} {a : α}

theorem exists_split (h : l[i]? = some a) :
    ∃ before after, l = before ++ a :: after ∧ ∀ b, l.set i b = before ++ b :: after := by
  obtain ⟨hi, ha⟩ := List.getElem?_eq_some_iff.mp h
  refine ⟨l.take i, l.drop (i + 1), ?_, fun b => ?_⟩
  · rw [← ha, List.cons_getElem_drop_succ, List.take_append_drop]
  · rw [List.set_eq_take_append_cons_drop, if_pos hi]

theorem set_self (h : l[i]? = some a) : l.set i a = l := by
  obtain ⟨before, after, rfl, hset⟩ := exists_split h
  exact hset a

theorem modify_eq_set (h : l[i]? = some a) (f : α → α) : l.modify i f = l.set i (f a) := by
  rw [List.modify_eq_set_getElem?, h]
  rfl

theorem map_set_eq {γ : Type} {f : α → γ} {b : α} (h : l[i]? = some a) (hf : f b = f a) :
    (l.set i b).map f = l.map f := by
  obtain ⟨before, after, rfl, hset⟩ := exists_split h
  rw [hset, List.map_append, List.map_append, List.map_cons, List.map_cons, hf]

theorem countP_set_eq {p : α → Bool} {b : α} (h : l[i]? = some a) (hp : p b = p a) :
    (l.set i b).countP p = l.countP p := by
  obtain ⟨before, after, rfl, hset⟩ := exists_split h
  rw [hset, List.countP_append, List.countP_append, List.countP_cons, List.countP_cons, hp]

/-- An element that begins to be counted. -/
theorem countP_set_succ {p : α → Bool} {b : α} (h : l[i]? = some a) (ha : p a = false)
    (hb : p b = true) : (l.set i b).countP p = l.countP p + 1 := by
  obtain ⟨before, after, rfl, hset⟩ := exists_split h
  rw [hset, List.countP_append, List.countP_append, List.countP_cons_of_pos hb,
    List.countP_cons_of_neg (by rw [ha]; exact Bool.false_ne_true), Nat.add_assoc]

/-- An element that is counted no more. -/
theorem countP_set_pred {p : α → Bool} {b : α} (h : l[i]? = some a) (ha : p a = true)
    (hb : p b = false) : (l.set i b).countP p + 1 = l.countP p := by
  obtain ⟨before, after, rfl, hset⟩ := exists_split h
  rw [hset, List.countP_append, List.countP_append, List.countP_cons_of_pos ha,
    List.countP_cons_of_neg (by rw [hb]; exact Bool.false_ne_true), Nat.add_assoc]

theorem sum_set_add (f : α → ℕ) {b : α} (h : l[i]? = some a) :
    ((l.set i b).map f).sum + f a = (l.map f).sum + f b := by
  obtain ⟨before, after, rfl, hset⟩ := exists_split h
  rw [hset]
  simp only [List.map_append, List.map_cons, List.sum_append, List.sum_cons]
  omega

end Replace

/-! ## The model -/

/-- `acceptTCPConns`: in `Accept`, at the send, or returned. -/
inductive Acceptor
  | waiting
  | sending (id : ℕ)
  | ended
  deriving DecidableEq, Repr

/-- The connection that is not in the channel yet. -/
def Acceptor.held : Acceptor → Option ℕ
  | .sending id => some id
  | _ => none

theorem Acceptor.held_eq_some {a : Acceptor} {id : ℕ} : a.held = some id ↔ a = .sending id := by
  cases a <;> simp [Acceptor.held]

/-- `forwardTCPConn`: at the `select`, at the placement of a connection, or returned. -/
inductive Forwarder
  | waiting
  | placing (i : ℕ)
  | ended
  deriving DecidableEq, Repr

/-- The position of the connection that is being placed. -/
def Forwarder.current : Forwarder → Option ℕ
  | .placing i => some i
  | _ => none

theorem Forwarder.current_eq_some {f : Forwarder} {i : ℕ} : f.current = some i ↔ f = .placing i := by
  cases f <;> simp [Forwarder.current]

/-- A connection that the forwarder has taken. -/
structure Link where
  id : ℕ
  /-- The backend it was placed on. -/
  addr : Option String
  /-- `connCtx` is done. -/
  cancelled : Bool
  clientOpen : Bool
  backendOpen : Bool
  /-- Its `decrementCount` has not run. -/
  counted : Bool
  /-- The copy to the backend is running. -/
  upstream : Bool
  /-- The copy to the client is running. -/
  downstream : Bool
  deriving DecidableEq, Repr

/-- A connection when it is received; its context is a child of the one of the balancer. -/
def Link.received (id : ℕ) (done : Bool) : Link := ⟨id, none, done, true, false, false, false, false⟩

/-- A connection whose backend was dialed. -/
def Link.place (l : Link) (addr : String) : Link :=
  { l with addr := some addr, backendOpen := true, counted := true, upstream := true,
           downstream := true }

def Link.cancel (l : Link) : Link := { l with cancelled := true }

/-- The connection counts for the address. -/
def Link.counts (addr : String) (l : Link) : Bool := l.counted && l.addr = some addr

/-- What happens to a connection by itself. -/
inductive LinkAct
  /-- `closeConn` of the connection of the client. -/
  | closeClient
  /-- `closeConn` of the connection to the backend. -/
  | closeBackend
  /-- The copy to the backend ends, and cancels. -/
  | endUpstream
  /-- The copy to the client ends, and cancels. -/
  | endDownstream
  /-- The time limit. -/
  | expire

/-- Execute it. -/
def linkStep (timeout : ℤ) (l : Link) : LinkAct → Option Link
  | .closeClient => if l.cancelled ∧ l.clientOpen then some { l with clientOpen := false } else none
  | .closeBackend =>
    if l.cancelled ∧ l.backendOpen then some { l with backendOpen := false } else none
  | .endUpstream => if l.upstream then some { l.cancel with upstream := false } else none
  | .endDownstream => if l.downstream then some { l.cancel with downstream := false } else none
  | .expire => if timeout ≠ 0 then some l.cancel else none

/-- A balancer that was started.  `exited` is the end of the process by a `Fatalf`. -/
structure Pipeline where
  tcp : TCPState
  listening : Bool
  done : Bool
  exited : Bool
  acceptor : Acceptor
  /-- The channel of connections. -/
  queue : List ℕ
  forwarder : Forwarder
  /-- How many connections were accepted; they are numbered. -/
  accepted : ℕ
  links : List Link

/-- The room in the channel. -/
def Pipeline.buffer (s : Pipeline) : ℕ := s.tcp.balancer.connBuffer.toNat

/-- After `Start`; `none` is the panic of `make` on a negative buffer. -/
def Pipeline.start (b : Balancer) : Option Pipeline :=
  if 0 ≤ b.connBuffer then
    some ⟨.ofBalancer b, true, false, false, .waiting, [], .waiting, 0, []⟩
  else none

/-- The forwarder has received a connection. -/
def Pipeline.take (s : Pipeline) (id : ℕ) : Pipeline :=
  { s with forwarder := .placing s.links.length, links := s.links ++ [.received id s.done] }

/-- What the forwarder receives.  Without a buffer the sender hands its connection over. -/
def Pipeline.next (s : Pipeline) : Option (ℕ × Pipeline) :=
  match s.queue with
  | id :: rest => some (id, { s with queue := rest })
  | [] => s.acceptor.held.bind fun id =>
      if s.buffer = 0 then some (id, { s with acceptor := .waiting }) else none

/-- The forwarder after a dial. -/
def Pipeline.dialed (s : Pipeline) (i : ℕ) (addr : String) (tcp : TCPState) : Bool → Pipeline
  | true => { s with tcp := tcp, forwarder := .waiting, links := s.links.modify i (·.place addr) }
  | false => { s with tcp := tcp }

inductive PipeAct
  | accept
  /-- `Accept` returns `net.ErrClosed`. -/
  | acceptClosed
  /-- `Accept` returns another error. -/
  | acceptFailed
  | send
  | receive
  /-- The forwarder sees that its context is done. -/
  | stop
  | select (order : List String)
  | dial (ok : Bool)
  | link (i : ℕ) (a : LinkAct)
  /-- `decrementCount` of a connection. -/
  | decrement (i : ℕ)
  | shutdown
  /-- `monitorListen`. -/
  | closeListener

/-- A step of a process that is running. -/
def Pipeline.move (s : Pipeline) : PipeAct → Option Pipeline
  | .accept =>
    if s.acceptor = .waiting ∧ s.listening then
      some { s with acceptor := .sending s.accepted, accepted := s.accepted + 1 }
    else none
  | .acceptClosed =>
    if s.acceptor = .waiting ∧ ¬ s.listening then some { s with acceptor := .ended } else none
  | .acceptFailed =>
    if s.acceptor = .waiting ∧ s.listening then some { s with exited := true } else none
  | .send => s.acceptor.held.bind fun id =>
      if s.queue.length < s.buffer then
        some { s with acceptor := .waiting, queue := s.queue ++ [id] }
      else none
  | .receive =>
    if s.forwarder = .waiting then s.next.map fun r => r.2.take r.1 else none
  | .stop => if s.forwarder = .waiting ∧ s.done then some { s with forwarder := .ended } else none
  | .select order => s.forwarder.current.bind fun _ =>
      (tcpStep s.tcp (.select order)).map fun tcp => { s with tcp := tcp }
  | .dial ok => s.forwarder.current.bind fun i => s.tcp.selected.bind fun addr =>
      (tcpStep s.tcp (.dial ok)).map fun tcp => s.dialed i addr tcp ok
  | .link i a => s.links[i]?.bind fun l =>
      (linkStep s.tcp.balancer.timeout l a).map fun l' => { s with links := s.links.set i l' }
  | .decrement i => s.links[i]?.bind fun l => l.addr.bind fun addr =>
      if l.cancelled ∧ l.counted then
        (tcpStep s.tcp (.decrement addr)).map fun tcp =>
          { s with tcp := tcp, links := s.links.set i { l with counted := false } }
      else none
  | .shutdown => some { s with done := true, links := s.links.map Link.cancel }
  | .closeListener => if s.done then some { s with listening := false } else none

/-- Execute one step; `none` when it is not enabled. -/
def pipeStep (s : Pipeline) (a : PipeAct) : Option Pipeline := if s.exited then none else s.move a

/-! ## What a step can do -/

/-- **The moves of the pipeline.** -/
inductive PipeMove (s : Pipeline) : PipeAct → Pipeline → Prop
  | accept (hacceptor : s.acceptor = .waiting) (hlistening : s.listening = true) :
      PipeMove s .accept { s with acceptor := .sending s.accepted, accepted := s.accepted + 1 }
  | acceptClosed (hacceptor : s.acceptor = .waiting) (hlistening : s.listening = false) :
      PipeMove s .acceptClosed { s with acceptor := .ended }
  | acceptFailed (hlistening : s.listening = true) : PipeMove s .acceptFailed { s with exited := true }
  | send {id : ℕ} (hacceptor : s.acceptor = .sending id) (hroom : s.queue.length < s.buffer) :
      PipeMove s .send { s with acceptor := .waiting, queue := s.queue ++ [id] }
  | receive {id : ℕ} {rest : List ℕ} (hforwarder : s.forwarder = .waiting)
      (hqueue : s.queue = id :: rest) :
      PipeMove s .receive (Pipeline.take { s with queue := rest } id)
  | handOver {id : ℕ} (hforwarder : s.forwarder = .waiting) (hqueue : s.queue = [])
      (hacceptor : s.acceptor = .sending id) :
      PipeMove s .receive (Pipeline.take { s with acceptor := .waiting, queue := [] } id)
  | stop (hforwarder : s.forwarder = .waiting) (hdone : s.done = true) :
      PipeMove s .stop { s with forwarder := .ended }
  /-- There is no address with room. -/
  | retry (order : List String) : PipeMove s (.select order) s
  | select {i : ℕ} {order : List String} {addr : String} (hforwarder : s.forwarder = .placing i)
      (hselected : s.tcp.selected = none) (haddr : addr ∈ s.tcp.balancer.backendAddresses)
      (hroom : s.tcp.balancer.count addr < s.tcp.balancer.maxConns) :
      PipeMove s (.select order) { s with tcp := { s.tcp with selected := some addr } }
  | dialed {i : ℕ} {addr : String} (hforwarder : s.forwarder = .placing i)
      (hselected : s.tcp.selected = some addr) :
      PipeMove s (.dial true) { s with
        tcp := { s.tcp with
          balancer := s.tcp.balancer.incrementCount addr
          selected := none
          live := addr :: s.tcp.live }
        forwarder := .waiting
        links := s.links.modify i (·.place addr) }
  | dialFailed {i : ℕ} {addr : String} (hforwarder : s.forwarder = .placing i)
      (hselected : s.tcp.selected = some addr) :
      PipeMove s (.dial false) { s with
        tcp := { s.tcp with
          balancer := (s.tcp.balancer.incrementCount addr).removeBackend addr
          selected := none
          failed := insert addr s.tcp.failed } }
  | link {i : ℕ} {a : LinkAct} {l l' : Link} (hl : s.links[i]? = some l)
      (hstep : linkStep s.tcp.balancer.timeout l a = some l') :
      PipeMove s (.link i a) { s with links := s.links.set i l' }
  | decrement {i : ℕ} {l : Link} {addr : String} (hl : s.links[i]? = some l)
      (haddr : l.addr = some addr) (hcancelled : l.cancelled = true) (hcounted : l.counted = true)
      (hlive : addr ∈ s.tcp.live) :
      PipeMove s (.decrement i) { s with
        tcp := { s.tcp with
          balancer := s.tcp.balancer.decrementCount addr
          live := s.tcp.live.erase addr }
        links := s.links.set i { l with counted := false } }
  | shutdown : PipeMove s .shutdown { s with done := true, links := s.links.map Link.cancel }
  | closeListener (hdone : s.done = true) : PipeMove s .closeListener { s with listening := false }

theorem select_move {s s' : Pipeline} {order : List String} (h : s.move (.select order) = some s') :
    PipeMove s (.select order) s' := by
  obtain ⟨i, hi, h⟩ := Option.bind_eq_some_iff.mp h
  obtain ⟨tcp, htcp, rfl⟩ := Option.map_eq_some_iff.mp h
  obtain ⟨hguard, htcp⟩ := Option.ite_none_right_eq_some.mp htcp
  by_cases hempty : s.tcp.balancer.getLowestBalancer order = ""
  · rw [if_pos hempty] at htcp
    cases htcp
    exact .retry order
  · rw [if_neg hempty] at htcp
    cases htcp
    obtain ⟨hmem, hroom⟩ := s.tcp.balancer.getLowestBalancer_room order hempty
    have haddr : s.tcp.balancer.getLowestBalancer order ∈ (order : Multiset String) := hmem
    rw [hguard.2] at haddr
    exact .select (Forwarder.current_eq_some.mp hi) hguard.1 haddr hroom

theorem dial_move {s s' : Pipeline} {ok : Bool} (h : s.move (.dial ok) = some s') :
    PipeMove s (.dial ok) s' := by
  obtain ⟨i, hi, h⟩ := Option.bind_eq_some_iff.mp h
  obtain ⟨addr, haddr, h⟩ := Option.bind_eq_some_iff.mp h
  obtain ⟨tcp, htcp, rfl⟩ := Option.map_eq_some_iff.mp h
  rw [tcpStep, haddr] at htcp
  have hf := Forwarder.current_eq_some.mp hi
  cases ok with
  | true =>
    cases htcp
    exact .dialed hf haddr
  | false =>
    cases htcp
    exact .dialFailed hf haddr

theorem decrement_move {s s' : Pipeline} {i : ℕ} (h : s.move (.decrement i) = some s') :
    PipeMove s (.decrement i) s' := by
  obtain ⟨l, hl, h⟩ := Option.bind_eq_some_iff.mp h
  obtain ⟨addr, haddr, h⟩ := Option.bind_eq_some_iff.mp h
  obtain ⟨hguard, h⟩ := Option.ite_none_right_eq_some.mp h
  obtain ⟨tcp, htcp, rfl⟩ := Option.map_eq_some_iff.mp h
  obtain ⟨hlive, htcp⟩ := Option.ite_none_right_eq_some.mp htcp
  cases htcp
  exact .decrement hl haddr hguard.1 hguard.2 hlive

theorem receive_move {s s' : Pipeline} (h : s.move .receive = some s') :
    PipeMove s .receive s' := by
  obtain ⟨hf, h⟩ := Option.ite_none_right_eq_some.mp h
  obtain ⟨⟨id, t⟩, hnext, rfl⟩ := Option.map_eq_some_iff.mp h
  unfold Pipeline.next at hnext
  cases hq : s.queue with
  | cons id' rest =>
    rw [hq] at hnext
    cases hnext
    exact .receive hf hq
  | nil =>
    rw [hq] at hnext
    obtain ⟨id', hid', hnext⟩ := Option.bind_eq_some_iff.mp hnext
    obtain ⟨-, heq⟩ := Option.ite_none_right_eq_some.mp hnext
    cases heq
    exact .handOver hf hq (Acceptor.held_eq_some.mp hid')

/-- **Every step is one of the moves.** -/
theorem pipeStep_move {s s' : Pipeline} {a : PipeAct} (h : pipeStep s a = some s') :
    s.exited = false ∧ PipeMove s a s' := by
  unfold pipeStep at h
  cases hexited : s.exited with
  | true => rw [hexited] at h; cases h
  | false =>
    rw [hexited] at h
    replace h : s.move a = some s' := h
    refine ⟨rfl, ?_⟩
    cases a with
    | accept =>
      obtain ⟨hguard, heq⟩ := Option.ite_none_right_eq_some.mp h
      cases heq
      exact .accept hguard.1 hguard.2
    | acceptClosed =>
      obtain ⟨hguard, heq⟩ := Option.ite_none_right_eq_some.mp h
      cases heq
      exact .acceptClosed hguard.1 (Bool.not_eq_true _ ▸ hguard.2)
    | acceptFailed =>
      obtain ⟨hguard, heq⟩ := Option.ite_none_right_eq_some.mp h
      cases heq
      exact .acceptFailed hguard.2
    | send =>
      obtain ⟨id, hid, h⟩ := Option.bind_eq_some_iff.mp h
      obtain ⟨hroom, heq⟩ := Option.ite_none_right_eq_some.mp h
      cases heq
      exact .send (Acceptor.held_eq_some.mp hid) hroom
    | receive => exact receive_move h
    | stop =>
      obtain ⟨hguard, heq⟩ := Option.ite_none_right_eq_some.mp h
      cases heq
      exact .stop hguard.1 hguard.2
    | select order => exact select_move h
    | dial ok => exact dial_move h
    | link i a =>
      obtain ⟨l, hl, h⟩ := Option.bind_eq_some_iff.mp h
      obtain ⟨l', hstep, rfl⟩ := Option.map_eq_some_iff.mp h
      exact .link hl hstep
    | decrement i => exact decrement_move h
    | shutdown =>
      cases h
      exact .shutdown
    | closeListener =>
      obtain ⟨hdone, heq⟩ := Option.ite_none_right_eq_some.mp h
      cases heq
      exact .closeListener hdone

/-! ## The invariant -/

/-- What holds of every connection that was taken.  Before its context is cancelled nothing is
closed or uncounted. -/
structure Link.Ok (done : Bool) (l : Link) : Prop where
  parent : done = true → l.cancelled = true
  unplaced : l.addr = none →
    l.backendOpen = false ∧ l.counted = false ∧ l.upstream = false ∧ l.downstream = false
  client : l.cancelled = false → l.clientOpen = true
  placed : l.cancelled = false → l.addr ≠ none →
    l.backendOpen = true ∧ l.counted = true ∧ l.upstream = true ∧ l.downstream = true

theorem Link.ok_received (id : ℕ) (done : Bool) : (Link.received id done).Ok done :=
  ⟨fun h => h, fun _ => ⟨rfl, rfl, rfl, rfl⟩, fun _ => rfl, fun _ h => absurd rfl h⟩

theorem Link.Ok.place {done : Bool} {l : Link} (h : l.Ok done) (addr : String) :
    (l.place addr).Ok done :=
  ⟨h.parent, fun hnone => (by cases hnone), h.client, fun _ _ => ⟨rfl, rfl, rfl, rfl⟩⟩

/-- A cancelled connection is as good as any, if it was before. -/
theorem Link.Ok.of_cancelled {done done' : Bool} {l l' : Link} (h : l.Ok done)
    (hcancelled : l'.cancelled = true) (haddr : l'.addr = l.addr)
    (hbackend : l'.backendOpen = true → l.backendOpen = true)
    (hcounted : l'.counted = true → l.counted = true)
    (hup : l'.upstream = true → l.upstream = true)
    (hdown : l'.downstream = true → l.downstream = true) : l'.Ok done' := by
  refine ⟨fun _ => hcancelled, fun hnone => ?_, fun hno => ?_, fun hno => ?_⟩
  · obtain ⟨hb, hc, hu, hd⟩ := h.unplaced (haddr ▸ hnone)
    rw [← Bool.not_eq_true] at hb hc hu hd
    simp only [← Bool.not_eq_true]
    exact ⟨mt hbackend hb, mt hcounted hc, mt hup hu, mt hdown hd⟩
  · rw [hcancelled] at hno
    cases hno
  · rw [hcancelled] at hno
    cases hno

theorem Link.Ok.cancel {done done' : Bool} {l : Link} (h : l.Ok done) : l.cancel.Ok done' :=
  h.of_cancelled rfl rfl (fun h => h) (fun h => h) (fun h => h) fun h => h

/-- **What a connection does by itself** leaves its address and whether it is counted, and keeps the
invariant. -/
theorem linkStep_ok {timeout : ℤ} {l l' : Link} {a : LinkAct} (h : linkStep timeout l a = some l') :
    l'.id = l.id ∧ l'.addr = l.addr ∧ l'.counted = l.counted ∧
      ∀ done, l.Ok done → l'.Ok done := by
  cases a with
  | closeClient =>
    obtain ⟨hguard, heq⟩ := Option.ite_none_right_eq_some.mp h
    cases heq
    exact ⟨rfl, rfl, rfl, fun done hl => hl.of_cancelled hguard.1 rfl id id id id⟩
  | closeBackend =>
    obtain ⟨hguard, heq⟩ := Option.ite_none_right_eq_some.mp h
    cases heq
    exact ⟨rfl, rfl, rfl, fun done hl => hl.of_cancelled hguard.1 rfl (fun h => by cases h) id id id⟩
  | endUpstream =>
    obtain ⟨-, heq⟩ := Option.ite_none_right_eq_some.mp h
    cases heq
    exact ⟨rfl, rfl, rfl, fun done hl => hl.of_cancelled rfl rfl id id (fun h => by cases h) id⟩
  | endDownstream =>
    obtain ⟨-, heq⟩ := Option.ite_none_right_eq_some.mp h
    cases heq
    exact ⟨rfl, rfl, rfl, fun done hl => hl.of_cancelled rfl rfl id id id (fun h => by cases h)⟩
  | expire =>
    obtain ⟨-, heq⟩ := Option.ite_none_right_eq_some.mp h
    cases heq
    exact ⟨rfl, rfl, rfl, fun done hl => hl.cancel⟩

/-- **The invariant of the pipeline.** -/
structure Pipeline.Ok (s : Pipeline) : Prop where
  /-- The connections that were taken, those in the channel and the one that waits for it are all
  that were accepted, in this order. -/
  order : s.links.map Link.id ++ s.queue ++ s.acceptor.held.toList = List.range s.accepted
  room : s.queue.length ≤ s.buffer
  accounting : Accounting s.tcp
  live : ∀ addr, s.tcp.live.count addr = s.links.countP (Link.counts addr)
  links : ∀ l ∈ s.links, l.Ok s.done
  /-- One connection at most has no backend, the one that is being placed. -/
  placing : ∀ i l, s.links[i]? = some l → (l.addr = none ↔ s.forwarder = .placing i)
  selected : ∀ addr, s.tcp.selected = some addr → ∃ i, s.forwarder = .placing i
  current : ∀ i, s.forwarder = .placing i → i < s.links.length

theorem Balancer.connBuffer_decrementCount (b : Balancer) (addr : String) :
    (b.decrementCount addr).connBuffer = b.connBuffer := by
  unfold Balancer.decrementCount
  cases b.backendConns.lookup addr <;> rfl

section Step

variable {s : Pipeline}

/-- The placement goes on, or the connections change one by one. -/
theorem Pipeline.Ok.withTCP (hs : s.Ok) {tcp : TCPState} (haccounting : Accounting tcp)
    (hbuffer : tcp.balancer.connBuffer = s.tcp.balancer.connBuffer) (hlive : tcp.live = s.tcp.live)
    (hselected : ∀ addr, tcp.selected = some addr → ∃ i, s.forwarder = .placing i) :
    Pipeline.Ok { s with tcp := tcp } where
  order := hs.order
  room := by
    show s.queue.length ≤ tcp.balancer.connBuffer.toNat
    rw [hbuffer]
    exact hs.room
  accounting := haccounting
  live addr := by
    show tcp.live.count addr = _
    rw [hlive]
    exact hs.live addr
  links := hs.links
  placing := hs.placing
  selected := hselected
  current := hs.current

/-- A connection is replaced by one on the same backend. -/
theorem Pipeline.Ok.withLink (hs : s.Ok) {i : ℕ} {l l' : Link} (hl : s.links[i]? = some l)
    (hid : l'.id = l.id) (haddr : l'.addr = l.addr) (hok : l'.Ok s.done) {tcp : TCPState}
    (haccounting : Accounting tcp)
    (hbuffer : tcp.balancer.connBuffer = s.tcp.balancer.connBuffer)
    (hselected : tcp.selected = s.tcp.selected)
    (hlive : ∀ addr, tcp.live.count addr = (s.links.set i l').countP (Link.counts addr)) :
    Pipeline.Ok { s with tcp := tcp, links := s.links.set i l' } where
  order := by
    rw [map_set_eq hl hid]
    exact hs.order
  room := by
    show s.queue.length ≤ tcp.balancer.connBuffer.toNat
    rw [hbuffer]
    exact hs.room
  accounting := haccounting
  live := hlive
  links k hk := by
    rcases List.mem_or_eq_of_mem_set hk with hmem | rfl
    · exact hs.links k hmem
    · exact hok
  placing j k hk := by
    rw [List.getElem?_set] at hk
    split at hk
    next hij =>
      split at hk
      · obtain rfl := Option.some.inj hk
        rw [haddr, ← hij]
        exact hs.placing i l hl
      · cases hk
    next => exact hs.placing j k hk
  selected addr h := hs.selected addr (hselected.symm.trans h)
  current j hj := by
    rw [List.length_set]
    exact hs.current j hj

/-- A connection is received: it was the next one. -/
theorem Pipeline.Ok.take (hs : s.Ok) (hforwarder : s.forwarder = .waiting) {id : ℕ}
    {acceptor : Acceptor} {queue : List ℕ}
    (hnext : s.queue ++ s.acceptor.held.toList = id :: (queue ++ acceptor.held.toList))
    (hroom : queue.length ≤ s.buffer) :
    (Pipeline.take { s with acceptor := acceptor, queue := queue } id).Ok where
  order := by
    show (s.links ++ [Link.received id s.done]).map Link.id ++ queue ++ acceptor.held.toList
      = List.range s.accepted
    rw [← hs.order, List.append_assoc (s.links.map Link.id), hnext, List.map_append]
    simp [Link.received]
  room := hroom
  accounting := hs.accounting
  live addr := by
    show s.tcp.live.count addr = (s.links ++ [Link.received id s.done]).countP (Link.counts addr)
    rw [List.countP_append, hs.live addr]
    rfl
  links l hl := by
    rcases List.mem_append.mp hl with hmem | hmem
    · exact hs.links l hmem
    · rw [List.mem_singleton] at hmem
      subst hmem
      exact Link.ok_received id s.done
  placing j l hl := by
    show l.addr = none ↔ Forwarder.placing s.links.length = .placing j
    replace hl : (s.links ++ [Link.received id s.done])[j]? = some l := hl
    rw [List.getElem?_append] at hl
    split at hl
    next hj =>
      -- the earlier connections have their backends
      have hplaced : l.addr ≠ none := by
        intro hnone
        have := (hs.placing j l hl).mp hnone
        rw [hforwarder] at this
        cases this
      refine ⟨fun h => absurd h hplaced, fun h => ?_⟩
      have := Forwarder.placing.inj h
      omega
    next hj =>
      obtain ⟨hlt, heq⟩ := List.getElem?_eq_some_iff.mp hl
      have hj' : s.links.length = j := by
        simp only [List.length_cons, List.length_nil] at hlt
        omega
      subst hj'
      rw [Nat.sub_self, List.getElem?_cons_zero] at hl
      obtain rfl := Option.some.inj hl
      exact ⟨fun _ => rfl, fun _ => rfl⟩
  selected _ _ := ⟨_, rfl⟩
  current i hi := by
    replace hi : Forwarder.placing s.links.length = .placing i := hi
    obtain rfl := Forwarder.placing.inj hi
    show s.links.length < (s.links ++ [Link.received id s.done]).length
    rw [List.length_append, List.length_singleton]
    omega

/-- The connection that is being placed has no backend yet. -/
theorem Pipeline.Ok.currentLink (hs : s.Ok) {i : ℕ} (hforwarder : s.forwarder = .placing i) :
    ∃ l, s.links[i]? = some l ∧ l.addr = none := by
  have hi := hs.current i hforwarder
  refine ⟨s.links[i], List.getElem?_eq_getElem hi, ?_⟩
  exact (hs.placing i _ (List.getElem?_eq_getElem hi)).mpr hforwarder

/-- A connection is placed. -/
theorem Pipeline.Ok.dialed (hs : s.Ok) {i : ℕ} {addr : String}
    (hforwarder : s.forwarder = .placing i) (hselected : s.tcp.selected = some addr) :
    Pipeline.Ok { s with
      tcp := { s.tcp with
        balancer := s.tcp.balancer.incrementCount addr
        selected := none
        live := addr :: s.tcp.live }
      forwarder := .waiting
      links := s.links.modify i (·.place addr) } := by
  obtain ⟨l, hl, hnone⟩ := hs.currentLink hforwarder
  rw [modify_eq_set hl]
  have huncounted : l.counted = false :=
    ((hs.links l (List.mem_of_getElem? hl)).unplaced hnone).2.1
  exact {
    order := by
      rw [map_set_eq hl (show (l.place addr).id = l.id from rfl)]
      exact hs.order
    room := hs.room
    accounting := hs.accounting.dial hselected
    live := by
      intro a
      show (addr :: s.tcp.live).count a = _
      by_cases ha : addr = a
      · subst ha
        have hp : Link.counts addr l = false := by rw [Link.counts, huncounted, Bool.false_and]
        have hp' : Link.counts addr (l.place addr) = true := by simp [Link.counts, Link.place]
        rw [List.count_cons_self, countP_set_succ hl hp hp', hs.live addr]
      · have hp : Link.counts a (l.place addr) = Link.counts a l := by
          simp [Link.counts, Link.place, huncounted, ha]
        rw [List.count_cons_of_ne ha, countP_set_eq hl hp, hs.live a]
    links := by
      intro k hk
      rcases List.mem_or_eq_of_mem_set hk with hmem | rfl
      · exact hs.links k hmem
      · exact (hs.links l (List.mem_of_getElem? hl)).place addr
    placing := by
      intro j k hk
      refine ⟨fun hk' => ?_, fun h => by cases h⟩
      rw [List.getElem?_set] at hk
      split at hk
      · split at hk
        · obtain rfl := Option.some.inj hk
          cases hk'
        · cases hk
      next hij =>
        have := (hs.placing j k hk).mp hk'
        rw [hforwarder] at this
        exact absurd (Forwarder.placing.inj this) hij
    selected := fun a ha => by cases ha
    current := fun j hj => by cases hj }

/-- Every context is cancelled. -/
theorem Pipeline.Ok.shutdown (hs : s.Ok) :
    Pipeline.Ok { s with done := true, links := s.links.map Link.cancel } where
  order := by
    rw [List.map_map]
    exact hs.order
  room := hs.room
  accounting := hs.accounting
  live addr := by
    rw [List.countP_map]
    exact hs.live addr
  links l hl := by
    obtain ⟨k, hk, rfl⟩ := List.mem_map.mp hl
    exact (hs.links k hk).cancel
  placing i l hl := by
    rw [List.getElem?_map] at hl
    obtain ⟨k, hk, rfl⟩ := Option.map_eq_some_iff.mp hl
    exact hs.placing i k hk
  selected := hs.selected
  current i hi := by
    rw [List.length_map]
    exact hs.current i hi

/-- **One step** keeps the invariant. -/
theorem Pipeline.Ok.step (hs : s.Ok) {a : PipeAct} {s' : Pipeline} (h : PipeMove s a s') : s'.Ok := by
  cases h with
  | accept hacceptor hlistening =>
    refine ⟨?_, hs.room, hs.accounting, hs.live, hs.links, hs.placing, hs.selected, hs.current⟩
    have horder := hs.order
    rw [hacceptor] at horder
    rw [List.range_succ, ← horder]
    simp [Acceptor.held]
  | acceptClosed hacceptor hlistening =>
    refine ⟨?_, hs.room, hs.accounting, hs.live, hs.links, hs.placing, hs.selected, hs.current⟩
    have horder := hs.order
    rw [hacceptor] at horder
    exact horder
  | acceptFailed hlistening =>
    exact ⟨hs.order, hs.room, hs.accounting, hs.live, hs.links, hs.placing, hs.selected, hs.current⟩
  | @send id hacceptor hroom =>
    refine ⟨?_, ?_, hs.accounting, hs.live, hs.links, hs.placing, hs.selected, hs.current⟩
    · have horder := hs.order
      rw [hacceptor] at horder
      rw [← horder]
      simp [Acceptor.held]
    · show (s.queue ++ [id]).length ≤ s.buffer
      rw [List.length_append, List.length_singleton]
      exact hroom
  | @receive id rest hforwarder hqueue =>
    have hroom := hs.room
    rw [hqueue, List.length_cons] at hroom
    refine hs.take hforwarder ?_ (by omega)
    rw [hqueue, List.cons_append]
  | @handOver id hforwarder hqueue hacceptor =>
    refine hs.take hforwarder ?_ (Nat.zero_le _)
    rw [hqueue, hacceptor]
    rfl
  | stop hforwarder hdone =>
    refine ⟨hs.order, hs.room, hs.accounting, hs.live, hs.links, fun i l hl => ?_, fun addr h => ?_,
      fun i hi => by cases hi⟩
    · refine ⟨fun hnone => ?_, fun h => by cases h⟩
      have := (hs.placing i l hl).mp hnone
      rw [hforwarder] at this
      cases this
    · obtain ⟨i, hi⟩ := hs.selected addr h
      rw [hforwarder] at hi
      cases hi
  | retry => exact hs
  | select hforwarder hselected haddr hroom =>
    exact hs.withTCP (hs.accounting.select haddr hroom) rfl rfl fun _ _ => ⟨_, hforwarder⟩
  | dialed hforwarder hselected => exact hs.dialed hforwarder hselected
  | dialFailed hforwarder hselected =>
    exact hs.withTCP hs.accounting.dialFailed rfl rfl fun _ h => by cases h
  | @link i a l l' hl hstep =>
    obtain ⟨hid, haddr, hcounted, hok⟩ := linkStep_ok hstep
    refine hs.withLink hl hid haddr (hok _ (hs.links l (List.mem_of_getElem? hl))) hs.accounting rfl
      rfl fun addr => ?_
    have hp : Link.counts addr l' = Link.counts addr l := by
      rw [Link.counts, Link.counts, hcounted, haddr]
    rw [countP_set_eq hl hp, hs.live addr]
  | @decrement i l addr hl haddr hcancelled hcounted hlive =>
    have hid : Link.id { l with counted := false } = l.id := rfl
    have hok : Link.Ok s.done { l with counted := false } :=
      (hs.links l (List.mem_of_getElem? hl)).of_cancelled hcancelled rfl id (fun h => by cases h) id id
    refine hs.withLink hl hid rfl hok (hs.accounting.decrement hlive)
      (s.tcp.balancer.connBuffer_decrementCount addr) rfl fun a => ?_
    show (s.tcp.live.erase addr).count a = _
    have hp' : Link.counts a { l with counted := false } = false := Bool.false_and _
    by_cases ha : addr = a
    · subst ha
      have hp : Link.counts addr l = true := by simp [Link.counts, hcounted, haddr]
      have hcount := countP_set_pred hl hp hp'
      rw [List.count_erase_self, hs.live addr]
      omega
    · have hp : Link.counts a l = false := by simp [Link.counts, haddr, ha]
      rw [List.count_erase_of_ne (Ne.symm ha), countP_set_eq hl (hp'.trans hp.symm), hs.live a]
  | shutdown => exact hs.shutdown
  | closeListener hdone =>
    exact ⟨hs.order, hs.room, hs.accounting, hs.live, hs.links, hs.placing, hs.selected, hs.current⟩

/-- The buffer and the cap of the balancer stay what they are. -/
theorem PipeMove.settings {a : PipeAct} {s' : Pipeline} (h : PipeMove s a s') :
    s'.buffer = s.buffer ∧ s'.tcp.balancer.maxConns = s.tcp.balancer.maxConns := by
  cases h with
  | @decrement i l addr hl haddr hcancelled hcounted hlive =>
    show (s.tcp.balancer.decrementCount addr).connBuffer.toNat = s.tcp.balancer.connBuffer.toNat ∧ _
    rw [s.tcp.balancer.connBuffer_decrementCount addr]
    refine ⟨rfl, ?_⟩
    show (s.tcp.balancer.decrementCount addr).maxConns = s.tcp.balancer.maxConns
    unfold Balancer.decrementCount
    cases s.tcp.balancer.backendConns.lookup addr <;> rfl
  | accept => exact ⟨rfl, rfl⟩
  | acceptClosed => exact ⟨rfl, rfl⟩
  | acceptFailed => exact ⟨rfl, rfl⟩
  | send => exact ⟨rfl, rfl⟩
  | receive => exact ⟨rfl, rfl⟩
  | handOver => exact ⟨rfl, rfl⟩
  | stop => exact ⟨rfl, rfl⟩
  | retry => exact ⟨rfl, rfl⟩
  | select => exact ⟨rfl, rfl⟩
  | dialed => exact ⟨rfl, rfl⟩
  | dialFailed => exact ⟨rfl, rfl⟩
  | link => exact ⟨rfl, rfl⟩
  | shutdown => exact ⟨rfl, rfl⟩
  | closeListener => exact ⟨rfl, rfl⟩

end Step

section Runs

variable {listenSpec : String} {config : BalancerConfig} {b : Balancer} {s₀ s : Pipeline}
  {as : List PipeAct}

theorem Pipeline.ok_start (hmax : 0 ≤ config.maxConnectionsPerAddress)
    (hb : Balancer.init listenSpec config = some b) (hstart : Pipeline.start b = some s₀) :
    s₀.Ok ∧ s₀.buffer = b.connBuffer.toNat ∧ s₀.tcp.balancer.maxConns = b.maxConns := by
  obtain ⟨-, heq⟩ := Option.ite_none_right_eq_some.mp hstart
  cases heq
  refine ⟨⟨rfl, Nat.zero_le _, accounting_init hmax hb, fun _ => rfl, ?_, ?_, ?_, ?_⟩, rfl, rfl⟩
  · intro l hl
    cases hl
  · intro i l hl
    cases hl
  · intro addr h
    cases h
  · intro i hi
    cases hi

/-- **Every run** keeps the invariant. -/
theorem pipeRun_ok (hmax : 0 ≤ config.maxConnectionsPerAddress)
    (hb : Balancer.init listenSpec config = some b) (hstart : Pipeline.start b = some s₀)
    (hrun : run pipeStep s₀ as = some s) :
    s.Ok ∧ s.buffer = b.connBuffer.toNat ∧ s.tcp.balancer.maxConns = b.maxConns := by
  refine run_invariant (P := fun t => t.Ok ∧ t.buffer = b.connBuffer.toNat ∧
    t.tcp.balancer.maxConns = b.maxConns) ?_ (Pipeline.ok_start hmax hb hstart) hrun
  intro t a t' ht hstep
  obtain ⟨-, hmove⟩ := pipeStep_move hstep
  obtain ⟨hbuffer, hcap⟩ := hmove.settings
  exact ⟨ht.1.step hmove, hbuffer.trans ht.2.1, hcap.trans ht.2.2⟩

/-- **Connections are delivered in order, undisturbed and counted.**  In every state that a TCP
balancer whose cap is not negative reaches: the connections it has accepted are those the forwarder
has taken, then those in the channel, then the one that waits for room in it, in the order in which
they were accepted, so none is lost, overtaken or taken twice; the channel holds no more than its
buffer; the count of every address in the pool is the number of connections on it whose decrement
has not run, and within the cap; and before the context of a connection is cancelled, both its ends
are open, both copies run and it is counted. -/
theorem pipeline_delivers (hmax : 0 ≤ config.maxConnectionsPerAddress)
    (hb : Balancer.init listenSpec config = some b) (hstart : Pipeline.start b = some s₀)
    (hrun : run pipeStep s₀ as = some s) :
    s.links.map Link.id ++ s.queue ++ s.acceptor.held.toList = List.range s.accepted ∧
    s.queue.length ≤ b.connBuffer.toNat ∧
    (∀ addr ∈ s.tcp.balancer.backendAddresses,
      s.tcp.balancer.backendConns.lookup addr = some (s.links.countP (Link.counts addr) : ℤ) ∧
      (s.links.countP (Link.counts addr) : ℤ) ≤ b.maxConns) ∧
    ∀ l ∈ s.links, l.cancelled = false → l.clientOpen = true ∧
      (l.addr ≠ none →
        l.backendOpen = true ∧ l.counted = true ∧ l.upstream = true ∧ l.downstream = true) := by
  obtain ⟨hok, hbuffer, hcap⟩ := pipeRun_ok hmax hb hstart hrun
  refine ⟨hok.order, hbuffer ▸ hok.room, fun addr haddr => ?_, fun l hl hlive => ?_⟩
  · obtain ⟨c, hc⟩ := hok.accounting.lookup_isSome haddr
    have hcount : c = (s.links.countP (Link.counts addr) : ℤ) := by
      rw [hok.accounting.counts addr c hc, hok.live addr]
    subst hcount
    exact ⟨hc, hcap ▸ hok.accounting.bounded addr _ hc⟩
  · exact ⟨(hok.links l hl).client hlive, (hok.links l hl).placed hlive⟩

end Runs

/-- Two connections are accepted; the first one is placed, and its client goes away. -/
def firstEnds : List PipeAct :=
  [.accept, .send, .receive, .accept, .select ["10.0.0.1:80", "10.0.0.2:80"], .dial true, .send,
    .link 0 .endUpstream, .link 0 .closeBackend, .decrement 0]

theorem pipeline_delivers_firstEnds :
    ∃ b s₀ s, Balancer.init "127.0.0.1:8000" twoBackends = some b ∧ Pipeline.start b = some s₀ ∧
      run pipeStep s₀ firstEnds = some s ∧
      s.links.map Link.id ++ s.queue ++ s.acceptor.held.toList = List.range s.accepted := by
  refine ⟨_, _, _, rfl, rfl, rfl, ?_⟩
  exact (@pipeline_delivers "127.0.0.1:8000" twoBackends _ _ _ firstEnds (by decide) rfl rfl rfl).1

/-! ## After `Shutdown` -/

/-- The steps that are left in a connection. -/
def Link.weight (l : Link) : ℕ :=
  l.clientOpen.toNat +
    if l.addr = none then 4
    else l.backendOpen.toNat + l.counted.toNat + l.upstream.toNat + l.downstream.toNat

def Acceptor.weight : Acceptor → ℕ
  | .waiting => 1
  | .sending _ => 10
  | .ended => 0

def Forwarder.weight (selected : Option String) : Forwarder → ℕ
  | .waiting => 1
  | .placing _ => if selected = none then 3 else 2
  | .ended => 0

/-- What is left to do when nothing more is accepted.  A failed dial costs an address. -/
def Pipeline.weight (s : Pipeline) : ℕ :=
  8 * s.queue.length + s.acceptor.weight + s.forwarder.weight s.tcp.selected +
    2 * s.tcp.balancer.backendAddresses.card + (s.links.map Link.weight).sum

theorem Link.weight_le (l : Link) : l.weight ≤ 5 := by
  have hbit : ∀ x : Bool, x.toNat ≤ 1 := Bool.toNat_le
  have h₁ := hbit l.clientOpen
  have h₂ := hbit l.backendOpen
  have h₃ := hbit l.counted
  have h₄ := hbit l.upstream
  have h₅ := hbit l.downstream
  unfold Link.weight
  split <;> omega

theorem Pipeline.Ok.weight_le {s : Pipeline} (hs : s.Ok) :
    s.weight ≤ 8 * s.accepted + 2 * s.tcp.balancer.backendAddresses.card + 5 := by
  have hlinks : (s.links.map Link.weight).sum ≤ (s.links.map Link.weight).length * 5 :=
    List.sum_le_card_nsmul _ 5 fun w hw => by
      obtain ⟨l, -, rfl⟩ := List.mem_map.mp hw
      exact l.weight_le
  have hlength := congrArg List.length hs.order
  simp only [List.length_append, List.length_map, List.length_range] at hlength hlinks
  have hforwarder : s.forwarder.weight s.tcp.selected ≤ 3 := by
    cases s.forwarder with
    | waiting => exact Nat.le_add_left 1 2
    | ended => exact Nat.zero_le 3
    | placing i =>
      rw [Forwarder.weight]
      by_cases hnone : s.tcp.selected = none
      · rw [if_pos hnone]
      · rw [if_neg hnone]
        exact Nat.le_succ 2
  have hacceptor : s.acceptor.weight ≤ 8 * s.acceptor.held.toList.length + 2 := by
    cases s.acceptor <;> simp [Acceptor.weight, Acceptor.held]
  unfold Pipeline.weight
  omega

/-- When its context is done, what a connection does by itself is bounded. -/
theorem linkStep_weight {timeout : ℤ} {l l' : Link} {a : LinkAct} (hl : l.Ok true)
    (h : linkStep timeout l a = some l') : l' = l ∨ l'.weight + 1 = l.weight := by
  have hcancelled : l.cancelled = true := hl.parent rfl
  have hcancel : l.cancel = l := by
    unfold Link.cancel
    rw [← hcancelled]
  cases a with
  | closeClient =>
    obtain ⟨hguard, heq⟩ := Option.ite_none_right_eq_some.mp h
    cases heq
    right
    simp only [Link.weight, hguard.2, Bool.toNat_false, Bool.toNat_true]
    omega
  | closeBackend =>
    obtain ⟨hguard, heq⟩ := Option.ite_none_right_eq_some.mp h
    cases heq
    have hplaced : l.addr ≠ none := by
      intro hnone
      have hclosed := (hl.unplaced hnone).1
      rw [hguard.2] at hclosed
      cases hclosed
    right
    simp only [Link.weight, hguard.2, if_neg hplaced, Bool.toNat_false, Bool.toNat_true]
    omega
  | endUpstream =>
    obtain ⟨hguard, heq⟩ := Option.ite_none_right_eq_some.mp h
    rw [hcancel] at heq
    cases heq
    have hplaced : l.addr ≠ none := by
      intro hnone
      have hended := (hl.unplaced hnone).2.2.1
      rw [hguard] at hended
      cases hended
    right
    simp only [Link.weight, hguard, if_neg hplaced, Bool.toNat_false, Bool.toNat_true]
    omega
  | endDownstream =>
    obtain ⟨hguard, heq⟩ := Option.ite_none_right_eq_some.mp h
    rw [hcancel] at heq
    cases heq
    have hplaced : l.addr ≠ none := by
      intro hnone
      have hended := (hl.unplaced hnone).2.2.2
      rw [hguard] at hended
      cases hended
    right
    simp only [Link.weight, hguard, if_neg hplaced, Bool.toNat_false, Bool.toNat_true]
    omega
  | expire =>
    obtain ⟨-, heq⟩ := Option.ite_none_right_eq_some.mp h
    cases heq
    exact Or.inl hcancel

/-- The balancer was shut down and its listener is closed. -/
structure Pipeline.Closed (s : Pipeline) : Prop where
  ok : s.Ok
  done : s.done = true
  listening : s.listening = false

theorem Pipeline.Closed.step {s s' : Pipeline} {a : PipeAct} (hs : s.Closed)
    (h : pipeStep s a = some s') : s'.Closed := by
  obtain ⟨-, hmove⟩ := pipeStep_move h
  refine ⟨hs.ok.step hmove, ?_, ?_⟩
  · cases hmove with
    | shutdown => rfl
    | _ => exact hs.done
  · cases hmove with
    | closeListener => rfl
    | _ => exact hs.listening

/-- **Every step that changes something makes the rest smaller.** -/
theorem Pipeline.Closed.weight_lt {s s' : Pipeline} {a : PipeAct} (hs : s.Closed)
    (h : pipeStep s a = some s') (hne : s' ≠ s) : s'.weight < s.weight := by
  obtain ⟨-, hmove⟩ := pipeStep_move h
  have hlinkOk : ∀ l ∈ s.links, l.Ok true := hs.done ▸ hs.ok.links
  have hselected : s.forwarder = .waiting → s.tcp.selected = none := by
    intro hwaiting
    cases hsel : s.tcp.selected with
    | none => rfl
    | some addr =>
      obtain ⟨i, hi⟩ := hs.ok.selected addr hsel
      rw [hwaiting] at hi
      cases hi
  cases hmove with
  | accept hacceptor hlistening =>
    rw [hs.listening] at hlistening
    cases hlistening
  | acceptClosed hacceptor hlistening =>
    simp only [Pipeline.weight, hacceptor, Acceptor.weight]
    omega
  | acceptFailed hlistening =>
    rw [hs.listening] at hlistening
    cases hlistening
  | send hacceptor hroom =>
    simp only [Pipeline.weight, hacceptor, Acceptor.weight, List.length_append, List.length_singleton]
    omega
  | @receive id rest hforwarder hqueue =>
    have hreceived := (Link.received id s.done).weight_le
    simp only [Pipeline.weight, Pipeline.take, hforwarder, hqueue, Forwarder.weight,
      hselected hforwarder, if_true, List.length_cons, List.map_append, List.sum_append,
      List.map_singleton, List.sum_singleton]
    omega
  | @handOver id hforwarder hqueue hacceptor =>
    have hreceived := (Link.received id s.done).weight_le
    simp only [Pipeline.weight, Pipeline.take, hforwarder, hqueue, hacceptor, Forwarder.weight,
      Acceptor.weight, hselected hforwarder, if_true, List.map_append, List.sum_append,
      List.map_singleton, List.sum_singleton]
    omega
  | stop hforwarder hdone =>
    simp only [Pipeline.weight, hforwarder, Forwarder.weight]
    omega
  | retry => exact absurd rfl hne
  | select hforwarder hnone haddr hroom =>
    simp only [Pipeline.weight, hforwarder, Forwarder.weight, hnone, if_true, reduceCtorEq, if_false]
    omega
  | @dialed i addr hforwarder hsel =>
    obtain ⟨l, hl, hnone⟩ := hs.ok.currentLink hforwarder
    have hsum := sum_set_add Link.weight hl (b := l.place addr)
    have hweight : (l.place addr).weight = l.weight := by
      simp only [Link.weight, Link.place, hnone, reduceCtorEq, if_false, if_true, Bool.toNat_true]
    simp only [Pipeline.weight, hforwarder, hsel, Forwarder.weight, reduceCtorEq, if_false,
      modify_eq_set hl]
    show _ + 1 + 2 * s.tcp.balancer.backendAddresses.card + _ < _
    omega
  | @dialFailed i addr hforwarder hsel =>
    have hpool := (hs.ok.accounting.room addr hsel).1
    have hcard : (s.tcp.balancer.backendAddresses.erase addr).card + 1
        = s.tcp.balancer.backendAddresses.card := Finset.card_erase_add_one hpool
    simp only [Pipeline.weight, hforwarder, hsel, Forwarder.weight, reduceCtorEq, if_false, if_true]
    show _ + 3 + 2 * (s.tcp.balancer.backendAddresses.erase addr).card + _ < _
    omega
  | @link i a l l' hl hstep =>
    rcases linkStep_weight (hlinkOk l (List.mem_of_getElem? hl)) hstep with rfl | hweight
    · rw [set_self hl] at hne
      exact absurd rfl hne
    · have hsum := sum_set_add Link.weight hl (b := l')
      simp only [Pipeline.weight]
      omega
  | @decrement i l addr hl haddr hcancelled hcounted hlive =>
    have hsum := sum_set_add Link.weight hl (b := { l with counted := false })
    have hweight : Link.weight { l with counted := false } + 1 = l.weight := by
      simp only [Link.weight, haddr, hcounted, reduceCtorEq, if_false, Bool.toNat_false,
        Bool.toNat_true]
      omega
    have hpool : (s.tcp.balancer.decrementCount addr).backendAddresses
        = s.tcp.balancer.backendAddresses := by
      unfold Balancer.decrementCount
      cases s.tcp.balancer.backendConns.lookup addr <;> rfl
    simp only [Pipeline.weight, hpool]
    omega
  | shutdown =>
    have hsame : s.links.map Link.cancel = s.links := by
      conv_rhs => rw [← List.map_id s.links]
      refine List.map_congr_left fun l hl => ?_
      have hcancelled := (hlinkOk l hl).parent rfl
      show Link.cancel l = l
      unfold Link.cancel
      rw [← hcancelled]
    rw [hsame, ← hs.done] at hne
    exact absurd rfl hne
  | closeListener hdone =>
    rw [← hs.listening] at hne
    exact absurd rfl hne

section Rest

variable {listenSpec : String} {config : BalancerConfig} {b : Balancer} {s₀ s : Pipeline}
  {as : List PipeAct}

/-- **A balancer that is shut down comes to rest**, if its cap is not negative.  Once its context is
done and its listener is closed, no more steps than this change anything, in whatever order the
goroutines run and whatever the dials bring; and it can come to a state in which nothing changes. -/
theorem shutdown_bounded (hmax : 0 ≤ config.maxConnectionsPerAddress)
    (hb : Balancer.init listenSpec config = some b) (hstart : Pipeline.start b = some s₀)
    (hrun : run pipeStep s₀ as = some s) (hdone : s.done = true) (hlistening : s.listening = false) :
    (∀ bs s', Along pipeStep (Moves pipeStep) s bs → run pipeStep s bs = some s' →
      bs.length ≤ 8 * s.accepted + 2 * s.tcp.balancer.backendAddresses.card + 5) ∧
    ∃ bs s', run pipeStep s bs = some s' ∧ Rests pipeStep s' := by
  have hclosed : s.Closed := ⟨(pipeRun_ok hmax hb hstart hrun).1, hdone, hlistening⟩
  have hstep : ∀ (t : Pipeline) (a : PipeAct) (t' : Pipeline), t.Closed → pipeStep t a = some t' →
      t'.Closed := fun _ _ _ ht h => ht.step h
  have hweight : ∀ (t : Pipeline) (a : PipeAct) (t' : Pipeline), t.Closed → pipeStep t a = some t' →
      t' ≠ t → t'.weight < t.weight := fun _ _ _ ht h hne => ht.weight_lt h hne
  refine ⟨fun bs s' hmoves hbs => ?_, exists_rests hstep hweight hclosed⟩
  have hlength := length_add_measure_le hstep hweight hclosed hmoves hbs
  have hbound := hclosed.ok.weight_le
  omega

/-- The balancer is shut down while its first connection is being placed. -/
def shutWhilePlacing : List PipeAct := [.accept, .send, .receive, .shutdown, .closeListener]

theorem shutdown_bounded_placing :
    ∃ b s₀ s, Balancer.init "127.0.0.1:8000" twoBackends = some b ∧ Pipeline.start b = some s₀ ∧
      run pipeStep s₀ shutWhilePlacing = some s ∧
      ∃ bs s', run pipeStep s bs = some s' ∧ Rests pipeStep s' := by
  refine ⟨_, _, _, rfl, rfl, rfl, ?_⟩
  exact (@shutdown_bounded "127.0.0.1:8000" twoBackends _ _ _ shutWhilePlacing (by decide) rfl rfl rfl
    rfl rfl).2

/-- Where nothing changes any more, no connection does anything. -/
theorem link_of_rests (hexited : s.exited = false) (hrests : Rests pipeStep s) {i : ℕ} {l l' : Link}
    {a : LinkAct} (hl : s.links[i]? = some l)
    (hstep : linkStep s.tcp.balancer.timeout l a = some l') : l' = l := by
  have hmove : pipeStep s (.link i a) = some { s with links := s.links.set i l' } := by
    simp only [pipeStep, hexited, Bool.false_eq_true, if_false, Pipeline.move, hl, Option.bind_some,
      hstep, Option.map_some]
  have hsame : s.links.set i l' = s.links := congrArg Pipeline.links (hrests _ _ hmove)
  have hi : i < s.links.length := (List.getElem?_eq_some_iff.mp hl).1
  have hat : (s.links.set i l')[i]? = some l' := List.getElem?_set_self hi
  rw [hsame, hl] at hat
  exact (Option.some.inj hat).symm

/-- Then every connection that was taken is closed at both ends, and no longer counted. -/
theorem links_of_rests (hs : s.Ok) (hdone : s.done = true) (hexited : s.exited = false)
    (hrests : Rests pipeStep s) {l : Link} (hl : l ∈ s.links) :
    l.clientOpen = false ∧ l.backendOpen = false ∧ l.counted = false ∧ l.upstream = false ∧
      l.downstream = false := by
  obtain ⟨i, hi⟩ := List.mem_iff_getElem?.mp hl
  have hcancelled : l.cancelled = true := (hs.links l hl).parent hdone
  refine ⟨?_, ?_, ?_, ?_, ?_⟩
  · by_contra hopen
    rw [Bool.not_eq_false] at hopen
    have hsame := link_of_rests hexited hrests (a := .closeClient) hi (if_pos ⟨hcancelled, hopen⟩)
    have hbit := congrArg Link.clientOpen hsame
    rw [hopen] at hbit
    cases hbit
  · by_contra hopen
    rw [Bool.not_eq_false] at hopen
    have hsame := link_of_rests hexited hrests (a := .closeBackend) hi (if_pos ⟨hcancelled, hopen⟩)
    have hbit := congrArg Link.backendOpen hsame
    rw [hopen] at hbit
    cases hbit
  · by_contra hcounted
    rw [Bool.not_eq_false] at hcounted
    cases haddr : l.addr with
    | none =>
      rw [((hs.links l hl).unplaced haddr).2.1] at hcounted
      cases hcounted
    | some addr =>
      -- its decrement is still to run
      have hlive : addr ∈ s.tcp.live := by
        rw [← List.count_pos_iff, hs.live addr, List.countP_pos_iff]
        exact ⟨l, hl, by simp [Link.counts, hcounted, haddr]⟩
      obtain ⟨tcp, htcp⟩ : ∃ tcp, tcpStep s.tcp (.decrement addr) = some tcp := ⟨_, if_pos hlive⟩
      have hmove : pipeStep s (.decrement i)
          = some { s with tcp := tcp, links := s.links.set i { l with counted := false } } := by
        simp only [pipeStep, hexited, Bool.false_eq_true, if_false, Pipeline.move, hi, haddr,
          Option.bind_some, hcancelled, hcounted, and_self, if_true, htcp, Option.map_some]
      have hsame : s.links.set i { l with counted := false } = s.links :=
        congrArg Pipeline.links (hrests _ _ hmove)
      have hat := List.getElem?_set_self (a := { l with counted := false })
        (List.getElem?_eq_some_iff.mp hi).1
      rw [hsame, hi] at hat
      have hbit := congrArg Link.counted (Option.some.inj hat)
      rw [hcounted] at hbit
      cases hbit
  · by_contra hrunning
    rw [Bool.not_eq_false] at hrunning
    have hsame := link_of_rests hexited hrests (a := .endUpstream) hi (if_pos hrunning)
    have hbit := congrArg Link.upstream hsame
    rw [hrunning] at hbit
    cases hbit
  · by_contra hrunning
    rw [Bool.not_eq_false] at hrunning
    have hsame := link_of_rests hexited hrests (a := .endDownstream) hi (if_pos hrunning)
    have hbit := congrArg Link.downstream hsame
    rw [hrunning] at hbit
    cases hbit

/-- Then a connection that is still being placed has no backend to go to. -/
theorem pool_of_rests (hexited : s.exited = false) (hrests : Rests pipeStep s) {i : ℕ}
    (hforwarder : s.forwarder = .placing i)
    (hzero : ∀ addr ∈ s.tcp.balancer.backendAddresses, s.tcp.balancer.count addr = 0) {addr : String}
    (haddr : addr ∈ s.tcp.balancer.backendAddresses) :
    addr = "" ∨ s.tcp.balancer.maxConns ≤ 0 := by
  have hcurrent : s.forwarder.current = some i := Forwarder.current_eq_some.mpr hforwarder
  -- a selected address would be dialed
  have hselected : s.tcp.selected = none := by
    cases hsel : s.tcp.selected with
    | none => rfl
    | some chosen =>
      obtain ⟨tcp, htcp, hnone⟩ : ∃ tcp, tcpStep s.tcp (.dial false) = some tcp ∧
          tcp.selected = none := by
        rw [tcpStep, hsel]
        exact ⟨_, rfl, rfl⟩
      have hmove : pipeStep s (.dial false) = some { s with tcp := tcp } := by
        simp only [pipeStep, hexited, Bool.false_eq_true, if_false, Pipeline.move, hcurrent, hsel,
          Option.bind_some, htcp, Option.map_some, Pipeline.dialed]
      have hsame := congrArg (fun t => t.tcp.selected) (hrests _ _ hmove)
      rw [hsel] at hsame
      rw [hnone] at hsame
      cases hsame
  by_contra hcan
  push Not at hcan
  have hroom : s.tcp.balancer.Room := by
    intro a ha
    rw [hzero a ha]
    exact hcan.2
  have hleast : ∀ a ∈ s.tcp.balancer.backendAddresses,
      s.tcp.balancer.count addr ≤ s.tcp.balancer.count a := by
    intro a ha
    rw [hzero a ha, hzero addr haddr]
  -- with this address met last, it would be selected
  have hlowest := getLowestBalancer_poolOrder_last hroom haddr hleast
  have htcp : tcpStep s.tcp (.select ((PoolOrder.last addr).list s.tcp.balancer.backendAddresses))
      = some { s.tcp with selected := some addr } := by
    rw [tcpStep, if_pos ⟨hselected, (PoolOrder.last addr).perm _⟩, hlowest, if_neg hcan.1]
  have hmove : pipeStep s (.select ((PoolOrder.last addr).list s.tcp.balancer.backendAddresses))
      = some { s with tcp := { s.tcp with selected := some addr } } := by
    simp only [pipeStep, hexited, Bool.false_eq_true, if_false, Pipeline.move, hcurrent,
      Option.bind_some, htcp, Option.map_some]
  have hsame := congrArg (fun t => t.tcp.selected) (hrests _ _ hmove)
  rw [hselected] at hsame
  cases hsame

/-- **What `Shutdown` leaves.**  Where a TCP balancer whose cap is not negative was shut down and has
come to rest: its listener is closed; every connection that the forwarder had taken is closed at
both ends, both its copies have ended, and every count is zero; the forwarder has returned, or it
looks for a backend for ever because there is none that could take a connection.  But nobody closes
the connections that were accepted and not taken: those in the channel, and the one `acceptTCPConns`
still wants to send, when the channel is full. -/
theorem shutdown_leaves (hmax : 0 ≤ config.maxConnectionsPerAddress)
    (hb : Balancer.init listenSpec config = some b) (hstart : Pipeline.start b = some s₀)
    (hrun : run pipeStep s₀ as = some s) (hdone : s.done = true) (hexited : s.exited = false)
    (hrests : Rests pipeStep s) :
    s.listening = false ∧
    (∀ l ∈ s.links, l.clientOpen = false ∧ l.backendOpen = false ∧ l.counted = false ∧
      l.upstream = false ∧ l.downstream = false) ∧
    (∀ addr ∈ s.tcp.balancer.backendAddresses, s.tcp.balancer.backendConns.lookup addr = some 0) ∧
    (s.forwarder = .ended ∨ (∃ i, s.forwarder = .placing i) ∧
      ∀ addr ∈ s.tcp.balancer.backendAddresses, addr = "" ∨ b.maxConns ≤ 0) ∧
    s.links.map Link.id ++ s.queue ++ s.acceptor.held.toList = List.range s.accepted ∧
    (s.acceptor = .ended ∨ s.acceptor.held ≠ none ∧ s.queue.length = b.connBuffer.toNat) := by
  obtain ⟨hok, hbuffer, hcap⟩ := pipeRun_ok hmax hb hstart hrun
  have hmove : ∀ a s', s.move a = some s' → s' = s := by
    intro a s' h
    refine hrests a s' ?_
    rw [pipeStep, hexited]
    exact h
  have hlistening : s.listening = false := by
    have hsame := hmove .closeListener { s with listening := false } (if_pos hdone)
    exact (congrArg Pipeline.listening hsame).symm
  have hlinks : ∀ l ∈ s.links, l.clientOpen = false ∧ l.backendOpen = false ∧ l.counted = false ∧
      l.upstream = false ∧ l.downstream = false :=
    fun l hl => links_of_rests hok hdone hexited hrests hl
  have hlive : ∀ addr, s.tcp.live.count addr = 0 := by
    intro addr
    rw [hok.live addr, List.countP_eq_zero]
    intro l hl
    rw [Link.counts, (hlinks l hl).2.2.1, Bool.false_and]
    exact Bool.false_ne_true
  have hcounts : ∀ addr ∈ s.tcp.balancer.backendAddresses,
      s.tcp.balancer.backendConns.lookup addr = some 0 := by
    intro addr haddr
    obtain ⟨c, hc⟩ := hok.accounting.lookup_isSome haddr
    have hzero := hok.accounting.counts addr c hc
    rw [hlive addr] at hzero
    rw [hc, hzero]
    rfl
  refine ⟨hlistening, hlinks, hcounts, ?_, hok.order, ?_⟩
  · cases hforwarder : s.forwarder with
    | ended => exact Or.inl rfl
    | waiting =>
      have hsame := hmove .stop { s with forwarder := .ended } (if_pos ⟨hforwarder, hdone⟩)
      have hended := congrArg Pipeline.forwarder hsame
      rw [hforwarder] at hended
      cases hended
    | placing i =>
      refine Or.inr ⟨⟨i, rfl⟩, fun addr haddr => ?_⟩
      rw [← hcap]
      exact pool_of_rests hexited hrests hforwarder
        (fun a ha => Balancer.count_of_lookup (hcounts a ha)) haddr
  · cases hacceptor : s.acceptor with
    | ended => exact Or.inl rfl
    | waiting =>
      have hsame := hmove .acceptClosed { s with acceptor := .ended }
        (if_pos ⟨hacceptor, by rw [hlistening]; exact Bool.false_ne_true⟩)
      have hended := congrArg Pipeline.acceptor hsame
      rw [hacceptor] at hended
      cases hended
    | sending id =>
      refine Or.inr ⟨by simp [Acceptor.held], ?_⟩
      by_contra hfull
      have hroom : s.queue.length < s.buffer := by
        have := hok.room
        omega
      have hsend : s.move .send
          = some { s with acceptor := .waiting, queue := s.queue ++ [id] } := by
        simp only [Pipeline.move, hacceptor, Acceptor.held, Option.bind_some, hroom, if_true]
      have hwaiting := congrArg Pipeline.acceptor (hmove _ _ hsend)
      rw [hacceptor] at hwaiting
      cases hwaiting

/-- One backend, and room for one connection in the channel. -/
def oneSlot : BalancerConfig := ⟨.tcp, ["10.0.0.1:80"], 1, 1, 0⟩

/-- Two connections are accepted before the forwarder sees that its context is done. -/
def shutTooLate : List PipeAct := [.accept, .send, .accept, .shutdown, .stop, .closeListener]

/-- A connection is left in the channel and another one waits for room: nothing changes any more. -/
theorem rests_left {b : Balancer} (hb : b.connBuffer = 1) :
    Rests pipeStep ⟨.ofBalancer b, false, true, false, .sending 1, [0], .ended, 2, []⟩ := by
  intro a s' h
  obtain ⟨-, hmove⟩ := pipeStep_move h
  cases hmove with
  | send hacceptor hroom =>
    unfold Pipeline.buffer at hroom
    rw [show (TCPState.ofBalancer b).balancer.connBuffer = 1 from hb] at hroom
    exact absurd hroom (Nat.lt_irrefl 1)
  | link hl hstep => cases hl
  | decrement hl haddr hcancelled hcounted hlive => cases hl
  | shutdown => rfl
  | closeListener => rfl
  | retry => rfl
  | accept hacceptor => cases hacceptor
  | acceptClosed hacceptor => cases hacceptor
  | acceptFailed hlistening => cases hlistening
  | receive hforwarder => cases hforwarder
  | handOver hforwarder => cases hforwarder
  | stop hforwarder => cases hforwarder
  | select hforwarder => cases hforwarder
  | dialed hforwarder => cases hforwarder
  | dialFailed hforwarder => cases hforwarder

theorem shutdown_leaves_two :
    ∃ b s₀ s, Balancer.init "127.0.0.1:8000" oneSlot = some b ∧ Pipeline.start b = some s₀ ∧
      run pipeStep s₀ shutTooLate = some s ∧ s.queue = [0] ∧ s.acceptor = .sending 1 ∧
      s.links.map Link.id ++ s.queue ++ s.acceptor.held.toList = List.range s.accepted := by
  refine ⟨_, _, _, rfl, rfl, rfl, rfl, rfl, ?_⟩
  exact (@shutdown_leaves "127.0.0.1:8000" oneSlot _ _ _ shutTooLate (by decide) rfl rfl rfl rfl rfl
    (rests_left rfl)).2.2.2.2.1

end Rest

end Border
