/-
# Concurrent mutators

Model of `RemovePeer`, `AddPeer`, `SetPeers`, `SetPublisher` and `Reload` of
`pkg/config/config.go` when several goroutines call them on one configuration.  A step of the
system is one section under `EditMutex`.  `AddPeer`, `SetPeers` and `SetPublisher` have one
section; `RemovePeer` has two, it scans the list under the read lock and writes what is left
under the lock; `Reload` has three, it takes the publisher and the chain, copies the loaded
configuration, and puts the publisher and the chain back.

Between two sections of one call other calls run, so `RemovePeer` and `Reload` write what was
true earlier.

* `execute` is a call executed with nothing in between, as `run_alone` shows of its sections;
* `mutators_serialized` : as long as what is written is still what would be computed from the
  present configuration, the calls are serialised by their commits;
* `mutators_restore_removed` : two removals at once, after which one of the peers is listed
  again.
-/
import Border.ConfigUpdate
import Border.Election
import Border.Serialize

namespace Border

open GoJson Transition Serialize

/-! ## The calls and their sections -/

/-- A call on the configuration.  `Reload` comes with what `FromDisk` returned. -/
inductive Mutation
  | removePeer (peer : Option Peer)
  | addPeer (peer : Option Peer)
  | setPeers (peers : Slice (Option Peer))
  | setPublisher (publisher : Option Peer)
  | reload (newConfig : Config)

/-- How far a call is, with the local variables its next sections use. -/
inductive Progress
  | waiting
  /-- `RemovePeer` has scanned the list for the peer, and holds the others. -/
  | removing (peer : Option Peer) (peers : List (Option Peer))
  /-- `Reload` has taken the publisher and the chain. -/
  | reloading (publisher : Option Peer) (chain : List String)
  /-- `Reload` has called `CopyFrom`. -/
  | copied (publisher : Option Peer) (chain : List String)
  | done
  deriving DecidableEq

/-- The configuration, the progress of every call, and the calls that have made their change
in the order in which they made it.  No section reads that order. -/
structure MutatorState where
  config : Config
  progress : ℕ → Progress
  order : List ℕ

/-- Every call is about to start. -/
def MutatorState.start (c : Config) : MutatorState := ⟨c, fun _ => .waiting, []⟩

/-- A section of call `i` that leaves `c` behind. -/
def MutatorState.move (s : MutatorState) (i : ℕ) (c : Config) (p : Progress) : MutatorState :=
  { s with config := c, progress := Function.update s.progress i p }

/-- A section of call `i` that makes its change. -/
def MutatorState.commit (s : MutatorState) (i : ℕ) (c : Config) (p : Progress) : MutatorState :=
  { s.move i c p with order := s.order ++ [i] }

/-- The next section of call `i`.  A peer without a key makes `RemovePeer` panic. -/
def mutatorStep (calls : List Mutation) (s : MutatorState) (i : ℕ) : Option MutatorState :=
  match calls[i]?, s.progress i with
  | some (.removePeer peer), .waiting =>
    match removePeer peer s.config.peers.elems with
    | .error _ => none
    | .ok peers => some (s.move i s.config (.removing peer peers))
  | some (.removePeer _), .removing _ peers =>
    some (s.commit i { s.config with peers := some peers } .done)
  | some (.addPeer peer), .waiting => some (s.commit i (s.config.addPeer peer) .done)
  | some (.setPeers peers), .waiting => some (s.commit i { s.config with peers := peers } .done)
  | some (.setPublisher publisher), .waiting =>
    some (s.commit i (s.config.setPublisher publisher) .done)
  | some (.reload _), .waiting =>
    some (s.move i s.config (.reloading s.config.publisher s.config.chain))
  | some (.reload newConfig), .reloading publisher chain =>
    some (s.commit i (s.config.copyFrom newConfig) (.copied publisher chain))
  | some (.reload _), .copied publisher chain =>
    some (s.move i { s.config with publisher := publisher, chain := chain } .done)
  | _, _ => none

/-! ## One call at a time -/

/-- A call with nothing in between; `none` is a panic. -/
def execute : Mutation → Config → Option Config
  | .removePeer peer, c => (c.removePeer peer).toOption
  | .addPeer peer, c => some (c.addPeer peer)
  | .setPeers peers, c => some { c with peers := peers }
  | .setPublisher publisher, c => some (c.setPublisher publisher)
  | .reload newConfig, c => some (c.copyFrom newConfig)

theorem execute_removePeer {peer : Option Peer} {c c' : Config} :
    execute (.removePeer peer) c = some c' ↔
      ∃ peers, removePeer peer c.peers.elems = .ok peers ∧ c' = { c with peers := some peers } := by
  show (c.removePeer peer).toOption = some c' ↔ _
  unfold Config.removePeer
  cases removePeer peer c.peers.elems with
  | error e => exact ⟨fun h => absurd h (by simp [Except.map, Except.toOption]), by simp⟩
  | ok peers =>
    constructor
    · intro h
      exact ⟨peers, rfl, (Option.some.inj h).symm⟩
    · rintro ⟨_, hpeers, rfl⟩
      rw [← Except.ok.inj hpeers]
      rfl

/-- No call touches the chain. -/
theorem execute_chain {call : Mutation} {c c' : Config} (h : execute call c = some c') :
    c'.chain = c.chain := by
  cases call with
  | removePeer peer =>
    obtain ⟨peers, -, rfl⟩ := execute_removePeer.mp h
    rfl
  | addPeer peer | setPeers peers | setPublisher publisher | reload newConfig =>
    obtain rfl := Option.some.inj h
    rfl

/-- How many sections a call has. -/
def Mutation.sections : Mutation → ℕ
  | .removePeer _ => 2
  | .reload _ => 3
  | _ => 1

/-- **A call alone.**  The sections of a call, one right after the other, execute it. -/
theorem run_alone {calls : List Mutation} {s : MutatorState} {i : ℕ} {call : Mutation}
    (hcall : calls[i]? = some call) (hwaiting : s.progress i = .waiting) {c : Config}
    (h : execute call s.config = some c) :
    ∃ s', run (mutatorStep calls) s (List.replicate call.sections i) = some s' ∧
      s'.config = c ∧ s'.progress i = .done := by
  cases call with
  | removePeer peer =>
    obtain ⟨peers, hpeers, rfl⟩ := execute_removePeer.mp h
    refine ⟨(s.move i s.config (.removing peer peers)).commit i
      { s.config with peers := some peers } .done, ?_, rfl, Function.update_self ..⟩
    simp [Mutation.sections, List.replicate, run_cons, mutatorStep, hcall, hwaiting, hpeers,
      MutatorState.move]
  | addPeer peer | setPeers peers | setPublisher publisher =>
    refine ⟨s.commit i c .done, ?_, rfl, Function.update_self ..⟩
    rw [← Option.some.inj h]
    simp [Mutation.sections, run_cons, mutatorStep, hcall, hwaiting]
  | reload newConfig =>
    obtain rfl := Option.some.inj h
    -- What the last section puts back is what the configuration has.
    refine ⟨((s.move i s.config (.reloading s.config.publisher s.config.chain)).commit i
      (s.config.copyFrom newConfig) (.copied s.config.publisher s.config.chain)).move i
      (s.config.copyFrom newConfig) .done, ?_, rfl, Function.update_self ..⟩
    simp [Mutation.sections, List.replicate, run_cons, mutatorStep, hcall, hwaiting,
      MutatorState.move, MutatorState.commit, Config.copyFrom]

/-- `Reload` as a call on the configuration is `Reload` on a node, up to the signal. -/
theorem execute_reload {β : Type} {lib : Libraries β} {env : Env} {node : Node β}
    {newConfig : Config}
    (h : fromDisk lib env node.config node.jsonPath (loadJSON lib) (node.disk node.jsonPath)
      = .ok newConfig) :
    ∃ c, execute (.reload newConfig) node.config = some c ∧
      (reload lib env).run node = .ok () { node with config := { c with reload := true } } :=
  ⟨_, rfl, reload_ok h⟩

/-! ## What a section does -/

/-- The sections. -/
inductive Section (calls : List Mutation) (s : MutatorState) (i : ℕ) : MutatorState → Prop
  | scan {peer : Option Peer} {peers : List (Option Peer)}
      (hcall : calls[i]? = some (.removePeer peer)) (hprogress : s.progress i = .waiting)
      (hscan : removePeer peer s.config.peers.elems = .ok peers) :
      Section calls s i (s.move i s.config (.removing peer peers))
  | write {peer : Option Peer} {peers : List (Option Peer)} {scanned : Option Peer}
      (hcall : calls[i]? = some (.removePeer peer))
      (hprogress : s.progress i = .removing scanned peers) :
      Section calls s i (s.commit i { s.config with peers := some peers } .done)
  | whole {call : Mutation} {c : Config} (hcall : calls[i]? = some call)
      (hprogress : s.progress i = .waiting) (hexecute : execute call s.config = some c) :
      Section calls s i (s.commit i c .done)
  | take {newConfig : Config} (hcall : calls[i]? = some (.reload newConfig))
      (hprogress : s.progress i = .waiting) :
      Section calls s i (s.move i s.config (.reloading s.config.publisher s.config.chain))
  | copy {newConfig : Config} {publisher : Option Peer} {chain : List String}
      (hcall : calls[i]? = some (.reload newConfig))
      (hprogress : s.progress i = .reloading publisher chain) :
      Section calls s i (s.commit i (s.config.copyFrom newConfig) (.copied publisher chain))
  | putBack {newConfig : Config} {publisher : Option Peer} {chain : List String}
      (hcall : calls[i]? = some (.reload newConfig))
      (hprogress : s.progress i = .copied publisher chain) :
      Section calls s i (s.move i { s.config with publisher := publisher, chain := chain } .done)

theorem mutatorStep_section {calls : List Mutation} {s s' : MutatorState} {i : ℕ}
    (h : mutatorStep calls s i = some s') : Section calls s i s' := by
  unfold mutatorStep at h
  split at h
  case h_1 peer hcall hprogress =>
    split at h
    · exact absurd h (by simp)
    · rename_i peers hscan
      rw [← Option.some.inj h]
      exact .scan hcall hprogress hscan
  case h_2 hcall hprogress =>
    rw [← Option.some.inj h]
    exact .write hcall hprogress
  case h_3 hcall hprogress | h_4 hcall hprogress | h_5 hcall hprogress =>
    rw [← Option.some.inj h]
    exact .whole hcall hprogress rfl
  case h_6 hcall hprogress =>
    rw [← Option.some.inj h]
    exact .take hcall hprogress
  case h_7 hcall hprogress =>
    rw [← Option.some.inj h]
    exact .copy hcall hprogress
  case h_8 hcall hprogress =>
    rw [← Option.some.inj h]
    exact .putBack hcall hprogress
  case h_9 => exact absurd h (by simp)

/-! ## What every interleaving keeps -/

/-- The call has made its change. -/
def Progress.Committed : Progress → Prop
  | .copied _ _ => True
  | .done => True
  | _ => False

/-- What a call holds goes with the call, and the chain it holds is the present one. -/
def Progress.Fits (call : Option Mutation) (chain : List String) : Progress → Prop
  | .removing peer _ => call = some (.removePeer peer)
  | .reloading _ saved => saved = chain
  | .copied _ saved => saved = chain
  | _ => True

structure Consistent (calls : List Mutation) (s : MutatorState) : Prop where
  committed : ∀ i, i ∈ s.order ↔ (s.progress i).Committed
  fits : ∀ i, (s.progress i).Fits calls[i]? s.config.chain

theorem consistent_start (calls : List Mutation) (c : Config) :
    Consistent calls (.start c) :=
  ⟨fun _ => ⟨fun h => absurd h List.not_mem_nil, False.elim⟩, fun _ => trivial⟩

section Preservation

variable {calls : List Mutation} {s s' : MutatorState} {i : ℕ} {c : Config} {p : Progress}

theorem fits_update (hs : Consistent calls s) (hchain : c.chain = s.config.chain)
    (hp : p.Fits calls[i]? s.config.chain) (j : ℕ) :
    (Function.update s.progress i p j).Fits calls[j]? c.chain := by
  rw [hchain]
  by_cases hj : j = i
  · subst hj
    rwa [Function.update_self]
  · rw [Function.update_of_ne hj]
    exact hs.fits j

theorem Consistent.move (hs : Consistent calls s) (hchain : c.chain = s.config.chain)
    (hp : p.Fits calls[i]? s.config.chain) (hsame : (s.progress i).Committed ↔ p.Committed) :
    Consistent calls (s.move i c p) := by
  refine ⟨fun j => ?_, fits_update hs hchain hp⟩
  show j ∈ s.order ↔ (Function.update s.progress i p j).Committed
  by_cases hj : j = i
  · subst hj
    rw [Function.update_self, ← hsame]
    exact hs.committed j
  · rw [Function.update_of_ne hj]
    exact hs.committed j

theorem Consistent.commit (hs : Consistent calls s) (hchain : c.chain = s.config.chain)
    (hp : p.Fits calls[i]? s.config.chain) (hcommitted : p.Committed) :
    Consistent calls (s.commit i c p) := by
  refine ⟨fun j => ?_, fits_update hs hchain hp⟩
  show j ∈ s.order ++ [i] ↔ (Function.update s.progress i p j).Committed
  rw [List.mem_append, List.mem_singleton]
  by_cases hj : j = i
  · subst hj
    rw [Function.update_self]
    exact ⟨fun _ => hcommitted, fun _ => Or.inr rfl⟩
  · rw [Function.update_of_ne hj, hs.committed j]
    exact ⟨fun h => h.resolve_right hj, Or.inl⟩

/-- Every section keeps the progress of the calls consistent. -/
theorem Consistent.step (hs : Consistent calls s) (h : Section calls s i s') :
    Consistent calls s' := by
  have hfits := hs.fits i
  cases h with
  | scan hcall hprogress hscan => exact hs.move rfl hcall (by rw [hprogress]; exact Iff.rfl)
  | write hcall hprogress => exact hs.commit rfl trivial trivial
  | whole hcall hprogress hexecute => exact hs.commit (execute_chain hexecute) trivial trivial
  | take hcall hprogress =>
    exact hs.move rfl (p := .reloading _ _) rfl (by rw [hprogress]; exact Iff.rfl)
  | copy hcall hprogress =>
    rw [hprogress] at hfits
    exact hs.commit rfl (p := .copied _ _) hfits trivial
  | putBack hcall hprogress =>
    rw [hprogress] at hfits
    exact hs.move hfits trivial (by rw [hprogress]; exact Iff.rfl)

/-- A call that has not made its change is not in the order. -/
theorem Consistent.not_mem_order (hs : Consistent calls s) (h : ¬ (s.progress i).Committed) :
    i ∉ s.order := fun hi => h ((hs.committed i).mp hi)

end Preservation

/-! ## Writes that are up to date -/

/-- What the next section writes is what would be computed from the present configuration. -/
def Progress.UpToDate (c : Config) : Progress → Prop
  | .removing peer peers => removePeer peer c.peers.elems = .ok peers
  | .copied publisher _ => c.publisher = publisher
  | _ => True

instance (c : Config) : ∀ p : Progress, Decidable (p.UpToDate c)
  | .waiting => isTrue trivial
  | .removing peer peers => inferInstanceAs (Decidable (removePeer peer c.peers.elems = .ok peers))
  | .reloading _ _ => isTrue trivial
  | .copied publisher _ => inferInstanceAs (Decidable (c.publisher = publisher))
  | .done => isTrue trivial

/-- The next section of call `i` writes what is up to date. -/
def WritesUpToDate (s : MutatorState) (i : ℕ) : Prop := (s.progress i).UpToDate s.config

instance (s : MutatorState) (i : ℕ) : Decidable (WritesUpToDate s i) :=
  inferInstanceAs (Decidable ((s.progress i).UpToDate s.config))

/-- Executing the calls in the order of their changes leads to the present configuration. -/
def SerializedFrom (calls : List Mutation) (c : Config) (s : MutatorState) : Prop :=
  executeAll execute (callsAt calls s.order) c = some s.config

/-- A section that writes what is up to date is a commit, or changes nothing. -/
theorem commitStep_of_upToDate {calls : List Mutation} {s s' : MutatorState} {i : ℕ}
    (hs : Consistent calls s) (hup : WritesUpToDate s i) (h : Section calls s i s') :
    CommitStep calls execute MutatorState.config MutatorState.order s s' := by
  have hfits := hs.fits i
  have hnew := hs.not_mem_order (i := i)
  unfold WritesUpToDate at hup
  cases h with
  | scan hcall hprogress hscan => exact .silent rfl rfl
  | write hcall hprogress =>
    rw [hprogress] at hup hfits hnew
    exact .commit (i := i) hfits (hnew id) (execute_removePeer.mpr ⟨_, hup, rfl⟩) rfl
  | whole hcall hprogress hexecute =>
    rw [hprogress] at hnew
    exact .commit hcall (hnew id) hexecute rfl
  | take hcall hprogress => exact .silent rfl rfl
  | copy hcall hprogress =>
    rw [hprogress] at hnew
    exact .commit hcall (hnew id) rfl rfl
  | putBack hcall hprogress =>
    rw [hprogress] at hup hfits
    subst hup hfits
    exact .silent rfl rfl

/-- A section that writes what is out of date leaves a configuration that executing the calls
in the order of their changes does not give. -/
theorem not_serialized_of_outdated {calls : List Mutation} {c : Config} {s s' : MutatorState}
    {i : ℕ} (hs : Consistent calls s) (hser : SerializedFrom calls c s)
    (hup : ¬ WritesUpToDate s i) (h : Section calls s i s') : ¬ SerializedFrom calls c s' := by
  have hfits := hs.fits i
  unfold WritesUpToDate at hup
  unfold SerializedFrom at hser ⊢
  cases h with
  | scan hcall hprogress hscan | whole hcall hprogress hexecute | take hcall hprogress
  | copy hcall hprogress =>
    rw [hprogress] at hup
    exact absurd trivial hup
  | write hcall hprogress =>
    rw [hprogress] at hup hfits
    show executeAll execute (callsAt calls (s.order ++ [i])) c ≠ _
    rw [callsAt_concat hfits, executeAll_concat hser]
    intro hexecute
    obtain ⟨peers, hpeers, hconfig⟩ := execute_removePeer.mp hexecute
    obtain rfl : _ = peers := Option.some.inj (congrArg (fun c : Config => c.peers) hconfig)
    exact hup hpeers
  | putBack hcall hprogress =>
    rw [hprogress] at hup
    show executeAll execute (callsAt calls s.order) c ≠ _
    rw [hser]
    intro hconfig
    exact hup (congrArg Config.publisher (Option.some.inj hconfig))

/-- **Concurrent mutators.**  In a run in which no `RemovePeer` writes a list, and no `Reload`
puts back a publisher, that is out of date, the configuration is at any time the one that the
calls leave when executed one after the other in the order of their changes, and once all are
done these are all the calls.  The first section that writes what is out of date ends that. -/
theorem mutators_serialized {calls : List Mutation} {c : Config} {is : List ℕ} {s : MutatorState}
    (hrun : run (mutatorStep calls) (.start c) is = some s)
    (hup : Along (mutatorStep calls) WritesUpToDate (.start c) is) :
    (executeAll execute (callsAt calls s.order) c = some s.config ∧
      ((∀ i < calls.length, s.progress i = .done) → (callsAt calls s.order).Perm calls)) ∧
    ∀ i s', mutatorStep calls s i = some s' → ¬ WritesUpToDate s i →
      executeAll execute (callsAt calls s'.order) c ≠ some s'.config := by
  obtain ⟨hs, hser⟩ := serialized_run (P := Consistent calls)
    (fun t i t' ht hupt hstep => ⟨ht.step (mutatorStep_section hstep),
      commitStep_of_upToDate ht hupt (mutatorStep_section hstep)⟩)
    (consistent_start calls c) rfl hup hrun
  refine ⟨⟨hser.executed, fun hdone => hser.perm fun i hi => (hs.committed i).mpr ?_⟩, ?_⟩
  · rw [hdone i hi]
    trivial
  · intro i s' hstep hout
    exact not_serialized_of_outdated hs hser.executed hout (mutatorStep_section hstep)

/-! ## Runs -/

/-- Foo, bar and baz. -/
def threePeers : Config :=
  { Config.new [] with
    peers := some [some (peerNamed "foo"), some (peerNamed "bar"), some (peerNamed "baz")] }

/-- Bar is removed, foo becomes the publisher, and bar is added again, in this order: the
sections of the first two interleave. -/
theorem mutators_serialized_threePeers :
    ∃ s, run (mutatorStep [.removePeer (some (peerNamed "bar")),
        .setPublisher (some (peerNamed "foo")), .addPeer (some (peerNamed "bar"))])
        (.start threePeers) [0, 1, 0, 2] = some s ∧
      s.config.peers = some [some (peerNamed "foo"), some (peerNamed "baz"),
        some (peerNamed "bar")] ∧
      ∃ order : List Mutation, order.Perm [.removePeer (some (peerNamed "bar")),
          .setPublisher (some (peerNamed "foo")), .addPeer (some (peerNamed "bar"))] ∧
        executeAll execute order threePeers = some s.config := by
  have hany : (run (mutatorStep [.removePeer (some (peerNamed "bar")),
        .setPublisher (some (peerNamed "foo")), .addPeer (some (peerNamed "bar"))])
        (.start threePeers) [0, 1, 0, 2]).any (fun s =>
      s.config.peers = some [some (peerNamed "foo"), some (peerNamed "baz"),
        some (peerNamed "bar")] ∧
      ∀ i < 3, s.progress i = .done) = true := by decide +kernel
  obtain ⟨s, hrun, hs⟩ := Option.any_eq_true _ _ |>.mp hany
  obtain ⟨hpeers, hdone⟩ := of_decide_eq_true hs
  obtain ⟨⟨hexecuted, hperm⟩, -⟩ := mutators_serialized hrun (by decide +kernel)
  exact ⟨s, hrun, hpeers, _, hperm hdone, hexecuted⟩

/-- **A removed peer comes back.**  Bar and baz are unreachable and are removed at once: both
calls scan the full list, and the second writes a list that has bar.  No order of the two calls
leaves bar listed. -/
theorem mutators_restore_removed :
    ∃ s, run (mutatorStep [.removePeer (some (peerNamed "bar")),
        .removePeer (some (peerNamed "baz"))]) (.start threePeers) [0, 1, 0, 1] = some s ∧
      (∀ i < 2, s.progress i = .done) ∧
      s.config.peers = some [some (peerNamed "foo"), some (peerNamed "bar")] ∧
      ∀ order : List Mutation, order.Perm [.removePeer (some (peerNamed "bar")),
          .removePeer (some (peerNamed "baz"))] →
        ∀ c, executeAll execute order threePeers = some c →
          c.peers = some [some (peerNamed "foo")] := by
  have hany : (run (mutatorStep [.removePeer (some (peerNamed "bar")),
        .removePeer (some (peerNamed "baz"))]) (.start threePeers) [0, 1, 0, 1]).any (fun s =>
      (∀ i < 2, s.progress i = .done) ∧
      s.config.peers = some [some (peerNamed "foo"), some (peerNamed "bar")]) = true := by
    decide +kernel
  obtain ⟨s, hrun, hs⟩ := Option.any_eq_true _ _ |>.mp hany
  obtain ⟨hdone, hpeers⟩ := of_decide_eq_true hs
  refine ⟨s, hrun, hdone, hpeers, fun order hperm c hc => ?_⟩
  have hall : ∀ order ∈ [[Mutation.removePeer (some (peerNamed "bar")),
        .removePeer (some (peerNamed "baz"))], [.removePeer (some (peerNamed "baz")),
        .removePeer (some (peerNamed "bar"))]],
      (executeAll execute order threePeers).map (fun c => c.peers)
        = some (some [some (peerNamed "foo")]) := by
    decide +kernel
  have hmem := hall order (by simpa [or_comm] using List.perm_pair.mp hperm)
  rw [hc] at hmem
  exact Option.some.inj hmem

end Border
