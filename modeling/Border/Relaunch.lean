/-
# Starting a node, and starting it again

Model of `Launch` and `monitorReload` in `pkg/launcher/launcher.go` and of `Start` in
`pkg/controlserver/controlserver.go`: the services a node starts, the election at the end,
and the second launch that follows a change of the configuration.

The clock from which a node measures its uptime is set when its control server starts, so
a second launch sets it again.  `update_keeps_publisher_iff` says when the node that was
the publisher is elected again all the same.
-/
import Border.ConfigChain
import Border.HealthActions
import Border.Launcher

namespace Border

open GoJson GoMap NetAddr

/-! ## Starting the services -/

/-- `controlserver.Server`: the peer it is the server of, and the time at which it was
started. -/
structure Control where
  me : Peer
  bootTime : ℤ

/-- `controlserver.Start`. -/
def Control.start (net : Network) (now : ℤ) (c : ConfigData) (me : Option Peer)
    (listenSpec : String) : Except Failure Control :=
  match c.authKey with
  | none => .error (.error "You must provide an auth_key to start the server")
  | some _ =>
    match net.listen listenSpec with
    | some e => .error (.error e)
    | none =>
      match me with
      -- `configureMux` reads the key of the peer
      | none => .error nilDereference
      | some me =>
        match net.serve listenSpec with
        | some e => .error (.error e)
        | none => .ok ⟨me, now⟩

/-- `handleUptime`. -/
def Control.handleUptime (cs : Control) (now : ℤ) : ℤ := now - cs.bootTime

/-- What a node finds around it when it starts: the network, the error of starting a DNS
server on an address, the time, and the orders of the two loops over the zones. -/
structure Machine where
  network : Network
  dnsStart : String → Option String
  now : ℤ
  balancerOrder : RangeOrder String (Option Zone)
  checkOrder : RangeOrder String (Option Zone)

/-- `launcher.Server`. -/
structure Server where
  control : Control
  balancers : List Balancer
  healthChecker : Builder
  peerName : String

/-- Put a text in front of an error. -/
def wrapFailure {α : Type} (label : String) (x : Except Failure α) : Except Failure α :=
  x.mapError (Failure.wrap label)

theorem wrapFailure_ok {α : Type} {label : String} {x : Except Failure α} {a : α}
    (h : wrapFailure label x = .ok a) : x = .ok a := by
  cases x with
  | error e => exact absurd h (by simp [wrapFailure, Except.mapError])
  | ok b => exact h

/-- `Launch`, up to the election. -/
def prepare (m : Machine) (peerName : String) (c : ConfigData) : Except Failure Server := do
  let peer ← wrapFailure ("Could not find the name of this peer: " ++ quoted peerName ++ ": ")
    (findPeer peerName c.peers.elems)
  let control ← wrapFailure "Error while starting control server: "
    (Control.start m.network m.now c peer c.listen.control)
  match m.dnsStart c.listen.dns with
  | some e => .error (.error e)
  | none =>
    let balancers ← createBalancers m.network m.balancerOrder peerName c
    let checks ← wrapFailure "While constructing health check subsystem: "
      (buildHealthChecks m.checkOrder c)
    .ok ⟨control, balancers, checks, peerName⟩

/-- `Server.Launch`, and the configuration it leaves. -/
def launch (m : Machine) (order : RangeOrder String ℤ) (answers : List Answer)
    (peerName : String) (c : Config) : Except Failure Server × Config :=
  match prepare m peerName c.toConfigData with
  | .error e => (.error e, c)
  | .ok server =>
    match holdElection order answers c with
    | (.error e, c') => (.error (e.wrap "Error while holding election: "), c')
    | (.ok _, c') => (.ok server, c')

/-- `Server.monitorReload`: nothing happens before a signal comes.  An error of the shutdown
is logged, and the launch follows all the same. -/
def monitorReload (m : Machine) (order : RangeOrder String ℤ) (answers : List Answer)
    (peerName : String) (c : Config) : Option (Except Failure Server × Config) :=
  if c.reload then some (launch m order answers peerName { c with reload := false }) else none

/-! ## What a launch has done when it comes to the election -/

theorem start_ok {net : Network} {now : ℤ} {c : ConfigData} {me : Option Peer}
    {listenSpec : String} {control : Control}
    (h : Control.start net now c me listenSpec = .ok control) :
    me = some control.me ∧ control.bootTime = now := by
  unfold Control.start at h
  split at h
  · exact absurd h (by simp)
  · split at h
    · exact absurd h (by simp)
    · split at h
      · exact absurd h (by simp)
      · split at h
        · exact absurd h (by simp)
        · rw [← Except.ok.inj h]
          exact ⟨rfl, rfl⟩

/-- The control server is that of the named peer, and its clock has just been set. -/
theorem prepare_ok {m : Machine} {peerName : String} {c : ConfigData} {server : Server}
    (h : prepare m peerName c = .ok server) :
    findPeer peerName c.peers.elems = .ok (some server.control.me) ∧
      server.control.bootTime = m.now := by
  obtain ⟨peer, hfind, h⟩ := bind_ok h
  obtain ⟨control, hstart, h⟩ := bind_ok h
  split at h
  · exact absurd h (by simp)
  · obtain ⟨balancers, -, h⟩ := bind_ok h
    obtain ⟨checks, -, h⟩ := bind_ok h
    obtain rfl := Except.ok.inj h
    obtain ⟨hme, hboot⟩ := start_ok (wrapFailure_ok hstart)
    exact ⟨hme ▸ wrapFailure_ok hfind, hboot⟩

/-- The checks of a server are those of its configuration. -/
theorem prepare_checks {m : Machine} {peerName : String} {c : ConfigData} {server : Server}
    (h : prepare m peerName c = .ok server) :
    buildHealthChecks m.checkOrder c = .ok server.healthChecker := by
  obtain ⟨peer, -, h⟩ := bind_ok h
  obtain ⟨control, -, h⟩ := bind_ok h
  split at h
  · exact absurd h (by simp)
  · obtain ⟨balancers, -, h⟩ := bind_ok h
    obtain ⟨checks, hchecks, h⟩ := bind_ok h
    obtain rfl := Except.ok.inj h
    exact wrapFailure_ok hchecks

/-- A successful update ends with a signal in the reload channel. -/
theorem handleConfigUpdate_reload {β : Type} {lib : Libraries β} {env : Env}
    {newConfig : Option Config} {node node' : Node β}
    (h : (handleConfigUpdate lib env newConfig).run node = .ok () node') :
    node'.config.reload = true := by
  have hreplace : (copyConfig newConfig node.config.chain >>= fun _ => saveConfig lib env).run node
      = .ok () node' := h
  obtain ⟨_, node₁, -, hsave⟩ := run_bind_ok hreplace
  obtain ⟨_, node₂, -, hreload⟩ := run_bind_ok hsave
  have hrun := run_wrapError_ok hreload
  cases hdisk : fromDisk lib env node₂.config node₂.jsonPath (loadJSON lib)
      (node₂.disk node₂.jsonPath) with
  | error e =>
    rw [reload_error hdisk] at hrun
    exact absurd hrun (by simp)
  | ok loaded =>
    rw [reload_ok hdisk] at hrun
    obtain ⟨-, rfl⟩ := EStateM.Result.ok.inj hrun
    rfl

/-! ## The election after a relaunch -/

/-- When the peers booted, seen after a launch: the clock of the node itself starts anew. -/
def rebooted (boot : Peer → ℤ) (server : Server) : Peer → ℤ :=
  Function.update boot server.control.me server.control.bootTime

/-- The answer of a node that was launched is what its `handleUptime` computes. -/
theorem uptime_rebooted (boot : Peer → ℤ) (server : Server) (s : Sample)
    (h : s.peer = server.control.me) :
    s.uptime (rebooted boot server) = server.control.handleUptime s.time := by
  unfold Sample.uptime rebooted Control.handleUptime
  rw [h, Function.update_self]

/-- A relaunch of a node all of whose services start comes down to its election. -/
theorem monitorReload_eq {m : Machine} {peerName : String} {c : Config} {server : Server}
    (hsignal : c.reload = true) (hprepare : prepare m peerName c.toConfigData = .ok server)
    (boot : Peer → ℤ) (order : RangeOrder String ℤ) (samples : List Sample) :
    monitorReload m order (samples.map (Sample.answer boot)) peerName c
      = some (match findPeer (oldestPeer order (recorded boot samples ∅)) c.peers.elems with
        | .error e => (.error (e.wrap "Error while holding election: "), { c with reload := false })
        | .ok p => (.ok server, { c with reload := false, publisher := p })) := by
  rw [monitorReload, if_pos hsignal, launch, hprepare]
  dsimp only
  rw [holdElection, vote_reachable]
  cases findPeer (oldestPeer order (recorded boot samples ∅)) c.peers.elems with
  | error e => rfl
  | ok p => rfl

/-- **An update and the publisher it was sent to.**  A node whose uptime is strictly the
largest is elected.  After it has handled an update that keeps the peers, and all its
services have started again, it is elected once more, whatever the order of the loop,
exactly when it is ahead with its clock started anew: when every other peer has, at the
moment of its answer, an uptime smaller than the time since the relaunch. -/
theorem update_keeps_publisher_iff {β : Type} {lib : Libraries β} {env : Env}
    {newConfig : Option Config} {node node' : Node β}
    (hupdate : (handleConfigUpdate lib env newConfig).run node = .ok () node')
    (hpeers : node'.config.peers = node.config.peers) {m : Machine} {peerName : String}
    {server : Server} (hprepare : prepare m peerName node'.config.toConfigData = .ok server)
    {boot : Peer → ℤ} {before after : List Sample}
    (hbefore : Sampled boot node.config.peers.elems before)
    (hlargest : Ahead boot before peerName)
    (hafter : Sampled (rebooted boot server) node'.config.peers.elems after) :
    (∀ order, (vote order (before.map (Sample.answer boot)) node.config).1
      = .ok (some server.control.me)) ∧
    ((∀ order, ∃ c',
      monitorReload m order (after.map (Sample.answer (rebooted boot server))) peerName node'.config
        = some (.ok server, c') ∧ c'.publisher = some server.control.me) ↔
      Ahead (rebooted boot server) after peerName) := by
  have hsignal := handleConfigUpdate_reload hupdate
  have hfind := (prepare_ok hprepare).1
  have hfind₀ : findPeer peerName node.config.peers.elems = .ok (some server.control.me) :=
    hpeers ▸ hfind
  refine ⟨fun order => by rw [vote_of_ahead hbefore hlargest hfind₀], ?_⟩
  rw [← vote_iff_ahead hafter (hafter.ne_nil hfind)]
  constructor
  · intro h order
    obtain ⟨c', hrun, hpublisher⟩ := h order
    rw [monitorReload_eq hsignal hprepare] at hrun
    cases hfound : findPeer (oldestPeer order (recorded (rebooted boot server) after ∅))
        node'.config.peers.elems with
    | error e =>
      rw [hfound] at hrun
      exact absurd hrun (by simp)
    | ok p =>
      rw [hfound] at hrun
      obtain ⟨-, rfl⟩ := Prod.mk.inj (Option.some.inj hrun)
      obtain rfl : p = some server.control.me := hpublisher
      -- the peer that was found has the name that was looked for, and it has one name
      exact Except.ok.inj ((findPeer_ok hfound).2.symm.trans (findPeer_ok hfind).2)
  · intro h order
    refine ⟨{ node'.config with reload := false, publisher := some server.control.me }, ?_, rfl⟩
    rw [monitorReload_eq hsignal hprepare, h order, hfind]

/-! ## Two peers -/

/-- A machine on which every service starts, at the given time. -/
def machineAt (now : ℤ) : Machine where
  network := ⟨fun _ => none, fun _ => none⟩
  dnsStart _ := none
  now := now
  balancerOrder := sortedOrder String (Option Zone)
  checkOrder := sortedOrder String (Option Zone)

/-- A node of a cluster of two peers. -/
def clusterNode : Node ConfigData where
  config := { twoPeers with authKey := some ⟨[], "auth", "dir"⟩, filenamePrefix := "border" }
  disk _ := none

/-- The peers of that cluster with another shutdown wait. -/
def clusterUpdate : Config := { clusterNode.config with shutdownWait := 5 }

/-- Foo handles the update, and all its services start again. -/
theorem run_cluster_update (now : ℤ) :
    ∃ node' server, (handleConfigUpdate plainLibraries calmEnv (some clusterUpdate)).run clusterNode
        = .ok () node' ∧
      node'.config.peers = clusterNode.config.peers ∧
      prepare (machineAt now) "foo" node'.config.toConfigData = .ok server ∧
      server.control = ⟨peerNamed "foo", now⟩ :=
  ⟨_, _, rfl, rfl, rfl, rfl⟩

/-- When the peers booted, seen after foo has been launched again. -/
theorem rebooted_foo {server : Server} {now : ℤ} (h : server.control = ⟨peerNamed "foo", now⟩) :
    rebooted bootSecondApart server (peerNamed "foo") = now ∧
      rebooted bootSecondApart server (peerNamed "bar") = 1 := by
  have hne : peerNamed "bar" ≠ peerNamed "foo" := by decide
  unfold rebooted
  rw [h]
  exact ⟨Function.update_self .., Function.update_of_ne hne _ _⟩

theorem update_keeps_publisher_cluster :
    ∃ node' server, (handleConfigUpdate plainLibraries calmEnv (some clusterUpdate)).run clusterNode
        = .ok () node' ∧
      ∃ c', monitorReload (machineAt 3) (sortedOrder _ _) ([sampleAt "foo" 7, sampleAt "bar" 4].map
          (Sample.answer (rebooted bootSecondApart server))) "foo" node'.config
        = some (.ok server, c') ∧ c'.publisher = some server.control.me := by
  obtain ⟨node', server, hupdate, hpeers, hprepare, hcontrol⟩ := run_cluster_update 3
  obtain ⟨hfoo, hbar⟩ := rebooted_foo hcontrol
  have hafter : Sampled (rebooted bootSecondApart server) node'.config.peers.elems
      [sampleAt "foo" 7, sampleAt "bar" 4] := by
    rw [hpeers]
    exact sampled_twoPeers (by rw [hfoo]; decide) (by rw [hbar]; decide)
  have hahead : Ahead (rebooted bootSecondApart server) [sampleAt "foo" 7, sampleAt "bar" 4]
      "foo" := ahead_foo (by rw [hfoo, hbar]; decide)
  have hbefore : Sampled bootSecondApart clusterNode.config.peers.elems
      [sampleAt "foo" 2, sampleAt "bar" 2] := sampled_twoPeers (by decide) (by decide)
  exact ⟨node', server, hupdate, (update_keeps_publisher_iff hupdate hpeers hprepare hbefore
    (ahead_foo (by decide)) hafter).2.mpr hahead (sortedOrder _ _)⟩

/-- Foo booted first and is the publisher.  It handles an update and is launched again at
2000; a second later its uptime is 1 and that of bar 2000, and bar is elected. -/
theorem update_deposes_publisher :
    ∃ node' server, (handleConfigUpdate plainLibraries calmEnv (some clusterUpdate)).run clusterNode
        = .ok () node' ∧
      node'.config.peers = clusterNode.config.peers ∧
      prepare (machineAt 2000) "foo" node'.config.toConfigData = .ok server ∧
      bootSecondApart (peerNamed "foo") < bootSecondApart (peerNamed "bar") ∧
      Sampled bootSecondApart clusterNode.config.peers.elems
        [sampleAt "foo" 1000, sampleAt "bar" 1000] ∧
      Ahead bootSecondApart [sampleAt "foo" 1000, sampleAt "bar" 1000] "foo" ∧
      Sampled (rebooted bootSecondApart server) node'.config.peers.elems
        [sampleAt "foo" 2001, sampleAt "bar" 2001] ∧
      ∀ order, ∃ c', monitorReload (machineAt 2000) order
          ([sampleAt "foo" 2001, sampleAt "bar" 2001].map
            (Sample.answer (rebooted bootSecondApart server))) "foo" node'.config
        = some (.ok server, c') ∧ c'.publisher = some (peerNamed "bar") := by
  obtain ⟨node', server, hupdate, hpeers, hprepare, hcontrol⟩ := run_cluster_update 2000
  obtain ⟨hfoo, hbar⟩ := rebooted_foo hcontrol
  have hafter : Sampled (rebooted bootSecondApart server) node'.config.peers.elems
      [sampleAt "foo" 2001, sampleAt "bar" 2001] := by
    rw [hpeers]
    exact sampled_twoPeers (by rw [hfoo]; decide) (by rw [hbar]; decide)
  have hahead : Ahead (rebooted bootSecondApart server) [sampleAt "foo" 2001, sampleAt "bar" 2001]
      "bar" := ahead_bar (by rw [hfoo, hbar]; decide)
  have hfind : findPeer "bar" node'.config.peers.elems = .ok (some (peerNamed "bar")) := by
    rw [hpeers]
    rfl
  refine ⟨node', server, hupdate, hpeers, hprepare, by decide,
    sampled_twoPeers (by decide) (by decide), ahead_foo (by decide), hafter, fun order => ?_⟩
  have hsignal := handleConfigUpdate_reload hupdate
  have holdest := (vote_iff_ahead hafter (by simp) "bar").mpr hahead order
  refine ⟨{ node'.config with reload := false, publisher := some (peerNamed "bar") }, ?_, rfl⟩
  rw [monitorReload_eq hsignal hprepare, holdest, hfind]

end Border
