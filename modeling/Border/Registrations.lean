/-
# Concurrent registrations

Model of several `handlePeerRegister` requests of `pkg/controlserver/client_handlers.go` at
once.  A request takes four steps: it edits the list of peers in memory, saves the
configuration, reads the JSON file back, and copies what it has read over the configuration.
The mutex of the server covers the first step only.

As far as the peers are concerned the requests are parties that write back and read again:
`Registry.board` is what a step sees of memory, file and local variables, and
`registryStep_board` shows that every step is one of `WriteBack.step`.

* `handlePeerRegister_run` : the four steps of a request, one right after the other, are
  `handlePeerRegister`, and `register_alone` that they are then safe;
* `handlePeerRegister_upsert_iff` : what a request on its own does to the list of peers;
* `registrations_kept` : in a run of safe steps every request that has returned is in memory and
  in the JSON file, and a step that is not safe loses one;
* `registrations_lost` : two requests that both succeed, one of which is lost.
-/
import Border.ConfigSync
import Border.Election
import Border.WriteBack

namespace Border

open GoJson Transition WriteBack

/-! ## Requests -/

section Requests

variable {β : Type} {n : ℕ}

/-- A node and the requests under way on it. -/
structure Registry (β : Type) (n : ℕ) where
  node : Node β
  phase : Fin n → Phase Config

/-- Every request is about to start. -/
def Registry.start (node : Node β) : Registry β n := ⟨node, fun _ => .idle⟩

/-- Request `i` gets to a phase and leaves the node behind. -/
def Registry.move (s : Registry β n) (i : Fin n) (node : Node β) (p : Phase Config) :
    Registry β n := ⟨node, Function.update s.phase i p⟩

/-- The end of `Reload`: the publisher and the chain, which no registration touches, stay. -/
def installConfig (newConfig : Config) (node : Node β) : Node β :=
  { node with config := { node.config.copyFrom newConfig with
      publisher := node.config.publisher, chain := node.config.chain, reload := true } }

/-- The next step of a request.  A step that fails ends its request with an error, and is not a
step of a run in which all requests succeed. -/
def registryStep (lib : Libraries β) (requests : Fin n → Peer) (s : Registry β n)
    (a : Fin n × Env) : Option (Registry β n) :=
  match s.phase a.1 with
  | .idle =>
    match (editPeers (some (requests a.1))).run s.node with
    | .ok _ node => some (s.move a.1 node .edited)
    | .error _ _ => none
  | .edited =>
    match (save lib a.2).run s.node with
    | .ok _ node => some (s.move a.1 node .saved)
    | .error _ _ => none
  | .saved =>
    match fromDisk lib a.2 s.node.config s.node.jsonPath (loadJSON lib)
        (s.node.disk s.node.jsonPath) with
    | .ok newConfig => some (s.move a.1 s.node (.loaded newConfig))
    | .error _ => none
  | .loaded newConfig => some (s.move a.1 (installConfig newConfig s.node) .done)
  | .done => none

/-- The steps that succeed. -/
inductive RegistryMove (lib : Libraries β) (requests : Fin n → Peer) (s : Registry β n)
    (a : Fin n × Env) : Registry β n → Prop
  | edit {node : Node β} (hphase : s.phase a.1 = .idle)
      (hedit : (editPeers (some (requests a.1))).run s.node = .ok () node) :
      RegistryMove lib requests s a (s.move a.1 node .edited)
  | save {node : Node β} (hphase : s.phase a.1 = .edited)
      (hsave : (Border.save lib a.2).run s.node = .ok () node) :
      RegistryMove lib requests s a (s.move a.1 node .saved)
  | load {newConfig : Config} (hphase : s.phase a.1 = .saved)
      (hload : fromDisk lib a.2 s.node.config s.node.jsonPath (loadJSON lib)
        (s.node.disk s.node.jsonPath) = .ok newConfig) :
      RegistryMove lib requests s a (s.move a.1 s.node (.loaded newConfig))
  | install {newConfig : Config} (hphase : s.phase a.1 = .loaded newConfig) :
      RegistryMove lib requests s a (s.move a.1 (installConfig newConfig s.node) .done)

theorem registryStep_move {lib : Libraries β} {requests : Fin n → Peer} {s s' : Registry β n}
    {a : Fin n × Env} (h : registryStep lib requests s a = some s') :
    RegistryMove lib requests s a s' := by
  unfold registryStep at h
  split at h
  next hphase =>
    split at h
    next node hedit =>
      obtain rfl := Option.some.inj h
      exact .edit hphase hedit
    · cases h
  next hphase =>
    split at h
    next node hsave =>
      obtain rfl := Option.some.inj h
      exact .save hphase hsave
    · cases h
  next hphase =>
    split at h
    next newConfig hload =>
      obtain rfl := Option.some.inj h
      exact .load hphase hload
    · cases h
  next newConfig hphase =>
    obtain rfl := Option.some.inj h
    exact .install hphase
  · cases h

/-- The inversion of a successful `Reload`. -/
theorem reload_install {lib : Libraries β} {env : Env} {node node' : Node β}
    (h : (reload lib env).run node = .ok () node') :
    ∃ newConfig, fromDisk lib env node.config node.jsonPath (loadJSON lib)
        (node.disk node.jsonPath) = .ok newConfig ∧ node' = installConfig newConfig node := by
  cases hload : fromDisk lib env node.config node.jsonPath (loadJSON lib)
      (node.disk node.jsonPath) with
  | error e =>
    rw [reload_error hload] at h
    exact absurd h (by simp)
  | ok newConfig =>
    rw [reload_ok hload] at h
    exact ⟨newConfig, rfl, (EStateM.Result.ok.inj h).2.symm⟩

/-- **A request alone.**  The four steps of a request, one right after the other, are
`handlePeerRegister`. -/
theorem handlePeerRegister_run {lib : Libraries β} {env : Env} {requests : Fin n → Peer}
    {s : Registry β n} {i : Fin n} (hidle : s.phase i = .idle) {node' : Node β}
    (h : (handlePeerRegister lib env (some (requests i))).run s.node = .ok () node') :
    ∃ s', run (registryStep lib requests) s (List.replicate 4 (i, env)) = some s' ∧
      s'.node = node' ∧ s'.phase i = .done := by
  obtain ⟨_, node₁, hedit, hrest⟩ := run_bind_ok h
  obtain ⟨_, node₂, hsave, hreload⟩ := run_bind_ok hrest
  have hsave := run_wrapError_ok hsave
  obtain ⟨newConfig, hload, rfl⟩ := reload_install (run_wrapError_ok hreload)
  refine ⟨(((s.move i node₁ .edited).move i node₂ .saved).move i node₂ (.loaded newConfig)).move i
    (installConfig newConfig node₂) .done, ?_, rfl, Function.update_self ..⟩
  simp [List.replicate, run_cons, registryStep, hidle, hedit, hsave, hload, Registry.move]

end Requests

/-! ## The list of peers in memory and in the file -/

/-- The edit of `handlePeerRegister`, when no peer is without a key. -/
theorem registerPeer_ok {peer : Option Peer} {peers peers' : List (Option Peer)}
    (h : registerPeer peer peers = .ok peers') :
    peers' = peers.map fun p => if Peer.name p = Peer.name peer then peer else p := by
  induction peers generalizing peers' with
  | nil => exact (Except.ok.inj h).symm
  | cons p peers ih =>
    obtain ⟨name, hname, h⟩ := bind_ok h
    obtain ⟨newName, hnewName, h⟩ := bind_ok h
    obtain ⟨rest, hrest, h⟩ := bind_ok h
    have hiff : name = newName ↔ Peer.name p = Peer.name peer := by
      rw [hname, hnewName]
      exact ⟨congrArg _, Except.ok.inj⟩
    rw [← Except.ok.inj h, List.map_cons, ih hrest]
    simp only [hiff]

/-- The entry of a peer once `peer` has been registered. -/
def renew (peer : Peer) (p : Option Peer) : Option Peer :=
  if Peer.name p = Peer.name peer then peer else p

/-- The inversion of the edit. -/
theorem editPeers_ok {β : Type} {peer : Peer} {node node' : Node β}
    (h : (editPeers (some peer)).run node = .ok () node') :
    node' = { node with config := { node.config with
      peers := some (node.config.peers.elems.map (renew peer)) } } := by
  cases hpeers : registerPeer (some peer) node.config.peers.elems with
  | error e => simp [EStateM.run, editPeers, hpeers] at h
  | ok peers =>
    simp only [EStateM.run, editPeers, hpeers, EStateM.Result.ok.injEq, true_and] at h
    rw [← h, registerPeer_ok hpeers]
    rfl

section Peers

variable {peer q : Option Peer} {peers peers' : List (Option Peer)}

/-- A peer that is configured is registered. -/
theorem mem_registerPeer (h : registerPeer peer peers = .ok peers') (hq : q ∈ peers)
    (hname : Peer.name q = Peer.name peer) : peer ∈ peers' := by
  rw [registerPeer_ok h, List.mem_map]
  exact ⟨q, hq, if_pos hname⟩

/-- The peers of other names stay. -/
theorem mem_registerPeer_of_ne (h : registerPeer peer peers = .ok peers') (hq : q ∈ peers)
    (hname : Peer.name q ≠ Peer.name peer) : q ∈ peers' := by
  rw [registerPeer_ok h, List.mem_map]
  exact ⟨q, hq, if_neg hname⟩

end Peers

/-! ## Staying within a class -/

section Within

variable {β : Type} {lib : Libraries β} {D : Domain} {env : Env} {node node' : Node β}

/-- The JSON file has a configuration of the class. -/
def FileIn (lib : Libraries β) (D : Domain) (node : Node β) : Prop :=
  ∃ document d, node.disk node.jsonPath = some (.doc document) ∧
    lib.decodeJSON document = .ok d ∧ d.In D

/-- A save leaves a configuration of the class in memory and in the file. -/
theorem in_save (hlib : RoundTrips lib D) (hin : node.config.toConfigData.In D)
    (h : (save lib env).run node = .ok () node') :
    node'.config.toConfigData.In D ∧ FileIn lib D node' := by
  obtain ⟨json, yaml, hstage, hreached⟩ := save_ok h
  obtain ⟨htrim, hencode⟩ := saveStage_ok hstage
  obtain ⟨htrim', -⟩ := saveStage_yaml_ok hstage
  obtain ⟨data, hdecode, hagrees⟩ := hlib _ _ (hin.trim htrim) hencode
  have hpath : node'.jsonPath = node.jsonPath := by
    rw [Node.jsonPath, hreached.config, Node.jsonPath]
  refine ⟨?_, json, data, ?_, hdecode, (hin.trim htrim).of_agrees hagrees⟩
  · rw [hreached.config]
    exact (hin.trim htrim).trim htrim'
  · rw [hpath]
    exact hreached.json

/-- What is loaded from such a file is in the class. -/
theorem FileIn.load (h : FileIn lib D node) {c loaded : Config} {filename : String}
    (hload : fromDisk lib env c filename (loadJSON lib) (node.disk node.jsonPath) = .ok loaded) :
    loaded.toConfigData.In D := by
  obtain ⟨document, d, hfile, hdecode, hd⟩ := h
  rw [hfile] at hload
  exact in_fromDisk_json hdecode hd hload

/-- An edit of the list of peers does not lead out of the class. -/
theorem in_editPeers {peer : Peer} (hpeer : D.peer peer) (hin : node.config.toConfigData.In D)
    (h : (editPeers (some peer)).run node = .ok () node') : node'.config.toConfigData.In D := by
  rw [editPeers_ok h]
  refine hin.withPeers fun p hp => ?_
  obtain ⟨q, hq, heq⟩ := List.mem_map.mp hp
  unfold renew at heq
  split_ifs at heq
  · obtain rfl := Option.some.inj heq
    exact hpeer
  · rw [heq] at hq
    exact hin.peers p hq

/-- What the requests under way hold is in the class: memory, the copies that were read, and the
file once a request waits to read it. -/
structure Registry.In {n : ℕ} (lib : Libraries β) (D : Domain) (s : Registry β n) : Prop where
  memory : s.node.config.toConfigData.In D
  file : ∀ i, s.phase i = .saved → FileIn lib D s.node
  loaded : ∀ i c, s.phase i = .loaded c → c.toConfigData.In D

theorem registry_in_start {n : ℕ} (hin : node.config.toConfigData.In D) :
    (Registry.start node : Registry β n).In lib D :=
  ⟨hin, (fun _ h => by cases h), fun _ _ h => by cases h⟩

/-- A request that gets to a phase in which it holds no copy and waits for no file. -/
theorem Registry.In.move {n : ℕ} {s : Registry β n} (hs : s.In lib D) {i : Fin n}
    {p : Phase Config} (hmemory : node'.config.toConfigData.In D)
    (hfile : FileIn lib D s.node → FileIn lib D node') (hsaved : p = .saved → FileIn lib D node')
    (hloaded : ∀ c, p = .loaded c → c.toConfigData.In D) : (s.move i node' p).In lib D := by
  have hphase : ∀ j, j ≠ i → (s.move i node' p).phase j = s.phase j := by
    intro j hj
    simp [Registry.move, hj]
  have hself : (s.move i node' p).phase i = p := by simp [Registry.move]
  refine ⟨hmemory, fun j hj => ?_, fun j c hj => ?_⟩
  · by_cases hji : j = i
    · rw [hji, hself] at hj
      exact hsaved hj
    · rw [hphase j hji] at hj
      exact hfile (hs.file j hj)
  · by_cases hji : j = i
    · rw [hji, hself] at hj
      exact hloaded c hj
    · rw [hphase j hji] at hj
      exact hs.loaded j c hj

/-- **No step leads out of the class.** -/
theorem Registry.In.step {n : ℕ} (hlib : RoundTrips lib D) {requests : Fin n → Peer}
    (hpeers : ∀ i, D.peer (requests i)) {s s' : Registry β n} (hs : s.In lib D) {a : Fin n × Env}
    (h : registryStep lib requests s a = some s') : s'.In lib D := by
  cases registryStep_move h with
  | edit hphase hedit =>
    have hmemory := in_editPeers (hpeers a.1) hs.memory hedit
    obtain rfl := editPeers_ok hedit
    exact hs.move hmemory id (fun h => by cases h) (fun _ h => by cases h)
  | save hphase hsave =>
    obtain ⟨hmemory, hfile⟩ := in_save hlib hs.memory hsave
    exact hs.move hmemory (fun _ => hfile) (fun _ => hfile) (fun _ h => by cases h)
  | load hphase hload =>
    refine hs.move hs.memory id (fun h => by cases h) (fun c hc => ?_)
    cases hc
    exact (hs.file a.1 hphase).load hload
  | @install newConfig hphase =>
    exact hs.move (hs.loaded a.1 newConfig hphase) id (fun h => by cases h) (fun _ h => by cases h)

end Within

section Board

variable {β : Type} {n : ℕ} (lib : Libraries β)

/-- The peers of the JSON file. -/
def savedPeers (node : Node β) : Option (List (Option Peer)) :=
  match node.disk node.jsonPath with
  | some (.doc document) => (lib.decodeJSON document).toOption.map fun data => data.peers.elems
  | _ => none

/-- What a step sees of the peers. -/
def Registry.board (s : Registry β n) : Board (Fin n) (List (Option Peer)) where
  memory := s.node.config.peers.elems
  file := savedPeers lib s.node
  phase i := (s.phase i).map fun c => c.peers.elems

theorem board_move (s : Registry β n) (i : Fin n) (node : Node β) (p : Phase Config) :
    (s.move i node p).board lib =
      { (s.board lib).move i (p.map fun c => c.peers.elems) with
        memory := node.config.peers.elems, file := savedPeers lib node } := by
  have hphase := Function.comp_update (Phase.map fun c : Config => c.peers.elems) s.phase i p
  exact congrArg (Board.mk node.config.peers.elems (savedPeers lib node)) hphase

variable {lib} {D : Domain}

/-- After a save the file has the peers of the configuration, which stay as they are. -/
theorem savedPeers_save (hlib : RoundTrips lib D) {env : Env} {node node' : Node β}
    (hin : node.config.toConfigData.In D) (h : (save lib env).run node = .ok () node') :
    node'.config.peers = node.config.peers ∧
      savedPeers lib node' = some node.config.peers.elems := by
  obtain ⟨json, yaml, hstage, hreached⟩ := save_ok h
  obtain ⟨htrim, hencode⟩ := saveStage_ok hstage
  obtain ⟨data, hdecode, hagrees⟩ := hlib _ _ (hin.trim htrim) hencode
  have hpeers : data.peers = node.config.peers := hagrees.peers
  have hpath : node'.jsonPath = node.jsonPath := by
    rw [Node.jsonPath, hreached.config, Node.jsonPath]
  have hfile : node'.disk node'.jsonPath = some (.doc json) := by
    rw [hpath, hreached.json]
    rfl
  constructor
  · rw [hreached.config]
    rfl
  · unfold savedPeers
    rw [hfile, ← hpeers]
    simp only [hdecode]
    rfl

/-- What is loaded are the peers of the file. -/
theorem savedPeers_load {env : Env} {node : Node β} {newConfig : Config}
    (h : fromDisk lib env node.config node.jsonPath (loadJSON lib) (node.disk node.jsonPath)
      = .ok newConfig) : savedPeers lib node = some newConfig.peers.elems := by
  obtain ⟨document, -, hfile, -, -⟩ := fromDisk_ok h
  rw [hfile] at h
  obtain ⟨data, converted, hdecode, -, -, hloaded⟩ := fromDisk_json_ok h
  have hpeers : newConfig.peers = data.peers := by rw [hloaded]
  unfold savedPeers
  rw [hfile, hpeers]
  simp only [hdecode]
  rfl

/-- The edits of the list of peers. -/
def registration (requests : Fin n → Peer) (i : Fin n) (peers : List (Option Peer)) :
    Option (List (Option Peer)) :=
  (registerPeer (some (requests i)) peers).toOption

/-- **Refinement.**  As to the peers, a step of a request is a step of a party that writes back
and reads again. -/
theorem registryStep_board (hlib : RoundTrips lib D) {requests : Fin n → Peer}
    {s s' : Registry β n} (hs : s.In lib D) {a : Fin n × Env}
    (h : registryStep lib requests s a = some s') :
    WriteBack.step (registration requests) (s.board lib) a.1 = some (s'.board lib) := by
  have hboard : (s.board lib).phase a.1 = (s.phase a.1).map fun c => c.peers.elems := rfl
  unfold WriteBack.step
  rw [hboard]
  cases registryStep_move h with
  | edit hphase hedit =>
    -- a peer without a key makes the edit panic, which is no step
    cases hpeers : registerPeer (some (requests a.1)) s.node.config.peers.elems with
    | error e => simp [EStateM.run, editPeers, hpeers] at hedit
    | ok peers =>
      simp only [EStateM.run, editPeers, hpeers, EStateM.Result.ok.injEq, true_and] at hedit
      rw [← hedit, board_move, hphase]
      show Option.map _ (registerPeer _ s.node.config.peers.elems).toOption = _
      rw [hpeers]
      rfl
  | save hphase hsave =>
    obtain ⟨hpeers, hfile⟩ := savedPeers_save hlib hs.memory hsave
    rw [board_move, hpeers, hfile, hphase]
    rfl
  | load hphase hload =>
    have hfile : (s.board lib).file = some _ := savedPeers_load hload
    rw [board_move, hfile, hphase]
    rfl
  | install hphase =>
    rw [board_move, hphase]
    rfl

end Board

/-! ## A registration as an update -/

section Upsert

variable {peer : Peer} {name : String} {peers peers' : List (Option Peer)}

/-- What a registration of a peer is for: the peer is found under its name, no other one has
the name, and the peers of other names are those from before, in their order. -/
structure Upserted (peer : Peer) (name : String) (peers peers' : List (Option Peer)) : Prop where
  found : findPeer name peers' = .ok (some peer)
  once : (peers'.map Peer.name).count (.ok name) = 1
  rest : peers'.filter (fun p => Peer.name p ≠ .ok name)
    = peers.filter (fun p => Peer.name p ≠ .ok name)

/-- A registration changes no name. -/
theorem map_name_registerPeer (h : registerPeer (some peer) peers = .ok peers') :
    peers'.map Peer.name = peers.map Peer.name := by
  rw [registerPeer_ok h, List.map_map]
  apply List.map_congr_left
  intro p _
  show Peer.name (if Peer.name p = Peer.name (some peer) then some peer else p) = Peer.name p
  split_ifs with hname
  · exact hname.symm
  · rfl

theorem DistinctNames.registerPeer (hd : DistinctNames peers)
    (h : registerPeer (some peer) peers = .ok peers') : DistinctNames peers' := by
  have hnames := map_name_registerPeer h
  refine ⟨fun p hp => ?_, hnames ▸ hd.nodup⟩
  have hmem : Peer.name p ∈ peers.map Peer.name := hnames ▸ List.mem_map_of_mem hp
  obtain ⟨q, hq, hname⟩ := List.mem_map.mp hmem
  obtain ⟨qname, hqname⟩ := hd.named q hq
  exact ⟨qname, hname ▸ hqname⟩

/-- The peers of other names are those from before. -/
theorem filter_registerPeer (hname : Peer.name (some peer) = .ok name)
    (h : registerPeer (some peer) peers = .ok peers') :
    peers'.filter (fun p => Peer.name p ≠ .ok name)
      = peers.filter (fun p => Peer.name p ≠ .ok name) := by
  rw [registerPeer_ok h, hname, List.filter_map]
  have hkept : peers.filter ((fun p => decide (Peer.name p ≠ .ok name)) ∘ fun p =>
        if Peer.name p = .ok name then some peer else p)
      = peers.filter (fun p => Peer.name p ≠ .ok name) := by
    apply List.filter_congr
    intro p _
    rw [Function.comp_apply]
    by_cases hp : Peer.name p = .ok name
    · rw [if_pos hp, hname, hp]
    · rw [if_neg hp]
  rw [hkept]
  refine (List.map_congr_left fun p hp => ?_).trans (List.map_id _)
  exact if_neg (of_decide_eq_true (List.mem_filter.mp hp).2)

/-- **The list is updated exactly when it has the name.** -/
theorem upserted_iff (hd : DistinctNames peers) (hname : Peer.name (some peer) = .ok name)
    (h : registerPeer (some peer) peers = .ok peers') :
    Upserted peer name peers peers' ↔ ∃ q ∈ peers, Peer.name q = .ok name := by
  have hnames := map_name_registerPeer h
  have hd' := hd.registerPeer h
  constructor
  · intro hup
    have hmem : Except.ok name ∈ peers'.map Peer.name :=
      List.mem_map.mpr ⟨some peer, (findPeer_ok hup.found).1, hname⟩
    rw [hnames] at hmem
    exact List.mem_map.mp hmem
  · rintro ⟨q, hq, hqname⟩
    have hmem : some peer ∈ peers' := mem_registerPeer h hq (hqname.trans hname.symm)
    refine ⟨?_, ?_, filter_registerPeer hname h⟩
    · obtain ⟨p, hp⟩ := findPeer_of_mem hd'.named hmem hname
      rw [hp, hd'.inj (findPeer_ok hp).1 hmem ((findPeer_ok hp).2.trans hname.symm)]
    · exact List.count_eq_one_of_mem hd'.nodup (List.mem_map.mpr ⟨some peer, hmem, hname⟩)

/-- The list of peers that a request leaves: saving and reloading change nothing about it. -/
theorem handlePeerRegister_peers {β : Type} {lib : Libraries β} {D : Domain}
    (hlib : RoundTrips lib D) {env : Env} {node node' : Node β}
    (hin : node.config.toConfigData.In D) (hpeer : D.peer peer)
    (h : (handlePeerRegister lib env (some peer)).run node = .ok () node') :
    registerPeer (some peer) node.config.peers.elems = .ok node'.config.peers.elems := by
  obtain ⟨_, node₁, hedit, hrest⟩ := run_bind_ok h
  obtain ⟨_, node₂, hsave, hreload⟩ := run_bind_ok hrest
  obtain ⟨loaded, hload, rfl⟩ := reload_install (run_wrapError_ok hreload)
  obtain ⟨-, hfile⟩ := savedPeers_save hlib (in_editPeers hpeer hin hedit) (run_wrapError_ok hsave)
  have hloaded : node₁.config.peers.elems = loaded.peers.elems :=
    Option.some.inj (hfile.symm.trans (savedPeers_load hload))
  show _ = Except.ok loaded.peers.elems
  rw [← hloaded]
  cases hpeers : registerPeer (some peer) node.config.peers.elems with
  | error e => simp [EStateM.run, editPeers, hpeers] at hedit
  | ok peers =>
    simp only [EStateM.run, editPeers, hpeers, EStateM.Result.ok.injEq, true_and] at hedit
    rw [← hedit]
    rfl

/-- **When a registration is an update or an addition.**  A request that succeeds, on a node
whose peers have names of their own, leaves the peer found under its name, alone of that
name, and the others unchanged exactly when the name was listed before.  The configuration and the
peer are in a class that `encoding/json` reads back. -/
theorem handlePeerRegister_upsert_iff {β : Type} {lib : Libraries β} {D : Domain}
    (hlib : RoundTrips lib D) {env : Env} {node node' : Node β}
    (hin : node.config.toConfigData.In D) (hpeer : D.peer peer)
    (hd : DistinctNames node.config.peers.elems)
    (hname : Peer.name (some peer) = .ok name)
    (h : (handlePeerRegister lib env (some peer)).run node = .ok () node') :
    Upserted peer name node.config.peers.elems node'.config.peers.elems ↔
      ∃ q ∈ node.config.peers.elems, Peer.name q = .ok name :=
  upserted_iff hd hname (handlePeerRegister_peers hlib hin hpeer h)

end Upsert

/-! ## Runs of several requests -/

section Runs

variable {β : Type} {n : ℕ} {lib : Libraries β} {D : Domain} {requests : Fin n → Peer}

/-- The list has the new data of request `i`. -/
def Registered (requests : Fin n → Peer) (i : Fin n) (peers : List (Option Peer)) : Prop :=
  some (requests i) ∈ peers

instance (i : Fin n) (peers : List (Option Peer)) : Decidable (Registered requests i peers) :=
  inferInstanceAs (Decidable (some (requests i) ∈ peers))

/-- The next step of a request loses no registration: a configuration that is saved has the data
of the request itself and of every request that has saved, and one that is copied over memory
has that of every request that has returned. -/
def SafeRegistration (lib : Libraries β) (requests : Fin n → Peer) (s : Registry β n)
    (a : Fin n × Env) : Prop :=
  Safe (Registered requests) (s.board lib) a.1

instance (s : Registry β n) (a : Fin n × Env) : Decidable (SafeRegistration lib requests s a) :=
  inferInstanceAs (Decidable (Safe (Registered requests) (s.board lib) a.1))

theorem registration_eq_some {i : Fin n} {peers peers' : List (Option Peer)}
    (h : registration requests i peers = some peers') :
    registerPeer (some (requests i)) peers = .ok peers' := by
  unfold registration at h
  cases hpeers : registerPeer (some (requests i)) peers with
  | error e =>
    rw [hpeers] at h
    exact absurd h (by simp [Except.toOption])
  | ok peers'' =>
    rw [hpeers] at h
    rw [Option.some.inj h]

/-- A registration keeps those of peers with other names. -/
theorem registered_registration (hnames : Function.Injective fun i => Peer.name (requests i))
    (i : Fin n) (peers peers' : List (Option Peer))
    (h : registration requests i peers = some peers') (j : Fin n) (hj : j ≠ i)
    (hmem : Registered requests j peers) : Registered requests j peers' :=
  mem_registerPeer_of_ne (registration_eq_some h) hmem fun hname => hj (hnames hname)

/-- **A request alone loses nothing.**  When every request that has saved has returned, the four
steps of a request for a configured peer, in a row, are safe. -/
theorem register_alone (hlib : RoundTrips lib D) (hpeers : ∀ i, D.peer (requests i))
    (hnames : Function.Injective fun i => Peer.name (requests i)) {s : Registry β n}
    (hin : s.In lib D) (hs : Sound (Registered requests) (s.board lib)) {i : Fin n}
    (hidle : s.phase i = .idle)
    (hothers : ∀ j, (s.phase j).HasSaved → s.phase j = .done)
    (hconfigured : ∃ q ∈ s.node.config.peers.elems, Peer.name q = Peer.name (requests i))
    (env : Env) :
    Along (registryStep lib requests) (SafeRegistration lib requests) s
      (List.replicate 4 (i, env)) := by
  obtain ⟨q, hq, hname⟩ := hconfigured
  refine along_project (f := Registry.board lib) (g := Prod.fst)
    (fun _ _ _ ht h => ht.step hlib hpeers h) (fun _ _ _ ht h => registryStep_board hlib ht h)
    hin ?_
  refine along_four_steps (registered_registration hnames) hs ?_ (fun j hj => ?_) fun peers h => ?_
  · show (s.phase i).map _ = _
    rw [hidle]
    rfl
  · exact Phase.map_eq_done.mpr (hothers j (Phase.hasSaved_map.mp hj))
  · exact mem_registerPeer (registration_eq_some h) hq hname

/-- **Concurrent registrations.**  Take requests for peers with names of their own, and a run of
their steps in any order.  The configuration and the peers are in a class that `encoding/json`
reads back.  If every step is safe, the data of every request that has returned is
in memory and in the JSON file.  A step that is not safe loses the data of a request: the file
has not that of one that has saved, or memory not that of one that has returned. -/
theorem registrations_kept (hlib : RoundTrips lib D) (hpeers : ∀ i, D.peer (requests i))
    (hnames : Function.Injective fun i => Peer.name (requests i)) {node : Node β}
    (hin : node.config.toConfigData.In D) {as : List (Fin n × Env)} {s : Registry β n}
    (hrun : run (registryStep lib requests) (.start node) as = some s)
    (hsafe : Along (registryStep lib requests) (SafeRegistration lib requests) (.start node) as) :
    (∀ i, s.phase i = .done → some (requests i) ∈ s.node.config.peers.elems ∧
      ∃ peers, savedPeers lib s.node = some peers ∧ some (requests i) ∈ peers) ∧
    ∀ a s', registryStep lib requests s a = some s' → ¬ SafeRegistration lib requests s a →
      ∃ i, (s'.phase i).HasSaved ∧
          (¬ ∃ peers, savedPeers lib s'.node = some peers ∧ some (requests i) ∈ peers) ∨
        s'.phase i = .done ∧ some (requests i) ∉ s'.node.config.peers.elems := by
  have hwithin : s.In lib D ∧ Sound (Registered requests) (s.board lib) := by
    refine run_invariant_along
      (P := fun s => s.In lib D ∧ Sound (Registered requests) (s.board lib))
      (fun t a t' ht hGt hstep => ⟨ht.1.step hlib hpeers hstep, ?_⟩)
      ⟨registry_in_start hin, sound_idle _ fun _ => rfl⟩ hsafe hrun
    exact ht.2.step (registered_registration hnames) hGt (registryStep_board hlib ht.1 hstep)
  obtain ⟨hclass, hsound⟩ := hwithin
  refine ⟨fun i hdone => ?_, fun a s' hstep hnot => ?_⟩
  · have hphase : (s.board lib).phase i = .done := Phase.map_eq_done.mpr hdone
    exact ⟨hsound.memory i hphase, hsound.file i (by rw [hphase]; trivial)⟩
  · have hlost := not_kept_of_not_safe hnot (registryStep_board hlib hclass hstep)
    by_contra hnone
    refine hlost ⟨fun i hi => ?_, fun i hi => ?_⟩
    · by_contra hfile
      exact hnone ⟨i, Or.inl ⟨Phase.hasSaved_map.mp hi, hfile⟩⟩
    · by_contra hmemory
      exact hnone ⟨i, Or.inr ⟨Phase.map_eq_done.mp hi, hmemory⟩⟩

end Runs

/-! ## Two requests -/

/-- A node with the peers foo and bar, before its first save. -/
def registryNode : Node ConfigData where
  config := { twoPeers with filenamePrefix := "border" }
  disk _ := none

/-- Foo and bar register with new addresses. -/
def newAddresses : Fin 2 → Peer
  | 0 => { peerNamed "foo" with controlServer := "10.0.0.1:5309" }
  | 1 => { peerNamed "bar" with controlServer := "10.0.0.2:5309" }

/-- Foo's request on its own. -/
theorem handlePeerRegister_upsert_foo :
    ∃ node', (handlePeerRegister plainLibraries calmEnv (some (newAddresses 0))).run registryNode
        = .ok () node' ∧
      findPeer "foo" node'.config.peers.elems = .ok (some (newAddresses 0)) := by
  have heval : runOkWith (fun _ => true) ((handlePeerRegister plainLibraries calmEnv
      (some (newAddresses 0))).run registryNode) = true := by decide +kernel
  obtain ⟨_, node', hrun, -⟩ := runOkWith_eq_true heval
  exact ⟨node', hrun, ((handlePeerRegister_upsert_iff roundTrips_plainLibraries
    (ConfigData.in_all _) trivial distinctNames_twoPeers rfl hrun).mpr
      ⟨some (peerNamed "foo"), by decide, rfl⟩).found⟩

/-- **A new peer is not added.**  The request for a peer that is not listed succeeds, and the
peer is not found afterwards. -/
theorem handlePeerRegister_unlisted :
    DistinctNames registryNode.config.peers.elems ∧
    ∃ node', (handlePeerRegister plainLibraries calmEnv (some (peerNamed "baz"))).run registryNode
        = .ok () node' ∧
      findPeer "baz" node'.config.peers.elems = .error errPeerNotFound ∧
      ¬ Upserted (peerNamed "baz") "baz" registryNode.config.peers.elems
        node'.config.peers.elems := by
  have heval : runOkWith
      (fun node' => decide (findPeer "baz" node'.config.peers.elems = .error errPeerNotFound))
      ((handlePeerRegister plainLibraries calmEnv (some (peerNamed "baz"))).run registryNode)
        = true := by decide +kernel
  obtain ⟨_, node', hrun, htest⟩ := runOkWith_eq_true heval
  have hnone := of_decide_eq_true htest
  refine ⟨distinctNames_twoPeers, node', hrun, hnone, fun hup => ?_⟩
  exact absurd (hup.found.symm.trans hnone) (by simp)

theorem newAddresses_names : Function.Injective fun i => Peer.name (newAddresses i) := by
  decide +kernel

/-- The two requests take their steps in turn: both are in memory and in the file at the end. -/
theorem registrations_kept_inTurn :
    ∃ s, run (registryStep plainLibraries newAddresses) (.start registryNode)
        [(0, calmEnv), (1, calmEnv), (0, calmEnv), (1, calmEnv), (0, calmEnv), (1, calmEnv),
          (0, calmEnv), (1, calmEnv)] = some s ∧
      ∀ i, s.phase i = .done ∧ some (newAddresses i) ∈ s.node.config.peers.elems ∧
        ∃ peers, savedPeers plainLibraries s.node = some peers ∧
          some (newAddresses i) ∈ peers := by
  have hany : (run (registryStep plainLibraries newAddresses) (.start registryNode)
        [(0, calmEnv), (1, calmEnv), (0, calmEnv), (1, calmEnv), (0, calmEnv), (1, calmEnv),
          (0, calmEnv), (1, calmEnv)]).any (fun s =>
      ∀ i, (s.phase i).map (fun _ => ()) = .done) = true := by decide +kernel
  obtain ⟨s, hrun, hs⟩ := Option.any_eq_true _ _ |>.mp hany
  have hdone : ∀ i, s.phase i = .done := fun i => Phase.map_eq_done.mp (of_decide_eq_true hs i)
  obtain ⟨hkept, -⟩ := registrations_kept roundTrips_plainLibraries (fun _ => trivial)
    newAddresses_names (ConfigData.in_all _) hrun (by decide +kernel)
  exact ⟨s, hrun, fun i => ⟨hdone i, hkept i (hdone i)⟩⟩

/-- **A registration is lost.**  Foo's request edits, saves and reads the file; bar's request
edits; foo's copies what it has read, in which bar is the old one; bar's request saves that,
reads it and copies it.  Both requests succeed, and bar is the old one in memory and in the
file. -/
theorem registrations_lost :
    RoundTrips plainLibraries Domain.all ∧ (Function.Injective fun i => Peer.name (newAddresses i)) ∧
    (∀ i, ∃ q ∈ registryNode.config.peers.elems, Peer.name q = Peer.name (newAddresses i)) ∧
    ∃ s, run (registryStep plainLibraries newAddresses) (.start registryNode)
        [(0, calmEnv), (0, calmEnv), (0, calmEnv), (1, calmEnv), (0, calmEnv), (1, calmEnv),
          (1, calmEnv), (1, calmEnv)] = some s ∧
      (∀ i, s.phase i = .done) ∧
      s.node.config.peers.elems = [some (newAddresses 0), some (peerNamed "bar")] ∧
      savedPeers plainLibraries s.node = some [some (newAddresses 0), some (peerNamed "bar")] ∧
      some (newAddresses 1) ∉ [some (newAddresses 0), some (peerNamed "bar")] := by
  have hany : (run (registryStep plainLibraries newAddresses) (.start registryNode)
        [(0, calmEnv), (0, calmEnv), (0, calmEnv), (1, calmEnv), (0, calmEnv), (1, calmEnv),
          (1, calmEnv), (1, calmEnv)]).any (fun s =>
      (∀ i, (s.phase i).map (fun _ => ()) = .done) ∧
      s.node.config.peers.elems = [some (newAddresses 0), some (peerNamed "bar")] ∧
      savedPeers plainLibraries s.node = some [some (newAddresses 0), some (peerNamed "bar")])
      = true := by decide +kernel
  obtain ⟨s, hrun, hs⟩ := Option.any_eq_true _ _ |>.mp hany
  obtain ⟨hdone, hmemory, hfile⟩ := of_decide_eq_true hs
  exact ⟨roundTrips_plainLibraries, newAddresses_names, by decide +kernel, s, hrun,
    fun i => Phase.map_eq_done.mp (hdone i), hmemory, hfile, by decide +kernel⟩

end Border
