/-
# The chain of a running node

`serve` starts a node with an empty chain, loads the configuration and saves it; after
that the handlers change it.  `LoadJSON` appends the sum of what it reads to a chain of
its own, and `FromDisk`, `CopyFrom` and `Reload` all keep the old chain, so that the
chain which `handleConfigChain` hands out stays empty.

`operation_detected_iff` draws the conclusion for the subscribers, who compare chains:
an operation that changes the JSON file on disk is never visible to them.
-/
import Border.ConfigUpdate
import Border.Transition

namespace Border

open GoMap Transition

variable {β : Type}

/-! ## Starting and running a node -/

/-- The first load of `serve`. -/
def loadConfig (lib : Libraries β) (env : Env) (path : String) : Prog β Unit := fun node =>
  match fromDisk lib env node.config path (loadYAML lib) (node.disk path) with
  | .error e => .error e node
  | .ok c => .ok () { node with config := c }

/-- Take the signal out of the reload channel. -/
def drainReload : Prog β Unit := fun node =>
  .ok () { node with config := { node.config with reload := false } }

/-- `serve`, up to the launch of the services. -/
def serve (lib : Libraries β) (loadEnv env : Env) (path : String) : Prog β Unit := do
  loadConfig lib loadEnv path
  save lib env
  reload lib env
  drainReload

/-- The node `serve` begins with. -/
def Node.initial (disk : String → Option (File β)) : Node β := ⟨Config.new [], disk⟩

/-- The requests that change the configuration or load it again. -/
inductive Operation
  | configUpdate (newConfig : Option Config)
  | peerRegister (peer : Option Peer)
  | configReload

/-- Handle a request. -/
def operate (lib : Libraries β) (env : Env) : Operation → Prog β Unit
  | .configUpdate newConfig => handleConfigUpdate lib env newConfig
  | .peerRegister peer => handlePeerRegister lib env peer
  | .configReload => handleConfigReload lib env

/-- One request that succeeds. -/
def operationStep (lib : Libraries β) (node : Node β) (a : Env × Operation) : Option (Node β) :=
  match (operate lib a.1 a.2).run node with
  | .ok _ node' => some node'
  | .error _ _ => none

/-- What a request makes of the configuration in memory before it is saved; a reload
saves nothing. -/
def Operation.edit (node : Node β) : Operation → Option (Except Failure ConfigData)
  | .configUpdate newConfig =>
    some ((Update.replace newConfig node.config.chain).edit node.config.toConfigData)
  | .peerRegister peer => some ((Update.register peer).edit node.config.toConfigData)
  | .configReload => none

/-! ## No operation extends the chain -/

section Chain

variable {lib : Libraries β} {env : Env} {node node' : Node β}

/-- Loading hands the old chain on. -/
theorem fromDisk_chain {c c' : Config} {filename : String} {loader : β → Except String Config}
    {file : Option (File β)} (h : fromDisk lib env c filename loader file = .ok c') :
    c'.chain = c.chain := by
  obtain ⟨document, newConfig, -, -, hpost⟩ := fromDisk_ok h
  obtain ⟨converted, -, -, rfl⟩ := postLoad_ok hpost
  rfl

/-- A reload that succeeds writes nothing to the disk and keeps chain and prefix. -/
theorem reload_frame (h : (reload lib env).run node = .ok () node') :
    node'.disk = node.disk ∧ node'.config.chain = node.config.chain ∧
      node'.config.filenamePrefix = node.config.filenamePrefix := by
  cases hload : fromDisk lib env node.config node.jsonPath (loadJSON lib)
      (node.disk node.jsonPath) with
  | error e =>
    rw [reload_error hload] at h
    exact absurd h (by simp)
  | ok loaded =>
    rw [reload_ok hload] at h
    rw [← (EStateM.Result.ok.inj h).2]
    exact ⟨rfl, rfl, rfl⟩

/-- The chain of a node that has started is empty. -/
theorem serve_chain {loadEnv : Env} {path : String} {disk : String → Option (File β)}
    (h : (serve lib loadEnv env path).run (.initial disk) = .ok () node) :
    node.config.chain = [] := by
  obtain ⟨_, node1, hload, h⟩ := run_bind_ok h
  obtain ⟨_, node2, hsave, h⟩ := run_bind_ok h
  obtain ⟨_, node3, hreload, h⟩ := run_bind_ok h
  have h1 : node1.config.chain = [] := by
    unfold loadConfig at hload
    cases hfile : fromDisk lib loadEnv (Node.initial disk).config path (loadYAML lib)
        ((Node.initial disk).disk path) with
    | error e =>
      simp only [EStateM.run, hfile] at hload
      exact absurd hload (by simp)
    | ok c =>
      simp only [EStateM.run, hfile] at hload
      rw [← (EStateM.Result.ok.inj hload).2]
      exact fromDisk_chain hfile
  have h2 : node2.config.chain = node1.config.chain := by
    obtain ⟨json, yaml, -, hreached⟩ := save_ok hsave
    rw [hreached.config]
  rw [← (EStateM.Result.ok.inj h).2]
  exact (reload_frame hreload).2.1.trans (h2.trans h1)

/-- What an update that succeeds leaves: the chain, and the encoding of the trimmed
configuration in the JSON file. -/
theorem update_frame {u : Update} (h : (update lib env u).run node = .ok () node') :
    node'.config.chain = node.config.chain ∧ node'.jsonPath = node.jsonPath ∧
      ∃ d json, u.edit node.config.toConfigData = .ok d ∧
        lib.encodeJSON (d.trim (env.order .trimJSON)) = .ok json ∧
        node'.disk node.jsonPath = some (.doc json) := by
  obtain ⟨d, hd, h⟩ := update_ok h
  obtain ⟨json, yaml, loaded, hsaved⟩ := saveConfig_ok h
  refine ⟨?_, ?_, d, json, hd, (saveStage_ok hsaved.stage).2, hsaved.json⟩
  · rw [hsaved.config]
    rfl
  · rw [Node.jsonPath, hsaved.config]
    rfl

/-- **One operation.**  A request that succeeds keeps the chain; the JSON file holds what
has been saved, or is what it was. -/
theorem operate_frame {op : Operation} (h : (operate lib env op).run node = .ok () node') :
    node'.config.chain = node.config.chain ∧ node'.jsonPath = node.jsonPath ∧
      match op.edit node with
      | none => node'.disk node.jsonPath = node.disk node.jsonPath
      | some r =>
        ∃ d json, r = .ok d ∧ lib.encodeJSON (d.trim (env.order .trimJSON)) = .ok json ∧
          node'.disk node.jsonPath = some (.doc json) := by
  cases op with
  | configUpdate newConfig => exact update_frame (u := .replace newConfig node.config.chain) h
  | peerRegister peer => exact update_frame (u := .register peer) h
  | configReload =>
    obtain ⟨hdisk, hchain, hprefix⟩ := reload_frame (run_wrapError_ok h)
    refine ⟨hchain, ?_, by rw [hdisk]; rfl⟩
    rw [Node.jsonPath, hprefix, Node.jsonPath]

theorem operationStep_ok {a : Env × Operation} (h : operationStep lib node a = some node') :
    (operate lib a.1 a.2).run node = .ok () node' := by
  unfold operationStep at h
  cases hrun : (operate lib a.1 a.2).run node with
  | error e node'' =>
    rw [hrun] at h
    exact absurd h (by simp)
  | ok u node'' =>
    rw [hrun] at h
    rw [Option.some.inj h]

/-- In every run of a node that has started, the chain is empty. -/
theorem chain_run {loadEnv : Env} {path : String} {disk : String → Option (File β)}
    {node0 : Node β} (h : (serve lib loadEnv env path).run (.initial disk) = .ok () node0)
    {ops : List (Env × Operation)} (hr : run (operationStep lib) node0 ops = some node) :
    node.config.chain = [] := by
  apply run_invariant (P := fun n => n.config.chain = []) _ (serve_chain h) hr
  intro n a n' hn hstep
  rw [(operate_frame (operationStep_ok hstep)).1, hn]

end Chain

/-! ## What subscribers can see -/

/-- A subscriber that holds the earlier chain finds a longer one. -/
def Detected (before after : Node β) : Prop :=
  ∃ added, added ≠ [] ∧ handleConfigChain after = handleConfigChain before ++ added

/-- The request saves the very document that stands in the JSON file. -/
def WritesBack (lib : Libraries β) (env : Env) (node : Node β) (op : Operation) : Prop :=
  ∀ d, op.edit node = some (.ok d) →
    (lib.encodeJSON (d.trim (env.order .trimJSON))).toOption.map File.doc
      = node.disk node.jsonPath

/-- **Which changes subscribers detect.**  In every run of a node that has started, the
chain handed out is empty before and after every request; so a change of the JSON file
shows in the chain exactly when there is none, that is, when the request saves the
document that is already there. -/
theorem operation_detected_iff {lib : Libraries β} {loadEnv env : Env} {path : String}
    {disk : String → Option (File β)} {node0 node node' : Node β}
    (hstart : (serve lib loadEnv env path).run (.initial disk) = .ok () node0)
    {ops : List (Env × Operation)} (hr : run (operationStep lib) node0 ops = some node)
    {a : Env × Operation} (hop : operationStep lib node a = some node') :
    handleConfigChain node = [] ∧ handleConfigChain node' = [] ∧
      ((node'.disk node'.jsonPath ≠ node.disk node.jsonPath → Detected node node') ↔
        WritesBack lib a.1 node a.2) := by
  have hchain := chain_run hstart hr
  obtain ⟨hchain', hpath, hjson⟩ := operate_frame (operationStep_ok hop)
  rw [hchain] at hchain'
  refine ⟨hchain, hchain', ?_⟩
  -- two empty chains: neither properly extends the other
  have hnot : ¬ Detected node node' := by
    rintro ⟨added, hadded, heq⟩
    unfold handleConfigChain at heq
    rw [hchain, hchain', List.nil_append] at heq
    exact hadded heq.symm
  have hsame : (node'.disk node'.jsonPath ≠ node.disk node.jsonPath → Detected node node') ↔
      node'.disk node.jsonPath = node.disk node.jsonPath := by
    rw [hpath]
    constructor
    · intro h
      by_contra hne
      exact hnot (h hne)
    · intro heq hne
      exact absurd heq hne
  rw [hsame]
  unfold WritesBack
  cases hedit : a.2.edit node with
  | none =>
    rw [hedit] at hjson
    exact ⟨fun _ d hd => absurd hd (by simp), fun _ => hjson⟩
  | some r =>
    rw [hedit] at hjson
    obtain ⟨d, json, rfl, henc, hdisk⟩ := hjson
    rw [hdisk]
    constructor
    · intro heq d' hd'
      obtain rfl := Except.ok.inj (Option.some.inj hd')
      rw [henc, ← heq]
      rfl
    · intro h
      have := h d rfl
      rw [henc] at this
      exact this

/-! ## A node with one peer -/

/-- A disk with nothing but the configuration file, which lists one peer. -/
def onePeerDisk : String → Option (File ConfigData) := fun path =>
  if path = "border.yaml" then some (.doc onePeerNode.config.toConfigData) else none

/-- Documents that hold the shutdown wait of that node, and nothing else. -/
def waitLibraries : Libraries ℤ where
  encodeJSON d := .ok d.shutdownWait
  encodeYAML d := .ok d.shutdownWait
  decodeJSON wait := .ok { onePeerNode.config.toConfigData with shutdownWait := wait }
  decodeYAML wait := .ok { onePeerNode.config.toConfigData with shutdownWait := wait }
  parseDuration _ := .error "time: invalid duration"
  hash _ := ""

theorem run_onePeer_again :
    ∃ node0 node', (serve waitLibraries calmEnv calmEnv "border.yaml").run
        (.initial fun path => if path = "border.yaml" then some (.doc 0) else none)
        = .ok () node0 ∧
      operationStep waitLibraries node0 (calmEnv, .configUpdate (some onePeerNode.config))
        = some node' ∧ node0.disk node0.jsonPath = some (.doc 0) := by
  have hrun : runOkWith (fun node0 =>
      (operationStep waitLibraries node0 (calmEnv, .configUpdate (some onePeerNode.config))).isSome &&
        decide (node0.disk node0.jsonPath = some (.doc 0)))
      ((serve waitLibraries calmEnv calmEnv "border.yaml").run
        (.initial fun path => if path = "border.yaml" then some (.doc 0) else none)) = true := by
    decide +kernel
  obtain ⟨_, node0, hstart, htest⟩ := runOkWith_eq_true hrun
  rw [Bool.and_eq_true, decide_eq_true_eq] at htest
  obtain ⟨node', hop⟩ := Option.isSome_iff_exists.mp htest.1
  exact ⟨node0, node', hstart, hop, htest.2⟩

/-- The configuration that the node was started with is sent to it: the document that is saved
stands in the file. -/
theorem operation_detected_again :
    ∃ node0 node', (serve waitLibraries calmEnv calmEnv "border.yaml").run
        (.initial fun path => if path = "border.yaml" then some (.doc 0) else none)
        = .ok () node0 ∧
      operationStep waitLibraries node0 (calmEnv, .configUpdate (some onePeerNode.config))
        = some node' ∧ handleConfigChain node' = [] ∧
      (node'.disk node'.jsonPath ≠ node0.disk node0.jsonPath → Detected node0 node') := by
  obtain ⟨node0, node', hstart, hop, hfile⟩ := run_onePeer_again
  obtain ⟨-, hchain, hiff⟩ := operation_detected_iff hstart (run_nil _ _) hop
  refine ⟨node0, node', hstart, hop, hchain, hiff.mpr fun d hd => ?_⟩
  cases hd
  exact hfile.symm

/-- The peers of that node with another shutdown wait. -/
def patientConfig : Config := { onePeerNode.config with shutdownWait := 5 }

/-- The shutdown wait in the JSON file. -/
def savedWait (node : Node ConfigData) : Option ℤ :=
  match node.disk node.jsonPath with
  | some (.doc d) => some d.shutdownWait
  | _ => none

theorem run_onePeer_update :
    ∃ node0 node', (serve plainLibraries calmEnv calmEnv "border.yaml").run (.initial onePeerDisk)
        = .ok () node0 ∧
      operationStep plainLibraries node0 (calmEnv, .configUpdate (some patientConfig))
        = some node' ∧
      savedWait node0 = some 0 ∧ savedWait node' = some 5 ∧
      node0.config.chain = [] ∧ node'.config.chain = [] := by
  have hrun : runOkWith (fun node0 =>
      (operationStep plainLibraries node0 (calmEnv, .configUpdate (some patientConfig))).any
        fun node' => savedWait node0 = some 0 ∧ savedWait node' = some 5 ∧
          node0.config.chain = [] ∧ node'.config.chain = [])
      ((serve plainLibraries calmEnv calmEnv "border.yaml").run (.initial onePeerDisk)) = true := by
    decide +kernel
  obtain ⟨_, node0, hstart, hany⟩ := runOkWith_eq_true hrun
  obtain ⟨node', hop, hfacts⟩ := (Option.any_eq_true _ _).mp hany
  exact ⟨node0, node', hstart, hop, of_decide_eq_true hfacts⟩

/-- A successful update that rewrites the JSON file leaves the chain as it was. -/
theorem operation_undetected :
    ∃ node0 node', (serve plainLibraries calmEnv calmEnv "border.yaml").run (.initial onePeerDisk)
        = .ok () node0 ∧
      operationStep plainLibraries node0 (calmEnv, .configUpdate (some patientConfig))
        = some node' ∧
      node'.disk node'.jsonPath ≠ node0.disk node0.jsonPath ∧ ¬ Detected node0 node' := by
  obtain ⟨node0, node', hstart, hop, hwait, hwait', hchain, hchain'⟩ := run_onePeer_update
  refine ⟨node0, node', hstart, hop, ?_, ?_⟩
  · intro h
    unfold savedWait at hwait hwait'
    rw [h, hwait] at hwait'
    exact absurd hwait' (by decide)
  · rintro ⟨added, hadded, heq⟩
    unfold handleConfigChain at heq
    rw [hchain, hchain'] at heq
    exact hadded heq.symm

end Border
