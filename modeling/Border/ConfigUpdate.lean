/-
# What a failed configuration update leaves behind

`ReplaceConfig` and `handlePeerRegister` edit the configuration in memory first, then
save it over both files, and validate it last, when they load it back.  A call that
fails therefore leaves behind whatever it had installed by then.

`failureStage` computes, from the state before the call, the stage at which it fails, and
`update_allOrNothing_iff` says when a failure goes unnoticed: exactly when what has been
installed by that stage is what stood there before.
-/
import Border.ControlServer
import Border.SaveStages

namespace Border

open GoJson GoMap

variable {β : Type}

/-! ## Updates -/

/-- The calls that change the configuration. -/
inductive Update
  | replace (newConfig : Option Config) (newChain : List String)
  | register (peer : Option Peer)

/-- Run an update. -/
def update (lib : Libraries β) (env : Env) : Update → Prog β Unit
  | .replace newConfig newChain => replaceConfig lib env newConfig newChain
  | .register peer => handlePeerRegister lib env peer

/-- What an update makes of the saved fields in memory before it saves them. -/
def Update.edit : Update → ConfigData → Except Failure ConfigData
  | .replace none _, _ => .error nilDereference
  | .replace (some newConfig) _, _ => .ok newConfig.toConfigData
  | .register peer, d =>
    (registerPeer peer d.peers.elems).map fun peers => { d with peers := some peers }

/-- A node with other saved fields in memory. -/
def Node.edit (node : Node β) (d : ConfigData) : Node β :=
  { node with config := { node.config with toConfigData := d } }

/-- The stage at which saving and loading back fails. -/
def failureStage (lib : Libraries β) (env : Env) (node : Node β) : Option (Stage β) :=
  match saveStage lib env node with
  | .error stage => some stage
  | .ok (json, yaml) =>
    match fromDisk lib env node.config node.jsonPath (loadJSON lib) (some (.doc json)) with
    | .error _ => some (.saved json yaml)
    | .ok _ => none

/-! ## Running an update -/

section Run

variable {lib : Libraries β} {env : Env} {node : Node β} {u : Update}

/-- An edit that panics changes nothing. -/
theorem update_edit_error (lib : Libraries β) (env : Env) {e : Failure}
    (h : u.edit node.config.toConfigData = .error e) :
    ∃ e', (update lib env u).run node = .error e' node := by
  cases u with
  | replace newConfig newChain =>
    cases newConfig with
    | none => exact ⟨nilDereference, rfl⟩
    | some newConfig => exact absurd h (by simp [Update.edit])
  | register peer =>
    cases hpeers : registerPeer peer node.config.peers.elems with
    | error e' =>
      have hedit : (editPeers peer).run node = .error e' node := by
        simp only [EStateM.run, editPeers, hpeers]
      exact ⟨e', bind_eq_of_error hedit⟩
    | ok peers => exact absurd h (by simp [Update.edit, hpeers, Except.map])

/-- Any other update saves what the edit made. -/
theorem update_edit_ok {d : ConfigData} (h : u.edit node.config.toConfigData = .ok d) :
    (update lib env u).run node = (saveConfig lib env).run (node.edit d) := by
  cases u with
  | replace newConfig newChain =>
    cases newConfig with
    | none => exact absurd h (by simp [Update.edit])
    | some newConfig =>
      rw [← Except.ok.inj h]
      rfl
  | register peer =>
    obtain ⟨peers, hpeers, rfl⟩ := map_ok h
    have hedit : (editPeers peer).run node
        = .ok () (node.edit { node.config.toConfigData with peers := some peers }) := by
      simp only [EStateM.run, editPeers, hpeers]
      rfl
    exact bind_eq_of_ok hedit

/-- The inversion of a successful update. -/
theorem update_ok {node' : Node β} (h : (update lib env u).run node = .ok () node') :
    ∃ d, u.edit node.config.toConfigData = .ok d ∧
      (saveConfig lib env).run (node.edit d) = .ok () node' := by
  cases hd : u.edit node.config.toConfigData with
  | error e =>
    obtain ⟨e', he'⟩ := update_edit_error lib env hd
    rw [he'] at h
    exact absurd h (by simp)
  | ok d =>
    rw [update_edit_ok hd] at h
    exact ⟨d, rfl, h⟩

/-- Only the chain and the reload channel of the old configuration are passed on. -/
theorem fromDisk_congr {c c' : Config} (hchain : c'.chain = c.chain) (hreload : c'.reload = c.reload)
    (filename : String) (loader : β → Except String Config) (file : Option (File β)) :
    fromDisk lib env c' filename loader file = fromDisk lib env c filename loader file := by
  simp only [fromDisk, hchain, hreload]

theorem reload_error {e : Failure}
    (h : fromDisk lib env node.config node.jsonPath (loadJSON lib) (node.disk node.jsonPath)
      = .error e) :
    (reload lib env).run node = .error (e.wrap "While reloading configuration: ") node := by
  simp only [EStateM.run, reload, h]

theorem reload_ok {newConfig : Config}
    (h : fromDisk lib env node.config node.jsonPath (loadJSON lib) (node.disk node.jsonPath)
      = .ok newConfig) :
    (reload lib env).run node = .ok () { node with
      config := { node.config.copyFrom newConfig with
        publisher := node.config.publisher, chain := node.config.chain, reload := true } } := by
  simp only [EStateM.run, reload, h]

/-- After a complete save, loading back reads the document just put in place. -/
theorem fromDisk_saved (lib : Libraries β) {node' : Node β} {json yaml : β}
    (h : Reached env node node' (.saved json yaml)) :
    fromDisk lib env node'.config node'.jsonPath (loadJSON lib) (node'.disk node'.jsonPath)
      = fromDisk lib env node.config node.jsonPath (loadJSON lib) (some (.doc json)) := by
  have hpath : node'.jsonPath = node.jsonPath := by
    rw [Node.jsonPath, h.config, Node.jsonPath]
  have hchain : node'.config.chain = node.config.chain := by rw [h.config]
  have hreload : node'.config.reload = node.config.reload := by rw [h.config]
  rw [hpath, h.json, fromDisk_congr hchain hreload]
  rfl

/-- What saving and loading back leaves when it succeeds: the configuration loaded from
the document that now stands in the JSON file. -/
structure Saved (lib : Libraries β) (env : Env) (before after : Node β) (json yaml : β)
    (loaded : Config) : Prop where
  stage : saveStage lib env before = .ok (json, yaml)
  load : fromDisk lib env before.config before.jsonPath (loadJSON lib) (some (.doc json))
    = .ok loaded
  config : after.config =
    { before.config with toConfigData := loaded.toConfigData, reload := true }
  json : after.disk before.jsonPath = some (.doc json)

/-- **Saving and loading back fails where `failureStage` says.** -/
theorem saveConfig_spec (lib : Libraries β) (env : Env) (node : Node β) :
    match failureStage lib env node with
    | some stage =>
      ∃ e node', (saveConfig lib env).run node = .error e node' ∧ Reached env node node' stage
    | none =>
      ∃ node' json yaml loaded, (saveConfig lib env).run node = .ok () node' ∧
        Saved lib env node node' json yaml loaded := by
  have hsave := save_spec lib env node
  unfold failureStage
  cases hstage : saveStage lib env node with
  | error stage =>
    rw [hstage] at hsave
    obtain ⟨e, node', he, hreached⟩ := hsave
    exact ⟨_, node', bind_eq_of_error (wrapError_of_error he), hreached⟩
  | ok docs =>
    obtain ⟨json, yaml⟩ := docs
    rw [hstage] at hsave
    obtain ⟨node', hok, hreached⟩ := hsave
    have hrun : (saveConfig lib env).run node
        = (wrapError "While reloading configuration: " (reload lib env)).run node' :=
      bind_eq_of_ok (wrapError_of_ok hok)
    -- what `Reload` reads is the document that was just put in place
    have hload := fromDisk_saved lib hreached
    dsimp only
    cases hfile : fromDisk lib env node.config node.jsonPath (loadJSON lib) (some (.doc json)) with
    | error e =>
      rw [hfile] at hload
      exact ⟨_, node', hrun.trans (wrapError_of_error (reload_error hload)), hreached⟩
    | ok loaded =>
      rw [hfile] at hload
      refine ⟨_, json, yaml, loaded, hrun.trans (wrapError_of_ok (reload_ok hload)), hstage,
        hfile, ?_, hreached.json⟩
      rw [hreached.config]
      rfl

/-- The inversion of a successful call. -/
theorem saveConfig_ok {node' : Node β} (h : (saveConfig lib env).run node = .ok () node') :
    ∃ json yaml loaded, Saved lib env node node' json yaml loaded := by
  have hspec := saveConfig_spec lib env node
  cases hstage : failureStage lib env node with
  | some stage =>
    rw [hstage] at hspec
    obtain ⟨e, node'', he, -⟩ := hspec
    rw [he] at h
    exact absurd h (by simp)
  | none =>
    rw [hstage] at hspec
    obtain ⟨node'', json, yaml, loaded, hok, hsaved⟩ := hspec
    rw [hok] at h
    obtain rfl := (EStateM.Result.ok.inj h).2
    exact ⟨json, yaml, loaded, hsaved⟩

end Run

/-- Nothing has been installed by a stage but what stood there before, when `d` is the
configuration to be saved. -/
def Unnoticed (env : Env) (node : Node β) (d : ConfigData) : Stage β → Prop
  | .unsaved => d = node.config.toConfigData
  | .trimmed => d.trim (env.order .trimJSON) = node.config.toConfigData
  | .jsonInPlace json =>
    d.trim (env.order .trimJSON) = node.config.toConfigData ∧
      node.disk node.jsonPath = some (.doc json)
  | .yamlTrimmed json =>
    (d.trim (env.order .trimJSON)).trim (env.order .trimYAML) = node.config.toConfigData ∧
      node.disk node.jsonPath = some (.doc json)
  | .saved json yaml =>
    (d.trim (env.order .trimJSON)).trim (env.order .trimYAML) = node.config.toConfigData ∧
      node.disk node.jsonPath = some (.doc json) ∧ node.disk node.yamlPath = some (.doc yaml)

theorem unnoticed_iff {env : Env} {node : Node β} {d : ConfigData} {stage : Stage β} :
    Unnoticed env node d stage ↔
      installedAt env (node.edit d).installed stage = node.installed := by
  rw [Installed.ext_iff]
  cases stage with
  | unsaved => exact ⟨fun h => ⟨h, rfl, rfl⟩, fun h => h.1⟩
  | trimmed => exact ⟨fun h => ⟨h, rfl, rfl⟩, fun h => h.1⟩
  | jsonInPlace json => exact ⟨fun h => ⟨h.1, h.2.symm, rfl⟩, fun h => ⟨h.1, h.2.1.symm⟩⟩
  | yamlTrimmed json => exact ⟨fun h => ⟨h.1, h.2.symm, rfl⟩, fun h => ⟨h.1, h.2.1.symm⟩⟩
  | saved json yaml =>
    exact ⟨fun h => ⟨h.1, h.2.1.symm, h.2.2.symm⟩, fun h => ⟨h.1, h.2.1.symm, h.2.2.symm⟩⟩

/-- Where an update ends, in terms of what its edit makes of the configuration. -/
theorem update_spec (lib : Libraries β) (env : Env) {node : Node β} {u : Update} {d : ConfigData}
    (hd : u.edit node.config.toConfigData = .ok d) :
    match failureStage lib env (node.edit d) with
    | some stage =>
      ∃ e node', (update lib env u).run node = .error e node' ∧
        node'.installed = installedAt env (node.edit d).installed stage
    | none => ∃ node', (update lib env u).run node = .ok () node' := by
  rw [update_edit_ok hd]
  have h := saveConfig_spec lib env (node.edit d)
  revert h
  cases failureStage lib env (node.edit d) with
  | none =>
    rintro ⟨node', json, yaml, loaded, hok, -⟩
    exact ⟨node', hok⟩
  | some stage =>
    rintro ⟨e, node', he, hreached⟩
    exact ⟨e, node', he, hreached.installed⟩

/-- **When a failed update leaves no trace.**  A call that does not succeed leaves memory
and both files as they were exactly when, at the stage at which it fails, everything it
has installed is what was there: the edited configuration, trimmed as often as it has been
by that stage, the one in memory, and the documents put in place those on disk. -/
theorem update_allOrNothing_iff (lib : Libraries β) (env : Env) (node : Node β) (u : Update) :
    (∀ e node', (update lib env u).run node = .error e node' →
      node'.installed = node.installed) ↔
    ∀ d stage, u.edit node.config.toConfigData = .ok d →
      failureStage lib env (node.edit d) = some stage → Unnoticed env node d stage := by
  constructor
  · intro hall d stage hd hstage
    have h := update_spec lib env hd
    rw [hstage] at h
    obtain ⟨e, node', he, hinst⟩ := h
    rw [unnoticed_iff, ← hinst]
    exact hall e node' he
  · intro hall e node' he
    cases hd : u.edit node.config.toConfigData with
    | error e' =>
      obtain ⟨e'', he''⟩ := update_edit_error lib env hd
      rw [he''] at he
      rw [(EStateM.Result.error.inj he).2]
    | ok d =>
      have h := update_spec lib env hd
      cases hstage : failureStage lib env (node.edit d) with
      | none =>
        rw [hstage] at h
        obtain ⟨node'', hok⟩ := h
        rw [hok] at he
        exact absurd he (by simp)
      | some stage =>
        rw [hstage] at h
        obtain ⟨e'', node'', he'', hinst⟩ := h
        rw [he''] at he
        rw [← (EStateM.Result.error.inj he).2, hinst]
        exact unnoticed_iff.mp (hall d stage hd hstage)

/-! ## An update that fails too late -/

/-- Documents that are the saved fields themselves, encoded and decoded without loss. -/
def plainLibraries : Libraries ConfigData where
  encodeJSON d := .ok d
  encodeYAML d := .ok d
  decodeJSON d := .ok d
  decodeYAML d := .ok d
  parseDuration _ := .error "time: invalid duration"
  hash _ := ""

/-- No file operation fails, and the zones are visited in the order of their names. -/
def calmEnv : Env where
  fault _ := none
  order _ := sortedOrder String (Option Zone)

/-- A node with one peer, before its first save. -/
def onePeerNode : Node ConfigData where
  config := { Config.new [] with
    peers := some [some ⟨some [], "localhost:5309", some ⟨[], "foo", "A256KW"⟩⟩]
    filenamePrefix := "border" }
  disk _ := none

/-- An update without peers is refused only after it has replaced the peers in memory and
both files. -/
theorem update_without_peers :
    ∃ node', (update plainLibraries calmEnv (.replace (some (Config.new [])) [])).run onePeerNode
        = .error (.error ("While reloading configuration: While reloading configuration: "
          ++ "You must specify at least one peer")) node' ∧
      node'.installed.memory.peers = none ∧
      node'.installed.json = some (.doc ConfigData.zero) ∧
      node'.installed ≠ onePeerNode.installed := by
  refine ⟨_, rfl, rfl, rfl, ?_⟩
  intro h
  have hpeers : (none : Slice (Option Peer)) = some _ := congrArg (fun i => i.memory.peers) h
  exact absurd hpeers (by simp)

end Border
