/-
# The handlers of the control server that change the configuration

Model of `ReplaceConfig` and `saveConfig` in `pkg/controlserver/controlserver.go` and of
the handlers in `client_handlers.go` and `peer_handlers.go` that read or change the
configuration: each edits the configuration in memory, saves it and loads it back.
-/
import Border.Disk

namespace Border

open GoJson

variable {β : Type}

/-- `Server.saveConfig`. -/
def saveConfig (lib : Libraries β) (env : Env) : Prog β Unit := do
  wrapError "Could not save configuration: " (save lib env)
  wrapError "While reloading configuration: " (reload lib env)

/-- The edit of `ReplaceConfig`: the new chain goes to the new configuration, of which
only the saved fields are copied. -/
def copyConfig (newConfig : Option Config) (newChain : List String) : Prog β Unit := fun node =>
  match newConfig with
  | none => .error nilDereference node
  | some newConfig =>
    let newConfig := { newConfig with chain := newChain }
    .ok () { node with config := node.config.copyFrom newConfig }

/-- `Server.ReplaceConfig`. -/
def replaceConfig (lib : Libraries β) (env : Env) (newConfig : Option Config)
    (newChain : List String) : Prog β Unit := do
  copyConfig newConfig newChain
  saveConfig lib env

/-- `handleConfigUpdate`: the chain stays the one the server has. -/
def handleConfigUpdate (lib : Libraries β) (env : Env) (newConfig : Option Config) :
    Prog β Unit := do
  let node ← get
  replaceConfig lib env newConfig node.config.chain

/-- The loop of `handlePeerRegister`: the peer takes the place of every one of its
name. -/
def registerPeer (peer : Option Peer) : List (Option Peer) → Except Failure (List (Option Peer))
  | [] => .ok []
  | p :: ps => do
    let name ← Peer.name p
    let newName ← Peer.name peer
    let rest ← registerPeer peer ps
    .ok ((if name = newName then peer else p) :: rest)

/-- The edit of `handlePeerRegister`. -/
def editPeers (peer : Option Peer) : Prog β Unit := fun node =>
  match registerPeer peer node.config.peers.elems with
  | .error e => .error e node
  | .ok peers => .ok () { node with config := { node.config with peers := some peers } }

/-- `handlePeerRegister`. -/
def handlePeerRegister (lib : Libraries β) (env : Env) (peer : Option Peer) : Prog β Unit := do
  editPeers peer
  saveConfig lib env

/-- `handleConfigReload`. -/
def handleConfigReload (lib : Libraries β) (env : Env) : Prog β Unit :=
  wrapError "Error reloading configuration: " (reload lib env)

/-- `handleConfigChain`: the sums of the chain. -/
def handleConfigChain (node : Node β) : List String := node.config.chain

end Border
