/-
# The control server and its endpoints

Model of `configureMux`, `handle`, `handlePut` and `handleValidateNonce` in
`pkg/controlserver/controlserver.go` and of the handlers in `client_handlers.go` and
`peer_handlers.go`: each endpoint for `PUT` requests with its own request object, the nonce
table they share, and the mutex of the configuration.

Requests are handled one at a time: a request is received (decrypted, unmarshalled and
validated), and if it is accepted its handler runs.  `ServerState` is the running server,
and `serverStep` takes it through both steps of a request, through the requests for a
nonce, the sweeps of the nonce table, and whatever else changes the configuration.

`configMutex` is taken for reading while a body is decrypted, and for writing by the two
handlers that edit the configuration.  Those release it with a plain `Unlock` at the end of
the edit, so that a panic in the edit leaves it held (`Handler.locked`).

* `receive_isolated` : a request that is received takes the steps of the endpoint of
  `RequestIsolation`, one after the other;
* `onNode_configUpdate`, `onNode_peerRegister` : the mutex apart, the two handlers are
  `handleConfigUpdate` and `handlePeerRegister`.
-/
import Border.ControlServer
import Border.RequestIsolation

namespace Border

open GoJson Transition

/-! ## The endpoints -/

/-- The endpoints for `PUT` requests, in the order of `configureMux`. -/
inductive Endpoint
  | authCheck
  | configUpdate
  | configReload
  | peerRegister
  | identifyPublisher
  | uptime
  | ping
  | configChain
  | configFetch
  deriving DecidableEq, Repr

/-- The type of the requests to an endpoint. -/
def Endpoint.request (unmarshalKey : Json → Except String JSONWebKey) : Endpoint → RequestType
  | .authCheck => authCheckRequest
  | .configUpdate => configUpdateRequest unmarshalKey
  | .configReload => configReloadRequest
  | .peerRegister => peerRegistrationRequest unmarshalKey
  | .identifyPublisher => identifyPublisherRequest
  | .uptime => uptimeRequest
  | .ping => pingRequest
  | .configChain => configChainRequest
  | .configFetch => configFetchRequest

/-- The messages the server answers with.  The nonces of the responses are never set. -/
inductive Message
  /-- An `AuthCheck`, the answer to a request for a nonce. -/
  | nonce (bytes : AuthCheck)
  | nil
  | identifyPublisher (publisher : String)
  | uptime (uptime : ℤ)
  | configChain (chain : List String)
  | configFetch (config : ConfigData) (chain : List String)

/-! ## The handlers -/

/-- The configuration with its disk, and whether somebody holds `configMutex` for
writing. -/
structure Guarded (β : Type) where
  node : Node β
  held : Bool

/-- A handler keeps what it has reached when it fails. -/
abbrev Handler (β α : Type) := EStateM Failure (Guarded β) α

section Handlers

variable {β α : Type}

namespace Handler

/-- A call outside of the mutex. -/
def lift (x : Prog β α) : Handler β α := fun g =>
  match x.run g.node with
  | .ok a node => .ok a { g with node := node }
  | .error e node => .error e { g with node := node }

/-- An edit between `Lock` and `Unlock`.  Neither is deferred: an edit that does not come
to its end does not come to the `Unlock`. -/
def locked (edit : Prog β α) : Handler β α := fun g =>
  match edit.run g.node with
  | .ok a node => .ok a ⟨node, false⟩
  | .error e node => .error e ⟨node, true⟩

/-- What a handler leaves, whether it returned, failed or panicked: `net/http` recovers the
panic of a handler. -/
def leaves (x : Handler β α) (g : Guarded β) : Guarded β :=
  match x.run g with
  | .ok _ g' => g'
  | .error _ g' => g'

end Handler

/-- `Server.ReplaceConfig`, with its mutex. -/
def lockedReplaceConfig (lib : Libraries β) (env : Env) (newConfig : Option Config)
    (newChain : List String) : Handler β Unit := do
  Handler.locked (copyConfig newConfig newChain)
  Handler.lift (saveConfig lib env)

/-- `handleIdentifyPublisher`: the name of the publisher, which has to be there. -/
def handleIdentifyPublisher : Prog β Message := fun node =>
  match Peer.name node.config.publisher with
  | .ok name => .ok (.identifyPublisher name) node
  | .error e => .error e node

/-- The handler of an endpoint, on the object of the request; `uptime` is the time since
the server was started. -/
def handler (unmarshalKey : Json → Except String JSONWebKey) (lib : Libraries β) (env : Env)
    (uptime : ℤ) :
    (e : Endpoint) → (e.request unmarshalKey).Obj → Handler β Message
  | .authCheck, _ => pure .nil
  | .configUpdate, req => do
    let g ← get
    lockedReplaceConfig lib env (ConfigUpdate.config req) g.node.config.chain
    pure .nil
  | .configReload, _ => do
    Handler.lift (handleConfigReload lib env)
    pure .nil
  | .peerRegister, req => do
    Handler.locked (editPeers (PeerRegistration.peer req))
    Handler.lift (saveConfig lib env)
    pure .nil
  | .identifyPublisher, _ => Handler.lift handleIdentifyPublisher
  | .uptime, _ => pure (.uptime uptime)
  | .ping, _ => pure .nil
  | .configChain, _ => do
    let g ← get
    pure (.configChain (handleConfigChain g.node))
  | .configFetch, _ => do
    let g ← get
    pure (.configFetch g.node.config.toConfigData (handleConfigChain g.node))

/-! ## What the handlers leave -/

namespace Handler

/-- A call outside of the mutex leaves the mutex as it is. -/
theorem leaves_lift (x : Prog β α) (g : Guarded β) : (leaves (lift x) g).held = g.held := by
  cases h : x.run g.node with
  | ok a node => simp only [leaves, lift, EStateM.run, show x g.node = _ from h]
  | error e node => simp only [leaves, lift, EStateM.run, show x g.node = _ from h]

/-- A sequence leaves what its second part leaves, if it comes to it. -/
theorem leaves_bind {γ : Type} (x : Handler β α) (f : α → Handler β γ) (g : Guarded β) :
    leaves (x >>= f) g =
      match x.run g with
      | .ok a g' => leaves (f a) g'
      | .error _ g' => g' := by
  cases h : x.run g with
  | ok a g' => simp only [leaves, EStateM.run, bind, EStateM.bind, show x g = _ from h]
  | error e g' => simp only [leaves, EStateM.run, bind, EStateM.bind, show x g = _ from h]

/-- So does what comes after such a call, if it does. -/
theorem leaves_lift_bind {γ : Type} {x : Prog β α} {f : α → Handler β γ} (g : Guarded β)
    (hf : ∀ a node, (leaves (f a) ⟨node, g.held⟩).held = g.held) :
    (leaves (lift x >>= f) g).held = g.held := by
  have hx : (leaves (lift x) g).held = g.held := leaves_lift x g
  rw [leaves_bind]
  cases h : (lift x).run g with
  | ok a g' =>
    rw [leaves, h] at hx
    dsimp only at hx ⊢
    rw [← hx] at hf ⊢
    exact hf a g'.node
  | error e g' =>
    rw [leaves, h] at hx
    exact hx

/-- **After an edit under the mutex and calls outside of it, the mutex is free exactly when
the edit came to its end.** -/
theorem leaves_locked {edit : Prog β Unit} {f : Unit → Handler β α} (g : Guarded β)
    (hf : ∀ node, (leaves (f ()) ⟨node, false⟩).held = false) :
    (leaves (locked edit >>= f) g).held = false ↔ ∃ node, edit.run g.node = .ok () node := by
  rw [leaves_bind]
  cases h : edit.run g.node with
  | ok a node =>
    have hrun : (locked edit).run g = .ok () ⟨node, false⟩ := by
      simp only [locked, EStateM.run, show edit g.node = _ from h]
    rw [hrun]
    exact ⟨fun _ => ⟨node, rfl⟩, fun _ => hf node⟩
  | error e node =>
    have hrun : (locked edit).run g = .error e ⟨node, true⟩ := by
      simp only [locked, EStateM.run, show edit g.node = _ from h]
    rw [hrun]
    exact ⟨fun hheld => absurd hheld (by simp), fun ⟨_, hok⟩ => absurd hok (by simp)⟩

/-- What a handler does to the node and returns, the mutex apart. -/
def onNode (x : Handler β α) (held : Bool) : Prog β α := fun node =>
  match x.run ⟨node, held⟩ with
  | .ok a g => .ok a g.node
  | .error e g => .error e g.node

theorem onNode_lift (x : Prog β α) (held : Bool) : onNode (lift x) held = x := by
  funext node
  cases h : x node with
  | ok a node' => simp only [onNode, lift, EStateM.run, h]
  | error e node' => simp only [onNode, lift, EStateM.run, h]

theorem onNode_locked (x : Prog β α) (held : Bool) : onNode (locked x) held = x := by
  funext node
  cases h : x node with
  | ok a node' => simp only [onNode, locked, EStateM.run, h]
  | error e node' => simp only [onNode, locked, EStateM.run, h]

theorem onNode_bind {γ : Type} {x : Handler β α} {y : Prog β α} {f : α → Handler β γ}
    {k : α → Prog β γ} (hx : ∀ held, onNode x held = y) (hf : ∀ a held, onNode (f a) held = k a)
    (held : Bool) : onNode (x >>= f) held = y >>= k := by
  rw [← hx held]
  funext node
  cases h : x ⟨node, held⟩ with
  | ok a g =>
    have hk : onNode (f a) g.held g.node = k a g.node := congrFun (hf a g.held) g.node
    simp only [onNode, EStateM.run, bind, EStateM.bind, h, ← hk]
  | error e g => simp only [onNode, EStateM.run, bind, EStateM.bind, h]

end Handler

section OnNode

open Handler

variable {lib : Libraries β} {env : Env} {uptime : ℤ}
  {unmarshalKey : Json → Except String JSONWebKey} (held : Bool)

/-- With its mutex `ReplaceConfig` does to the node what it does without. -/
theorem onNode_replaceConfig (newConfig : Option Config) (newChain : List String) :
    onNode (lockedReplaceConfig lib env newConfig newChain) held
      = replaceConfig lib env newConfig newChain :=
  onNode_bind (onNode_locked _) (fun _ => onNode_lift _) held

/-- The handler of an update, the mutex apart, is `handleConfigUpdate`. -/
theorem onNode_configUpdate (req : ConfigUpdate) :
    onNode (handler unmarshalKey lib env uptime .configUpdate req) held
      = (do handleConfigUpdate lib env req.config; pure .nil) := by
  funext node
  have h : onNode (do
      lockedReplaceConfig lib env req.config node.config.chain
      pure Message.nil) held
      = (do replaceConfig lib env req.config node.config.chain; pure .nil) :=
    onNode_bind (onNode_replaceConfig · _ _) (fun _ _ => rfl) held
  exact congrFun h node

/-- The handler of a registration, the mutex apart, is `handlePeerRegister`. -/
theorem onNode_peerRegister (req : PeerRegistration) :
    onNode (handler unmarshalKey lib env uptime .peerRegister req) held
      = (do handlePeerRegister lib env req.peer; pure .nil) := by
  have h : onNode (do
      locked (editPeers req.peer)
      lift (saveConfig lib env)
      pure Message.nil) held
      = (do editPeers req.peer; saveConfig lib env; pure .nil) :=
    onNode_bind (onNode_locked _)
      (fun _ => onNode_bind (onNode_lift _) fun _ _ => rfl) held
  rw [handlePeerRegister, bind_assoc]
  exact h

end OnNode

end Handlers

/-! ## Receiving a request -/

/-- A body on its way through `handlePut`. -/
inductive Body (rt : RequestType)
  /-- Not a `PUT`, not to be read, or not a JWE. -/
  | unparsed (msg : String)
  /-- It does not decrypt with the key of the endpoint. -/
  | undecrypted (msg : String)
  | opened (p : rt.Plain)

/-- What `handlePut` returns. -/
def Body.plain {rt : RequestType} : Body rt → Except String rt.Plain
  | .unparsed msg => .error msg
  | .undecrypted msg => .error msg
  | .opened p => .ok p

/-- `handleValidateNonce` on what `handlePut` returns: the verdict, and what it leaves in
the object and in the nonce table. -/
def handleValidateNonce (rt : RequestType) (expireTime now : ℤ) (nonces : NonceTable) (obj : rt.Obj)
    (body : Except String rt.Plain) : Except Rejection Unit × rt.Obj × NonceTable :=
  match body with
  | .error msg => (.error (.invalidRequest msg), obj, nonces)
  | .ok p =>
    match rt.unmarshal p obj with
    | (obj', some e) => (.error (.couldNotUnmarshal e), obj', nonces)
    | (obj', none) =>
      let v := validateNonce expireTime now nonces (rt.nonce obj')
      (v.1.mapError .invalidNonce, obj', v.2)

section Receiving

variable {rt : RequestType} {expireTime now : ℤ} {nonces : NonceTable} {obj obj' : rt.Obj}
  {p : rt.Plain}

theorem handleValidateNonce_unmarshal {e : UnmarshalError}
    (hu : rt.unmarshal p obj = (obj', some e)) :
    handleValidateNonce rt expireTime now nonces obj (.ok p)
      = (.error (.couldNotUnmarshal e), obj', nonces) := by
  simp only [handleValidateNonce, hu]

theorem handleValidateNonce_lookup {e : NonceError} (hu : rt.unmarshal p obj = (obj', none))
    (hl : lookupNonce expireTime now nonces (rt.nonce obj') = .error e) :
    handleValidateNonce rt expireTime now nonces obj (.ok p)
      = (.error (.invalidNonce e), obj', nonces) := by
  simp only [handleValidateNonce, hu, validateNonce, hl, Except.mapError]

theorem handleValidateNonce_ok (hu : rt.unmarshal p obj = (obj', none))
    (hl : lookupNonce expireTime now nonces (rt.nonce obj') = .ok ()) :
    handleValidateNonce rt expireTime now nonces obj (.ok p)
      = (.ok (), obj', nonces.erase (rt.nonce obj')) := by
  simp only [handleValidateNonce, hu, validateNonce, hl, Except.mapError]

/-- What the steps of the endpoint bring a request to, in agreement with a verdict. -/
def RequestPhase.Agrees (phase : RequestPhase rt) (obj : rt.Obj) (body : Except String rt.Plain) :
    Except Rejection Unit → Prop
  | .ok () => ∃ p, body = .ok p ∧ phase = .accepted p (rt.nonce obj)
  | .error r => phase = .rejected r

/-- **Receiving a request is taking the steps of its endpoint, one after the other**: up to
the delete of its nonce, or to its rejection. -/
theorem receive_isolated (expireTime now : ℤ) {es : EndpointState rt} {h : ℕ}
    (body : Except String rt.Plain) (hp : es.phase h = .arriving) :
    ∃ as t, run (endpointStep expireTime) es as = some t ∧
      (t.obj, t.nonces) = (handleValidateNonce rt expireTime now es.nonces es.obj body).2 ∧
      (t.phase h).Agrees t.obj body
        (handleValidateNonce rt expireTime now es.nonces es.obj body).1 := by
  cases body with
  | error msg =>
    refine ⟨[.decrypt h (.error msg)], es.move h (.rejected (.invalidRequest msg)), ?_, rfl,
      EndpointState.move_phase_self ..⟩
    simp only [run_cons, run_nil, endpointStep, hp, Option.bind_some]
  | ok p =>
    rcases hu : rt.unmarshal p es.obj with ⟨obj, failure⟩
    cases failure with
    | some e =>
      rw [handleValidateNonce_unmarshal hu]
      refine ⟨[.decrypt h (.ok p), .unmarshal h],
        EndpointState.move ⟨obj, es.nonces, Function.update es.phase h (.decrypted p), es.calls⟩ h
          (.rejected (.couldNotUnmarshal e)), ?_, rfl, EndpointState.move_phase_self ..⟩
      simp [run_cons, endpointStep, EndpointState.move, hp, hu]
    | none =>
      cases hl : lookupNonce expireTime now es.nonces (rt.nonce obj) with
      | error e =>
        rw [handleValidateNonce_lookup hu hl]
        refine ⟨[.decrypt h (.ok p), .unmarshal h, .lookup h now],
          EndpointState.move ⟨obj, es.nonces, Function.update es.phase h (.unmarshalled p),
            es.calls⟩ h (.rejected (.invalidNonce e)), ?_, rfl, EndpointState.move_phase_self ..⟩
        simp [run_cons, endpointStep, EndpointState.move, hp, hu, hl]
      | ok _ =>
        rw [handleValidateNonce_ok hu hl]
        refine ⟨[.decrypt h (.ok p), .unmarshal h, .lookup h now, .delete h],
          EndpointState.move ⟨obj, es.nonces.erase (rt.nonce obj),
            Function.update es.phase h (.found p (rt.nonce obj)), es.calls⟩ h
            (.accepted p (rt.nonce obj)), ?_, rfl, p, rfl, EndpointState.move_phase_self ..⟩
        simp [run_cons, endpointStep, EndpointState.move, hp, hu, hl]

end Receiving

/-! ## The running server -/

/-- The server between two steps. -/
structure ServerState (β : Type) (unmarshalKey : Json → Except String JSONWebKey)
    extends Guarded β where
  nonces : NonceTable
  /-- The objects `makeHandlerFunc` made, one for each endpoint. -/
  objs : ∀ e : Endpoint, (e.request unmarshalKey).Obj
  /-- The endpoint of the request that has been accepted and not been handled yet. -/
  pending : Option Endpoint

/-- What can happen to the server.  `receive` takes a request up to its verdict, `handle`
runs the handler of an accepted one; `issue` is a `handleNonce`, `sweep` an iteration of
`expireNonces`.

A handler hands parts of its object over to the configuration, and what changes those later
changes the object: `left` is what the objects hold after the handler.  In turn `edit` is
whatever else changes the configuration: health checks and elections, and an `Unmarshal`
into an object that still shares its peers and zones with the configuration. -/
inductive ServerAct (β : Type) (unmarshalKey : Json → Except String JSONWebKey)
  | receive (e : Endpoint) (body : Body (e.request unmarshalKey)) (now : ℤ)
  | handle (env : Env) (uptime : ℤ) (left : ∀ e : Endpoint, (e.request unmarshalKey).Obj)
  | edit (node : Node β)
  | issue (now : ℤ) (reads : List RandRead)
  | sweep (now : ℤ) (n : Nonce)

section Server

variable {β : Type} {unmarshalKey : Json → Except String JSONWebKey}

/-- After `Start`. -/
def ServerState.init (unmarshalKey : Json → Except String JSONWebKey) (node : Node β) :
    ServerState β unmarshalKey where
  node := node
  held := false
  nonces := ∅
  objs e := (e.request unmarshalKey).new
  pending := none

/-- The server after the verdict on a request. -/
def ServerState.judged (s : ServerState β unmarshalKey) (e : Endpoint)
    (r : Except Rejection Unit × (e.request unmarshalKey).Obj × NonceTable) :
    ServerState β unmarshalKey :=
  { s with
    objs := Function.update s.objs e r.2.1
    nonces := r.2.2
    pending := if r.1.isOk then some e else none }

/-- Execute one step; `none` when it cannot be taken.  With `configMutex` held, a body that
is to be decrypted waits for its read lock. -/
def serverStep (lib : Libraries β) (expireTime : ℤ) (s : ServerState β unmarshalKey) :
    ServerAct β unmarshalKey → Option (ServerState β unmarshalKey)
  | .receive e body now =>
    if s.pending.isSome then none
    else
      match body, s.held with
      | .unparsed _, _ => some s
      | _, true => none
      | body, false =>
        some (s.judged e
          (handleValidateNonce (e.request unmarshalKey) expireTime now s.nonces (s.objs e)
            body.plain))
  | .handle env uptime left =>
    s.pending.map fun e =>
      { s with
        toGuarded := (handler unmarshalKey lib env uptime e (s.objs e)).leaves s.toGuarded
        objs := left
        pending := none }
  | .edit node => some { s with node := node }
  | .issue now reads => (handleNonce now reads s.nonces).map fun r => { s with nonces := r.2 }
  | .sweep now n => some { s with nonces := sweepEntry expireTime now s.nonces n }

variable {lib : Libraries β} {expireTime : ℤ} {s s' : ServerState β unmarshalKey}

/-- A step that neither runs a handler nor edits the configuration. -/
def ServerAct.Aside : ServerAct β unmarshalKey → Prop
  | .handle _ _ _ => False
  | .edit _ => False
  | _ => True

/-- Such a step leaves the configuration, the disk and the mutex alone. -/
theorem guarded_of_aside {a : ServerAct β unmarshalKey} (ha : a.Aside)
    (hstep : serverStep lib expireTime s a = some s') : s'.toGuarded = s.toGuarded := by
  cases a with
  | receive e body now =>
    simp only [serverStep] at hstep
    split at hstep
    · exact absurd hstep (by simp)
    split at hstep
    · rw [← Option.some.inj hstep]
    · exact absurd hstep (by simp)
    · rw [← Option.some.inj hstep]
      rfl
  | handle env uptime left => exact absurd ha id
  | edit node => exact absurd ha id
  | issue now reads =>
    obtain ⟨r, -, rfl⟩ := Option.map_eq_some_iff.mp hstep
    rfl
  | sweep now n => rw [← Option.some.inj hstep]

/-- A step that runs a handler. -/
theorem serverStep_handle {env : Env} {uptime : ℤ}
    {left : ∀ e : Endpoint, (e.request unmarshalKey).Obj}
    (hstep : serverStep lib expireTime s (.handle env uptime left) = some s') :
    ∃ e, s.pending = some e ∧ s'.pending = none ∧
      s'.toGuarded = (handler unmarshalKey lib env uptime e (s.objs e)).leaves s.toGuarded := by
  obtain ⟨e, he, rfl⟩ := Option.map_eq_some_iff.mp hstep
  exact ⟨e, he, rfl, rfl⟩

/-- A step that receives a body which decrypts. -/
theorem serverStep_receive {e : Endpoint} {p : (e.request unmarshalKey).Plain} {now : ℤ}
    (hstep : serverStep lib expireTime s (.receive e (.opened p) now) = some s') :
    s.pending = none ∧ s.held = false ∧
      s' = s.judged e
        (handleValidateNonce (e.request unmarshalKey) expireTime now s.nonces (s.objs e)
          (.ok p)) := by
  simp only [serverStep] at hstep
  split at hstep
  · exact absurd hstep (by simp)
  next hidle =>
    rw [Bool.not_eq_true, Option.isSome_eq_false_iff, Option.isNone_iff_eq_none] at hidle
    cases hheld : s.held with
    | true =>
      rw [hheld] at hstep
      exact absurd hstep (by simp)
    | false =>
      rw [hheld] at hstep
      exact ⟨hidle, rfl, (Option.some.inj hstep).symm⟩

end Server

end Border
