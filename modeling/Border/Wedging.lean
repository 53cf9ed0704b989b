/-
# Can a request wedge the control server?

`ReplaceConfig` and `handlePeerRegister` (`pkg/controlserver`) take `configMutex`, follow
pointers of the request and of the configuration, and release the mutex by a plain
`Unlock`.  A nil pointer panics; `net/http` recovers the panic, and the mutex stays held.
From then on no body can be decrypted, since `handlePut` waits for its read lock.

* `handler_held_iff` : a handler leaves the mutex free exactly when it meets no nil pointer
  between `Lock` and `Unlock`;
* `configMutex_free` : in every run whose handlers meet none the mutex is free in every
  state, and the first one that does ends all later requests;
* `wedged_by_update` : an update that carries nothing but its nonce.
-/
import Border.ConfigUpdate
import Border.Election
import Border.Endpoints

namespace Border

open GoJson Transition

/-! ## Edits that come to their end -/

section Edits

variable {β : Type}

/-- `ReplaceConfig` needs a configuration. -/
theorem copyConfig_ok_iff {newConfig : Option Config} {newChain : List String} {node : Node β} :
    (∃ node', (copyConfig newConfig newChain).run node = .ok () node') ↔ newConfig.isSome := by
  cases newConfig with
  | none =>
    exact ⟨fun ⟨_, h⟩ => absurd h (by simp [copyConfig, EStateM.run]), fun h => absurd h (by simp)⟩
  | some c => exact ⟨fun _ => rfl, fun _ => ⟨_, rfl⟩⟩

/-- The loop of `handlePeerRegister` asks every peer for its name, and for each of them the
peer of the request. -/
theorem registerPeer_ok_iff {peer : Option Peer} {peers : List (Option Peer)} :
    (∃ peers', registerPeer peer peers = .ok peers') ↔
      peers = [] ∨ Named peer ∧ ∀ q ∈ peers, Named q := by
  induction peers with
  | nil => exact ⟨fun _ => Or.inl rfl, fun _ => ⟨[], rfl⟩⟩
  | cons q peers ih =>
    constructor
    · rintro ⟨peers', h⟩
      obtain ⟨name, hname, h⟩ := bind_ok h
      obtain ⟨newName, hnewName, h⟩ := bind_ok h
      obtain ⟨rest, hrest, -⟩ := bind_ok h
      refine Or.inr ⟨⟨newName, hnewName⟩, ?_⟩
      intro r hr
      rcases List.mem_cons.mp hr with rfl | hr
      · exact ⟨name, hname⟩
      · rcases ih.mp ⟨rest, hrest⟩ with rfl | ⟨-, hnamed⟩
        · exact absurd hr List.not_mem_nil
        · exact hnamed r hr
    · rintro (h | ⟨hpeer, hnamed⟩)
      · exact absurd h (by simp)
      · obtain ⟨name, hname⟩ := hnamed q List.mem_cons_self
        obtain ⟨newName, hnewName⟩ := hpeer
        obtain ⟨rest, hrest⟩ := ih.mpr
          (Or.inr ⟨⟨newName, hnewName⟩, fun r hr => hnamed r (List.mem_cons_of_mem _ hr)⟩)
        refine ⟨(if name = newName then peer else q) :: rest, ?_⟩
        rw [registerPeer, hname, hnewName, hrest]
        rfl

theorem editPeers_ok_iff {peer : Option Peer} {node : Node β} :
    (∃ node', (editPeers peer).run node = .ok () node') ↔
      node.config.peers.elems = [] ∨ Named peer ∧ ∀ q ∈ node.config.peers.elems, Named q := by
  rw [← registerPeer_ok_iff]
  cases h : registerPeer peer node.config.peers.elems with
  | error e =>
    refine ⟨fun ⟨node', hrun⟩ => ?_, fun ⟨_, hpeers⟩ => absurd hpeers (by simp)⟩
    rw [EStateM.run, editPeers, h] at hrun
    exact absurd hrun (by simp)
  | ok peers =>
    refine ⟨fun _ => ⟨peers, rfl⟩,
      fun _ => ⟨{ node with config := { node.config with peers := some peers } }, ?_⟩⟩
    rw [EStateM.run, editPeers, h]

end Edits

/-! ## The mutex after a handler -/

section Server

variable {β : Type} {unmarshalKey : Json → Except String JSONWebKey}

/-- No nil pointer is followed under the mutex: an update carries a configuration; and when
peers are configured, all of them and the one to be registered have a key. -/
def NilFree (c : Config) : (e : Endpoint) → (e.request unmarshalKey).Obj → Prop
  | .configUpdate, req => (ConfigUpdate.config req).isSome
  | .peerRegister, req =>
    c.peers.elems = [] ∨ Named (PeerRegistration.peer req) ∧ ∀ q ∈ c.peers.elems, Named q
  | _, _ => True

/-- Saving and reloading do not touch the mutex. -/
theorem leaves_saveConfig (lib : Libraries β) (env : Env) (node : Node β) :
    ((Handler.lift (saveConfig lib env) >>= fun _ => pure Message.nil).leaves
      ⟨node, false⟩).held = false :=
  Handler.leaves_lift_bind ⟨node, false⟩ fun _ _ => rfl

/-- **A handler leaves the mutex free exactly when it meets no nil pointer under it.** -/
theorem handler_held_iff (lib : Libraries β) (env : Env) (uptime : ℤ) (e : Endpoint)
    (req : (e.request unmarshalKey).Obj) (node : Node β) :
    ((handler unmarshalKey lib env uptime e req).leaves ⟨node, false⟩).held = false ↔
      NilFree node.config e req := by
  cases e with
  | configUpdate =>
    show ((lockedReplaceConfig lib env (ConfigUpdate.config req) node.config.chain >>=
      fun _ => pure Message.nil).leaves ⟨node, false⟩).held = false ↔ _
    rw [lockedReplaceConfig, bind_assoc, Handler.leaves_locked ⟨node, false⟩
      (leaves_saveConfig lib env)]
    exact copyConfig_ok_iff
  | peerRegister =>
    show ((Handler.locked (editPeers (PeerRegistration.peer req)) >>= fun _ =>
      Handler.lift (saveConfig lib env) >>= fun _ => pure Message.nil).leaves
        ⟨node, false⟩).held = false ↔ _
    rw [Handler.leaves_locked ⟨node, false⟩ (leaves_saveConfig lib env)]
    exact editPeers_ok_iff
  | configReload =>
    have h : ((Handler.lift (handleConfigReload lib env) >>= fun _ => pure Message.nil).leaves
        ⟨node, false⟩).held = false :=
      Handler.leaves_lift_bind ⟨node, false⟩ fun _ _ => rfl
    exact ⟨fun _ => trivial, fun _ => h⟩
  | identifyPublisher => exact ⟨fun _ => trivial, fun _ => Handler.leaves_lift _ ⟨node, false⟩⟩
  | _ => exact ⟨fun _ => trivial, fun _ => rfl⟩

/-! ## Runs -/

/-- A step whose handler, if it is one, meets no nil pointer under the mutex. -/
def MeetsNoNil (s : ServerState β unmarshalKey) : ServerAct β unmarshalKey → Prop
  | .handle _ _ _ => ∀ e ∈ s.pending, NilFree s.node.config e (s.objs e)
  | _ => True

variable {lib : Libraries β} {expireTime : ℤ} {s s' : ServerState β unmarshalKey}

/-- **One handler**: the mutex is free after it exactly when it met no nil pointer. -/
theorem held_of_handle {env : Env} {uptime : ℤ}
    {left : ∀ e : Endpoint, (e.request unmarshalKey).Obj} (hs : s.held = false)
    (hstep : serverStep lib expireTime s (.handle env uptime left) = some s') :
    s'.held = false ↔ MeetsNoNil s (.handle env uptime left) := by
  obtain ⟨e, he, -, hguarded⟩ := serverStep_handle hstep
  have hfree : s.toGuarded = ⟨s.node, false⟩ := by rw [← hs]
  rw [hguarded, hfree, handler_held_iff]
  constructor
  · intro hnil e' he'
    obtain rfl := Option.some.inj (he.symm.trans he')
    exact hnil
  · exact fun hnil => hnil e he

/-- The mutex is held, and nobody is left to release it. -/
def Wedged (s : ServerState β unmarshalKey) : Prop := s.held = true ∧ s.pending = none

/-- **A wedged server stays wedged.** -/
theorem wedged_step {a : ServerAct β unmarshalKey} (hs : Wedged s)
    (hstep : serverStep lib expireTime s a = some s') : Wedged s' := by
  cases a with
  | receive e body now =>
    cases body with
    | unparsed msg =>
      simp only [serverStep, hs.2, Option.isSome_none, Bool.false_eq_true, if_false] at hstep
      rw [← Option.some.inj hstep]
      exact hs
    | undecrypted msg => simp [serverStep, hs.1, hs.2] at hstep
    | opened p => simp [serverStep, hs.1, hs.2] at hstep
  | handle env uptime left =>
    obtain ⟨e, he, -⟩ := serverStep_handle hstep
    exact absurd (hs.2.symm.trans he) (by simp)
  | edit node =>
    rw [← Option.some.inj hstep]
    exact hs
  | issue now reads =>
    obtain ⟨r, -, rfl⟩ := Option.map_eq_some_iff.mp hstep
    exact hs
  | sweep now n =>
    rw [← Option.some.inj hstep]
    exact hs

/-- A body that is to be decrypted waits for the mutex. -/
theorem Wedged.receive (hs : Wedged s) (e : Endpoint) {body : Body (e.request unmarshalKey)}
    (hbody : ∀ msg, body ≠ .unparsed msg) (now : ℤ) :
    serverStep lib expireTime s (.receive e body now) = none := by
  cases body with
  | unparsed msg => exact absurd rfl (hbody msg)
  | undecrypted msg => simp [serverStep, hs.1, hs.2]
  | opened p => simp [serverStep, hs.1, hs.2]

/-- **When no request wedges the server.**  In every run whose handlers meet no nil pointer
under the mutex, `configMutex` is free in every state.  From a state of such a run, a
handler leaves it free exactly when it meets none; otherwise the server is wedged, and no
later request gets further than the read lock of `handlePut`. -/
theorem configMutex_free {node : Node β} {as : List (ServerAct β unmarshalKey)}
    (hG : Along (serverStep lib expireTime) MeetsNoNil (.init unmarshalKey node) as)
    (hrun : run (serverStep lib expireTime) (.init unmarshalKey node) as = some s) :
    s.held = false ∧
      ∀ env uptime left s', serverStep lib expireTime s (.handle env uptime left) = some s' →
        (s'.held = false ↔ MeetsNoNil s (.handle env uptime left)) ∧
        (¬ MeetsNoNil s (.handle env uptime left) →
          ∀ bs t, run (serverStep lib expireTime) s' bs = some t →
            Wedged t ∧ ∀ e body now, (∀ msg, body ≠ .unparsed msg) →
              serverStep lib expireTime t (.receive e body now) = none) := by
  have hs : s.held = false := by
    refine run_invariant_along (P := fun s => s.held = false) ?_ rfl hG hrun
    intro s a s' hs hnil hstep
    cases a with
    | handle env uptime left => exact (held_of_handle hs hstep).mpr hnil
    | edit node =>
      rw [← Option.some.inj hstep]
      exact hs
    | _ =>
      have hguarded : s'.toGuarded = s.toGuarded := guarded_of_aside (by trivial) hstep
      rw [hguarded]
      exact hs
  refine ⟨hs, fun env uptime left s' hstep => ⟨held_of_handle hs hstep, ?_⟩⟩
  intro hnil bs t hbs
  have hs' : Wedged s' := by
    obtain ⟨e, -, hidle, -⟩ := serverStep_handle hstep
    refine ⟨?_, hidle⟩
    rw [← Bool.not_eq_false, held_of_handle hs hstep]
    exact hnil
  have ht : Wedged t := run_invariant (fun _ _ _ hw hstep => wedged_step hw hstep) hs' hbs
  exact ⟨ht, fun e body now hbody => ht.receive e hbody now⟩

/-! ## A registration, and an update without a configuration -/

instance (c : Config) : ∀ (e : Endpoint) (req : (e.request unmarshalKey).Obj),
    Decidable (NilFree c e req)
  | .configUpdate, req => inferInstanceAs (Decidable ((ConfigUpdate.config req).isSome = true))
  | .peerRegister, req => inferInstanceAs (Decidable (c.peers.elems = [] ∨
      Named (PeerRegistration.peer req) ∧ ∀ q ∈ c.peers.elems, Named q))
  | .authCheck, _ => isTrue trivial
  | .configReload, _ => isTrue trivial
  | .identifyPublisher, _ => isTrue trivial
  | .uptime, _ => isTrue trivial
  | .ping, _ => isTrue trivial
  | .configChain, _ => isTrue trivial
  | .configFetch, _ => isTrue trivial

instance (s : ServerState β unmarshalKey) : ∀ a, Decidable (MeetsNoNil s a)
  | .handle _ _ _ => inferInstanceAs
      (Decidable (∀ e ∈ s.pending, NilFree s.node.config e (s.objs e)))
  | .receive _ _ _ => isTrue trivial
  | .edit _ => isTrue trivial
  | .issue _ _ => isTrue trivial
  | .sweep _ _ => isTrue trivial

end Server

/-- Every key is read as the key of foo. -/
def fooKey (_ : Json) : Except String JSONWebKey := .ok ⟨[], "foo", "A256KW"⟩

/-- Foo registers with a new address. -/
def registrationRun : List (ServerAct ConfigData fooKey) :=
  [.issue 0 [zeroRead],
    .receive .peerRegister (.opened (.ok (.obj [("nonce", .str zeroNonceText),
      ("peer", .obj [("control_server", .str "10.0.0.1:5309"), ("key", .obj [])])]))) 1,
    .handle calmEnv 1 fun e => (e.request fooKey).new]

theorem configMutex_free_registration :
    ∃ s, run (serverStep plainLibraries 30) (.init fooKey onePeerNode) registrationRun = some s ∧
      s.held = false ∧ s.node.config.reload = true := by
  obtain ⟨hG, hrun⟩ : Along (serverStep plainLibraries 30) MeetsNoNil (.init fooKey onePeerNode)
        registrationRun ∧
      (run (serverStep plainLibraries 30) (.init fooKey onePeerNode) registrationRun).any
        (fun s => s.node.config.reload) = true := by decide +kernel
  obtain ⟨s, hs, hreload⟩ := (Option.any_eq_true _ _).mp hrun
  exact ⟨s, hs, (configMutex_free hG hs).1, hreload⟩

/-- An update without a configuration. -/
def emptyUpdate : List (ServerAct ConfigData fooKey) :=
  [.issue 0 [zeroRead],
    .receive .configUpdate (.opened (.ok (.obj [("nonce", .str zeroNonceText)]))) 1,
    .handle calmEnv 1 fun e => (e.request fooKey).new]

/-- **An update that carries nothing but its nonce wedges the server**: its handler panics
under the mutex, and a ping that comes later is not decrypted. -/
theorem wedged_by_update :
    ∃ s, run (serverStep plainLibraries 30) (.init fooKey onePeerNode) emptyUpdate = some s ∧
      s.held = true ∧ s.pending = none ∧
      ∀ p now, serverStep plainLibraries 30 s (.receive .ping (.opened p) now) = none := by
  have hrun : (run (serverStep plainLibraries 30) (.init fooKey onePeerNode) emptyUpdate).any
      (fun s => s.held = true ∧ s.pending = none) = true := by decide +kernel
  obtain ⟨s, hs, hwedged⟩ := (Option.any_eq_true _ _).mp hrun
  obtain ⟨hheld, hidle⟩ := of_decide_eq_true hwedged
  have hs' : Wedged s := ⟨hheld, hidle⟩
  exact ⟨s, hs, hheld, hidle, fun p now => hs'.receive .ping (fun _ => by simp) now⟩

end Border
