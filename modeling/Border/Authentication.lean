/-
# Who can make the control server act?

The control server (`pkg/controlserver/controlserver.go`) and its clients
(`pkg/controlclient/controlclient.go`) over a network that somebody else controls: every message
that passes is recorded, and what is delivered is what was recorded, in any order and as often as
wanted, to any endpoint, or made with keys that have been given away.  The keys of the server are
not among those.  Clients of this and of other servers ask for nonces and seal requests, whatever
they are given for a nonce; other servers that hold the same keys answer.  The server handles one
request at a time: it receives it and comes to its verdict in one step (`serverStep`).

* `accepted_authentic` : every request that is accepted at an endpoint with a JSON body was sealed
  by a client with the key of the endpoint, after the server issued the nonce in it, and before
  the nonce expired; and no nonce is accepted twice;
* `redirected_wedges` : which endpoint the client meant is not part of what is sealed: a request
  without a configuration that is delivered to `configUpdate` stops the server.
-/
import Border.ControlClient
import Border.SealedMessages
import Border.Wedging

namespace Border

open GoJson Transition Sealed History

/-! ## What a plaintext does to the object of an endpoint -/

section Plaintexts

variable (unmarshalKey : Json → Except String JSONWebKey)

/-- What a body that gives nothing long to the nonce leaves there. -/
theorem unmarshalJSON_short {σ : Type} (get : σ → List UInt8) {d : Decoder σ} {s : σ} {n : ℕ}
    {body : JsonBody}
    (hd : ∀ j, body = .ok j → (get (d j s).1).length ≤ n ∨ get (d j s).1 = get s) :
    (get (unmarshalJSON d body s).1).length ≤ n ∨ get (unmarshalJSON d body s).1 = get s := by
  cases body with
  | error msg => exact Or.inr rfl
  | ok j => exact hd j rfl

/-- **A message of a server makes the nonce of an object too short for one, or leaves it as it
is.** -/
theorem nonce_of_message {codec : KeyCodec} {m : Message} {bytes : List UInt8}
    (hm : m.marshal codec = .ok bytes) {e : Endpoint} (he : e ≠ .authCheck)
    (obj : (e.request unmarshalKey).Obj) :
    ((e.request unmarshalKey).nonce
        ((e.request unmarshalKey).unmarshal (e.plain unmarshalKey bytes) obj).1).length
          ≤ nonceSize - 1 ∨
      (e.request unmarshalKey).nonce
          ((e.request unmarshalKey).unmarshal (e.plain unmarshalKey bytes) obj).1
        = (e.request unmarshalKey).nonce obj := by
  have hbody : ∀ j, readBody bytes = .ok j → ∀ v ∈ j.under "nonce", v.breadth ≤ nonceSize - 1 :=
    fun j hj => plaintext_light (plaintext_marshal hm) (readBody_ok hj)
  cases e with
  | authCheck => exact absurd rfl he
  | configUpdate =>
    refine unmarshalJSON_short (σ := ConfigUpdate) ConfigUpdate.nonceValue fun j hj => ?_
    exact bytesField_short (σ := ConfigUpdate) (fun _ _ => rfl) (by simp [field]) (hbody j hj) obj
  | peerRegister =>
    refine unmarshalJSON_short (σ := PeerRegistration) PeerRegistration.nonceValue fun j hj => ?_
    exact bytesField_short (σ := PeerRegistration) (fun _ _ => rfl) (by simp [field]) (hbody j hj) obj
  | _ =>
    refine unmarshalJSON_short (σ := NonceOnly) NonceOnly.nonceValue fun j hj => ?_
    exact bytesField_short (σ := NonceOnly) (fun _ _ => rfl) (by simp) (hbody j hj) obj

/-- What follows the nonce in the document of a request, and that it can be decoded into any
object. -/
inductive RequestRest (unmarshalKey : Json → Except String JSONWebKey) : List (String × Json) → Prop
  | none : RequestRest unmarshalKey []
  | config {j : Json}
      (h : ∀ old, (decodePtr (Config.new []) (decodeConfig unmarshalKey) j old).2 = .ok) :
      RequestRest unmarshalKey [("config", j)]
  | peer {j : Json} (h : ∀ old, (decodePeerPtr unmarshalKey j old).2 = .ok) :
      RequestRest unmarshalKey [("peer", j)]

/-- The text of a request with a JSON body. -/
theorem marshal_document {codec : KeyCodec} (hcodec : codec.Lawful) {r : APIRequest}
    (hformed : r.Formed) (hr : r.endpoint ≠ .authCheck) {n bytes : List UInt8}
    (h : r.marshal codec n = .ok bytes) :
    ∃ rest, bytes = render (.obj (("nonce", encodeBytes n) :: rest)) ∧
      RequestRest codec.unmarshal rest ∧
      (r.endpoint ≠ .configUpdate → ∀ j, rest ≠ [("config", j)]) := by
  cases r with
  | authCheck => exact absurd rfl hr
  | configUpdate config =>
    obtain ⟨j, hj, h⟩ := exists_of_bind h
    cases h
    have hread := reads_configPtr hcodec (fun d hd => by subst hd; exact hformed) hj
    have hsteady : GoJson.Steady (decodeConfig codec.unmarshal) := fun j _ _ =>
      steady_configData codec.unmarshal j _ _
    refine ⟨_, rfl, .config fun old => ?_, fun hne => absurd rfl hne⟩
    rw [steady_ptr hsteady j old none, hread]
  | peerRegister peer =>
    obtain ⟨j, hj, h⟩ := exists_of_bind h
    cases h
    have hread : decodePeerPtr codec.unmarshal j none = (peer.map Peer.normal, .ok) :=
      reads_ptr hj fun p j _ hj => reads_peer hcodec hj
    refine ⟨_, rfl, .peer fun old => ?_, fun _ _ => by simp⟩
    rw [steady_peerPtr codec.unmarshal j old none, hread]
  | _ =>
    cases h
    exact ⟨[], rfl, .none, fun _ _ => by simp⟩

theorem foldKey_nonce_config : foldKey "nonce" ≠ foldKey "config" := by decide +kernel

theorem foldKey_nonce_peer : foldKey "nonce" ≠ foldKey "peer" := by decide +kernel

theorem foldKey_config_peer : foldKey "config" ≠ foldKey "peer" := by decide +kernel

variable {unmarshalKey}

/-- A request that carries nothing but a nonce takes it from the document of every request. -/
theorem nonceOnly_of_document (endpoint : String) {rest : List (String × Json)}
    (hrest : RequestRest unmarshalKey rest) (n : List UInt8) (obj : NonceOnly) :
    (nonceOnlyRequest endpoint).unmarshal
        (readBody (render (.obj (("nonce", encodeBytes n) :: rest)))) obj = (⟨n⟩, none) := by
  show unmarshalJSON decodeNonceOnly _ obj = _
  rw [readBody_render]
  cases hrest with
  | none =>
    simp [unmarshalJSON, decodeNonceOnly, decodeStruct, decodeFields, findField, field,
      decodeBytes_encodeBytes, Status.andThen, Status.error]
    rfl
  | config h =>
    simp [unmarshalJSON, decodeNonceOnly, decodeStruct, decodeFields, findField, field,
      decodeBytes_encodeBytes, Status.andThen, Status.error, foldKey_nonce_config]
    rfl
  | peer h =>
    simp [unmarshalJSON, decodeNonceOnly, decodeStruct, decodeFields, findField, field,
      decodeBytes_encodeBytes, Status.andThen, Status.error, foldKey_nonce_peer]
    rfl

/-- An update takes the nonce, and a configuration if there is one. -/
theorem configUpdate_of_document {rest : List (String × Json)}
    (hrest : RequestRest unmarshalKey rest) (n : List UInt8) (obj : ConfigUpdate) :
    ∃ config, (configUpdateRequest unmarshalKey).unmarshal
        (readBody (render (.obj (("nonce", encodeBytes n) :: rest)))) obj = (⟨n, config⟩, none) ∧
      ((∀ j, rest ≠ [("config", j)]) → config = obj.config) := by
  show ∃ config, unmarshalJSON _ _ obj = _ ∧ _
  rw [readBody_render]
  cases hrest with
  | none =>
    refine ⟨obj.config, ?_, fun _ => rfl⟩
    simp [unmarshalJSON, decodeStruct, decodeFields, findField, field,
      decodeBytes_encodeBytes, Status.andThen, Status.error]
    rfl
  | @config j h =>
    refine ⟨(decodePtr (Config.new []) (decodeConfig unmarshalKey) j obj.config).1, ?_,
      fun hne => absurd rfl (hne j)⟩
    simp [unmarshalJSON, decodeStruct, decodeFields, findField, field,
      decodeBytes_encodeBytes, Status.andThen, Status.error, h]
    rfl
  | peer h =>
    refine ⟨obj.config, ?_, fun _ => rfl⟩
    simp [unmarshalJSON, decodeStruct, decodeFields, findField, field,
      decodeBytes_encodeBytes, Status.andThen, Status.error, foldKey_nonce_peer,
      foldKey_config_peer]
    rfl

/-- A registration takes the nonce, and a peer if there is one. -/
theorem peerRegistration_of_document {rest : List (String × Json)}
    (hrest : RequestRest unmarshalKey rest) (n : List UInt8) (obj : PeerRegistration) :
    ∃ peer, (peerRegistrationRequest unmarshalKey).unmarshal
        (readBody (render (.obj (("nonce", encodeBytes n) :: rest)))) obj = (⟨n, peer⟩, none) := by
  show ∃ peer, unmarshalJSON _ _ obj = _
  rw [readBody_render]
  cases hrest with
  | none =>
    refine ⟨obj.peer, ?_⟩
    simp [unmarshalJSON, decodeStruct, decodeFields, findField, field,
      decodeBytes_encodeBytes, Status.andThen, Status.error]
    rfl
  | config h =>
    refine ⟨obj.peer, ?_⟩
    simp [unmarshalJSON, decodeStruct, decodeFields, findField, field,
      decodeBytes_encodeBytes, Status.andThen, Status.error, foldKey_nonce_config,
      foldKey_config_peer.symm]
    rfl
  | @peer j h =>
    refine ⟨(decodePeerPtr unmarshalKey j obj.peer).1, ?_⟩
    simp [unmarshalJSON, decodeStruct, decodeFields, findField, field,
      decodeBytes_encodeBytes, Status.andThen, Status.error, h]
    rfl

/-- **Every endpoint with a JSON body takes every request with one**, and takes the nonce from
it. -/
theorem unmarshal_request {codec : KeyCodec} (hcodec : codec.Lawful) {r : APIRequest}
    (hformed : r.Formed) (hr : r.endpoint ≠ .authCheck) {n bytes : List UInt8}
    (h : r.marshal codec n = .ok bytes) {e : Endpoint} (he : e ≠ .authCheck)
    (obj : (e.request codec.unmarshal).Obj) :
    ∃ obj', (e.request codec.unmarshal).unmarshal (e.plain codec.unmarshal bytes) obj
        = (obj', none) ∧ (e.request codec.unmarshal).nonce obj' = n := by
  obtain ⟨rest, rfl, hrest, -⟩ := marshal_document hcodec hformed hr h
  cases e with
  | authCheck => exact absurd rfl he
  | configUpdate =>
    obtain ⟨config, hu, -⟩ := configUpdate_of_document hrest n obj
    exact ⟨_, hu, rfl⟩
  | peerRegister =>
    obtain ⟨peer, hu⟩ := peerRegistration_of_document hrest n obj
    exact ⟨_, hu, rfl⟩
  | _ => exact ⟨_, nonceOnly_of_document _ hrest n obj, rfl⟩

end Plaintexts

/-! ## The network -/

/-- What has happened, as far as it concerns who may act. -/
inductive NetEvent
  /-- The server issued a nonce. -/
  | issued (n : Nonce) (t : ℤ)
  /-- A client sealed a request with a key and what it took for its nonce. -/
  | sent (key : List UInt8) (n : List UInt8) (r : APIRequest)
  /-- The server accepted a plaintext at an endpoint, and the nonce it found there. -/
  | accepted (e : Endpoint) (plain : List UInt8) (n : Nonce) (t : ℤ)

/-- The server, all that has been on the network, what has happened, newest first, and the time of
the last step that looked at the clock. -/
structure NetState {β : Type} (svc : Service β) where
  server : svc.State
  seen : List (Box (List UInt8) (List UInt8))
  log : List NetEvent
  clock : ℤ

/-- What can happen.  `request` is a client that is given a message for a nonce, `foreign` the
answer of another server that holds a key, `deliver` brings a message to an endpoint, and the
others are steps of the server. -/
inductive NetAct {β : Type} (svc : Service β)
  | nonce (peer : Bool) (now : ℤ) (reads : List RandRead)
  | request (reply : Box (List UInt8) (List UInt8)) (r : APIRequest)
  | foreign (key : List UInt8) (m : Message)
  | deliver (e : Endpoint) (box : Box (List UInt8) (List UInt8)) (now : ℤ)
  | handle (env : Env) (uptime : ℤ) (left : ∀ e : Endpoint, (e.request svc.codec.unmarshal).Obj)
  | edit (node : Node β)
  | sweep (now : ℤ) (n : Nonce)

section Network

variable {β : Type} {svc : Service β}

/-- After `Start`. -/
def NetState.init (svc : Service β) (node : Node β) (clock : ℤ) : NetState svc :=
  ⟨.init svc.codec.unmarshal node, [], [], clock⟩

/-- The nonce in the object of an endpoint. -/
def NetState.nonceOf (s : NetState svc) (e : Endpoint) : Nonce :=
  (e.request svc.codec.unmarshal).nonce (s.server.objs e)

/-- A message at an endpoint: it opens with the key of the endpoint, or not at all. -/
def deliveredBody (svc : Service β) (e : Endpoint) (box : Box (List UInt8) (List UInt8)) :
    Body (e.request svc.codec.unmarshal) :=
  if box.key = (svc.keys.of e).key then .opened (e.plain svc.codec.unmarshal box.plain)
  else .undecrypted "go-jose/go-jose: error in cryptographic primitive"

/-- What is sealed of a text, if there is one. -/
def sealed (key : List UInt8) : Except String (List UInt8) → List (Box (List UInt8) (List UInt8))
  | .ok bytes => [⟨key, bytes⟩]
  | .error _ => []

/-- The answer of a handler. -/
def answered (svc : Service β) (e : Endpoint) :
    EStateM.Result Failure (Guarded β) Message → List (Box (List UInt8) (List UInt8))
  | .ok m _ => sealed (svc.keys.of e).key (m.marshal svc.codec)
  | .error _ _ => []

/-- The log after the verdict on a plaintext. -/
def logVerdict (e : Endpoint) (plain : List UInt8) (server : svc.State) (now : ℤ)
    (log : List NetEvent) : List NetEvent :=
  if server.pending.isSome then
    .accepted e plain ((e.request svc.codec.unmarshal).nonce (server.objs e)) now :: log
  else log

/-- One step; `holds` are the keys that have been given away. -/
def netStep (svc : Service β) (holds : List UInt8 → Bool) (s : NetState svc) :
    NetAct svc → Option (NetState svc)
  | .nonce peer now reads =>
    (handleNonce now reads s.server.nonces).map fun r =>
      match r.1 with
      | .ok n =>
        ⟨{ s.server with nonces := r.2 }, ⟨(svc.keys.nonceKey peer).key, n⟩ :: s.seen,
          .issued n now :: s.log, now⟩
      | .error _ => ⟨{ s.server with nonces := r.2 }, s.seen, s.log, now⟩
  | .request reply r =>
    if canSend holds s.seen reply then
      match r.marshal svc.codec reply.plain with
      | .ok bytes =>
        some ⟨s.server, ⟨reply.key, bytes⟩ :: s.seen, .sent reply.key reply.plain r :: s.log, s.clock⟩
      | .error _ => some s
    else none
  | .foreign key m => some { s with seen := sealed key (m.marshal svc.codec) ++ s.seen }
  | .deliver e box now =>
    if canSend holds s.seen box then
      (serverStep svc.lib svc.expireTime s.server (.receive e (deliveredBody svc e box) now)).map
        fun server => ⟨server, s.seen, logVerdict e box.plain server now s.log, now⟩
    else none
  | .handle env uptime left =>
    s.server.pending.bind fun e =>
      (serverStep svc.lib svc.expireTime s.server (.handle env uptime left)).map fun server =>
        ⟨server,
          answered svc e ((handler svc.codec.unmarshal svc.lib env uptime e (s.server.objs e)).run
            s.server.toGuarded) ++ s.seen, s.log, s.clock⟩
  | .edit node =>
    (serverStep svc.lib svc.expireTime s.server (.edit node)).map fun server =>
      { s with server := server }
  | .sweep now n =>
    (serverStep svc.lib svc.expireTime s.server (.sweep now n)).map fun server =>
      { s with server := server }

/-! ## Steps of the network -/

section Steps

variable {holds : List UInt8 → Bool} {s s' : NetState svc}

/-- Every step leaves the server alone, or is a step of the server. -/
theorem netStep_server {a : NetAct svc} (hstep : netStep svc holds s a = some s') :
    s'.server = s.server ∨
      ∃ b, serverStep svc.lib svc.expireTime s.server b = some s'.server := by
  cases a with
  | nonce peer now reads =>
    obtain ⟨⟨r, nonces⟩, hr, rfl⟩ := Option.map_eq_some_iff.mp hstep
    refine Or.inr ⟨.issue now reads, ?_⟩
    rw [serverStep, hr]
    cases r <;> rfl
  | request reply r =>
    left
    rw [netStep] at hstep
    split at hstep
    · cases hmarshal : r.marshal svc.codec reply.plain with
      | error e =>
        rw [hmarshal] at hstep
        cases hstep
        rfl
      | ok bytes =>
        rw [hmarshal] at hstep
        cases hstep
        rfl
    · cases hstep
  | foreign key m =>
    cases hstep
    exact Or.inl rfl
  | deliver e box now =>
    rw [netStep] at hstep
    split at hstep
    · obtain ⟨server, hserver, rfl⟩ := Option.map_eq_some_iff.mp hstep
      exact Or.inr ⟨_, hserver⟩
    · cases hstep
  | handle env uptime left =>
    obtain ⟨e, -, hstep⟩ := Option.bind_eq_some_iff.mp hstep
    obtain ⟨server, hserver, rfl⟩ := Option.map_eq_some_iff.mp hstep
    exact Or.inr ⟨_, hserver⟩
  | edit node =>
    cases hstep
    exact Or.inr ⟨.edit node, rfl⟩
  | sweep now n =>
    cases hstep
    exact Or.inr ⟨.sweep now n, rfl⟩

/-- What is logged of an acceptance. -/
theorem logVerdict_ok {e : Endpoint} {plain : List UInt8} {now : ℤ} {log : List NetEvent}
    {obj : (e.request svc.codec.unmarshal).Obj} {nonces : NonceTable} :
    logVerdict e plain (s.server.judged e (.ok (), obj, nonces)) now log
      = .accepted e plain ((e.request svc.codec.unmarshal).nonce obj) now :: log := by
  rw [logVerdict, judged_objs]
  rfl

/-- A message that was seen is accepted by an idle server when it can be unmarshalled and its nonce
is live. -/
theorem netStep_accept (e : Endpoint) {box : Box (List UInt8) (List UInt8)} (hseen : box ∈ s.seen)
    (hkey : box.key = (svc.keys.of e).key) (hidle : s.server.pending = none)
    (hfree : s.server.held = false) {obj : (e.request svc.codec.unmarshal).Obj}
    (hu : (e.request svc.codec.unmarshal).unmarshal (e.plain svc.codec.unmarshal box.plain)
      (s.server.objs e) = (obj, none)) {t now : ℤ}
    (hn : s.server.nonces.lookup ((e.request svc.codec.unmarshal).nonce obj) = some t)
    (hlive : now ≤ t + svc.expireTime) :
    netStep svc holds s (.deliver e box now)
      = some ⟨s.server.judged e
          (.ok (), obj, s.server.nonces.erase ((e.request svc.codec.unmarshal).nonce obj)), s.seen,
        .accepted e box.plain ((e.request svc.codec.unmarshal).nonce obj) now :: s.log, now⟩ := by
  have hl : lookupNonce svc.expireTime now s.server.nonces
      ((e.request svc.codec.unmarshal).nonce obj) = .ok () :=
    (lookupNonce_ok_iff _ _ _ _).mpr ⟨t, hn, hlive⟩
  have hcan : canSend holds s.seen box = true := by
    rw [canSend, decide_eq_true hseen, Bool.or_true]
  rw [netStep, if_pos hcan, deliveredBody, if_pos hkey, serverStep_opened hidle hfree,
    handleValidateNonce_ok hu hl, Option.map_some, logVerdict_ok]

/-- A handler runs. -/
theorem netStep_handle {e : Endpoint} (hpending : s.server.pending = some e) {env : Env} {uptime : ℤ}
    {left : ∀ e : Endpoint, (e.request svc.codec.unmarshal).Obj} {server : svc.State}
    (hstep : serverStep svc.lib svc.expireTime s.server (.handle env uptime left) = some server) :
    netStep svc holds s (.handle env uptime left)
      = some ⟨server, answered svc e ((handler svc.codec.unmarshal svc.lib env uptime e
          (s.server.objs e)).run s.server.toGuarded) ++ s.seen, s.log, s.clock⟩ := by
  rw [netStep, hpending, Option.bind_some, hstep, Option.map_some]

end Steps

/-- Nobody has been issued or has used the nonce. -/
def Unused (log : List NetEvent) (n : Nonce) : Prop :=
  (∀ t, .issued n t ∉ log) ∧ ∀ key r, .sent key n r ∉ log

/-- What the steps are assumed to keep to: time does not go back, the random source does not give
what was used before, configurations that are sent are within the ranges of their types, and what
changes the objects of the endpoints besides the requests does not change their nonces. -/
def NetGuard (s : NetState svc) : NetAct svc → Prop
  | .nonce _ now reads =>
    s.clock ≤ now ∧ ∀ n nonces, handleNonce now reads s.server.nonces = some (.ok n, nonces) →
      Unused s.log n
  | .request _ r => r.Formed
  | .deliver _ _ now => s.clock ≤ now
  | .handle _ _ left =>
    ∀ e : Endpoint, (e.request svc.codec.unmarshal).nonce (left e) = s.nonceOf e
  | _ => True

/-! ## Where messages and acceptances come from -/

/-- A message under a secret key is a request that a client sealed, or a message of a server. -/
def Origin (svc : Service β) (log : List NetEvent) (b : Box (List UInt8) (List UInt8)) : Prop :=
  (∃ n r, .sent b.key n r ∈ log ∧ r.Formed ∧ r.endpoint ≠ .authCheck ∧
    r.marshal svc.codec n = .ok b.plain) ∨
  ∃ m : Message, m.marshal svc.codec = .ok b.plain

/-- What must have happened before an event. -/
def Grounds (svc : Service β) (older : List NetEvent) : NetEvent → Prop
  | .issued n _ => Unused older n
  | .sent _ _ _ => True
  | .accepted e plain n now =>
    (∀ e' plain' t, .accepted e' plain' n t ∉ older) ∧
    ∃ t, .issued n t ∈ older ∧ t ≤ now ∧ now ≤ t + svc.expireTime ∧
      (e ≠ .authCheck → ∃ r, .sent (svc.keys.of e).key n r ∈ older ∧ r.endpoint ≠ .authCheck ∧
        r.marshal svc.codec n = .ok plain)

/-- **The invariant.** -/
structure NetSound (holds : List UInt8 → Bool) (s : NetState svc) : Prop where
  /-- An entry of the nonce table was issued, and has not been accepted. -/
  entries : ∀ n t, s.server.nonces.lookup n = some t → n.length = nonceSize ∧ t ≤ s.clock ∧
    .issued n t ∈ s.log ∧ ∀ e plain t', .accepted e plain n t' ∉ s.log
  /-- The nonce of an object is not one that could still be issued. -/
  objects : ∀ e ≠ .authCheck, (s.nonceOf e).length ≠ nonceSize ∨
    ∃ key r, .sent key (s.nonceOf e) r ∈ s.log
  /-- The nonce of an object has been used up, or has expired. -/
  dead : ∀ e ≠ .authCheck, ∀ t, s.server.nonces.lookup (s.nonceOf e) = some t →
    t + svc.expireTime < s.clock
  boxes : ∀ b ∈ s.seen, holds b.key = false → Origin svc s.log b
  justified : Justified (Grounds svc) s.log

theorem netSound_init (holds : List UInt8 → Bool) (node : Node β) (clock : ℤ) :
    NetSound holds (.init svc node clock) where
  entries n t h := absurd h (by simp [NetState.init, ServerState.init])
  objects e he := by
    have hempty : ([] : List UInt8).length ≠ nonceSize := by decide
    cases e with
    | authCheck => exact absurd rfl he
    | _ => exact Or.inl hempty
  dead e _ t h := absurd h (by simp [NetState.init, ServerState.init])
  boxes b hb := absurd hb List.not_mem_nil
  justified := trivial

/-- More events do not take away an origin. -/
theorem Origin.mono {log : List NetEvent} {b : Box (List UInt8) (List UInt8)} (h : Origin svc log b)
    (e : NetEvent) : Origin svc (e :: log) b := by
  rcases h with ⟨n, r, hsent, h⟩ | h
  · exact Or.inl ⟨n, r, List.mem_cons_of_mem _ hsent, h⟩
  · exact Or.inr h

variable {holds : List UInt8 → Bool} {s s' : NetState svc}

/-- A step that logs nothing: the table may lose entries, and messages of servers may come to what
was seen. -/
theorem NetSound.quiet (hs : NetSound holds s) (hlog : s'.log = s.log) (hclock : s.clock ≤ s'.clock)
    (hnonces : ∀ n t, s'.server.nonces.lookup n = some t → s.server.nonces.lookup n = some t)
    (hobjs : ∀ e, s'.nonceOf e = s.nonceOf e)
    (hseen : ∀ b ∈ s'.seen, b ∈ s.seen ∨ ∃ m : Message, m.marshal svc.codec = .ok b.plain) :
    NetSound holds s' where
  entries n t h := by
    obtain ⟨hsize, ht, hissued, hfresh⟩ := hs.entries n t (hnonces n t h)
    rw [hlog]
    exact ⟨hsize, ht.trans hclock, hissued, hfresh⟩
  objects e he := by
    rw [hobjs, hlog]
    exact hs.objects e he
  dead e he t h := by
    rw [hobjs] at h
    exact (hs.dead e he t (hnonces _ _ h)).trans_le hclock
  boxes b hb hkey := by
    rw [hlog]
    rcases hseen b hb with hb | hm
    · exact hs.boxes b hb hkey
    · exact Or.inr hm
  justified := by
    rw [hlog]
    exact hs.justified

/-- An acceptance comes after the issuing of its nonce. -/
theorem issued_of_accepted {log : List NetEvent} (hlog : Justified (Grounds svc) log) {e : Endpoint}
    {plain : List UInt8} {n : Nonce} {now : ℤ} (h : .accepted e plain n now ∈ log) :
    ∃ t, .issued n t ∈ log := by
  obtain ⟨newer, older, rfl⟩ := List.append_of_mem h
  obtain ⟨-, t, ht, -⟩ := hlog.split.1
  exact ⟨t, List.mem_append_right _ (List.mem_cons_of_mem _ ht)⟩

/-- A nonce is issued. -/
theorem NetSound.issue (hs : NetSound holds s) {peer : Bool} {now : ℤ} {n : Nonce}
    (hsize : n.length = nonceSize) (hclock : s.clock ≤ now) (hunused : Unused s.log n) :
    NetSound holds ⟨{ s.server with nonces := s.server.nonces.insert n now },
      ⟨(svc.keys.nonceKey peer).key, n⟩ :: s.seen, .issued n now :: s.log, now⟩ where
  entries m t h := by
    replace h : (s.server.nonces.insert n now).lookup m = some t := h
    by_cases hm : m = n
    · subst hm
      rw [Finmap.lookup_insert] at h
      cases h
      refine ⟨hsize, le_refl _, List.mem_cons_self, fun e plain t' hacc => ?_⟩
      rcases List.mem_cons.mp hacc with hacc | hacc
      · cases hacc
      · obtain ⟨t, ht⟩ := issued_of_accepted hs.justified hacc
        exact hunused.1 t ht
    · rw [Finmap.lookup_insert_of_ne _ hm] at h
      obtain ⟨hsize, ht, hissued, hfresh⟩ := hs.entries m t h
      refine ⟨hsize, ht.trans hclock, List.mem_cons_of_mem _ hissued, fun e plain t' hacc => ?_⟩
      rcases List.mem_cons.mp hacc with hacc | hacc
      · cases hacc
      · exact hfresh e plain t' hacc
  objects e he := (hs.objects e he).imp id fun ⟨key, r, h⟩ => ⟨key, r, List.mem_cons_of_mem _ h⟩
  dead e he t h := by
    have hne : s.nonceOf e ≠ n := by
      rcases hs.objects e he with hlen | ⟨key, r, hsent⟩
      · exact fun heq => hlen (by rw [heq]; exact hsize)
      · exact fun heq => hunused.2 key r (by rw [← heq]; exact hsent)
    replace h : (s.server.nonces.insert n now).lookup (s.nonceOf e) = some t := h
    rw [Finmap.lookup_insert_of_ne _ hne] at h
    exact (hs.dead e he t h).trans_le hclock
  boxes b hb hkey := by
    rcases List.mem_cons.mp hb with rfl | hb
    · exact Or.inr ⟨.nonce ⟨n, hsize⟩, rfl⟩
    · exact (hs.boxes b hb hkey).mono _
  justified := ⟨hunused, hs.justified⟩

/-- A client seals a request. -/
theorem NetSound.send (hs : NetSound holds s) {key n bytes : List UInt8} {r : APIRequest}
    (hformed : r.Formed) (hmarshal : r.marshal svc.codec n = .ok bytes) :
    NetSound holds ⟨s.server, ⟨key, bytes⟩ :: s.seen, .sent key n r :: s.log, s.clock⟩ where
  entries m t h := by
    obtain ⟨hsize, ht, hissued, hfresh⟩ := hs.entries m t h
    refine ⟨hsize, ht, List.mem_cons_of_mem _ hissued, fun e plain t' hacc => ?_⟩
    rcases List.mem_cons.mp hacc with hacc | hacc
    · cases hacc
    · exact hfresh e plain t' hacc
  objects e he := (hs.objects e he).imp id fun ⟨key, r, h⟩ => ⟨key, r, List.mem_cons_of_mem _ h⟩
  dead := hs.dead
  boxes b hb hkey := by
    rcases List.mem_cons.mp hb with rfl | hb
    · by_cases hr : r.endpoint = .authCheck
      · -- an `AuthCheck` is read like the nonce of a server
        cases r with
        | authCheck =>
          cases hmarshal
          exact Or.inr ⟨.nonce (authCheckRequest.new.copy n), rfl⟩
        | _ => cases hr
      · exact Or.inl ⟨n, r, List.mem_cons_self, hformed, hr, hmarshal⟩
    · exact (hs.boxes b hb hkey).mono _
  justified := ⟨trivial, hs.justified⟩

/-- What a plaintext under a secret key leaves in the object of an endpoint with a JSON body. -/
theorem NetSound.plaintext (hs : NetSound holds s) (hcodec : svc.codec.Lawful)
    {box : Box (List UInt8) (List UInt8)} (hbox : Origin svc s.log box) {e : Endpoint}
    (he : e ≠ .authCheck) {obj : (e.request svc.codec.unmarshal).Obj} {failure : Option UnmarshalError}
    (hu : (e.request svc.codec.unmarshal).unmarshal (e.plain svc.codec.unmarshal box.plain)
      (s.server.objs e) = (obj, failure)) :
    -- a request that a client sealed
    (failure = none ∧ ∃ r, .sent box.key ((e.request svc.codec.unmarshal).nonce obj) r ∈ s.log ∧
      r.endpoint ≠ .authCheck ∧
      r.marshal svc.codec ((e.request svc.codec.unmarshal).nonce obj) = .ok box.plain) ∨
    -- or a message of a server, which gives no live nonce
    ((∃ key r, NetEvent.sent key ((e.request svc.codec.unmarshal).nonce obj) r ∈ s.log) ∨
        ((e.request svc.codec.unmarshal).nonce obj).length ≠ nonceSize) ∧
      ∀ t, s.server.nonces.lookup ((e.request svc.codec.unmarshal).nonce obj) = some t →
        t + svc.expireTime < s.clock := by
  rcases hbox with ⟨n, r, hsent, hformed, hr, hmarshal⟩ | ⟨m, hm⟩
  · obtain ⟨obj', hu', hn⟩ := unmarshal_request hcodec hformed hr hmarshal he (s.server.objs e)
    rw [hu] at hu'
    cases hu'
    rw [hn]
    exact Or.inl ⟨rfl, r, hsent, hr, hmarshal⟩
  · right
    have hnonce := nonce_of_message svc.codec.unmarshal hm he (s.server.objs e)
    rw [hu] at hnonce
    rcases hnonce with hshort | hkept
    · have hlen : ((e.request svc.codec.unmarshal).nonce obj).length ≠ nonceSize := by
        intro heq
        rw [heq] at hshort
        exact absurd hshort (by decide)
      exact ⟨Or.inr hlen, fun t ht => absurd (hs.entries _ t ht).1 hlen⟩
    · have hkept' : (e.request svc.codec.unmarshal).nonce obj = s.nonceOf e := hkept
      rw [hkept']
      exact ⟨(hs.objects e he).symm, hs.dead e he⟩

/-- What is left after a delete was there before. -/
theorem lookup_of_lookup_erase {nonces : NonceTable} {m n : Nonce} {t : ℤ}
    (h : (nonces.erase m).lookup n = some t) : nonces.lookup n = some t := by
  by_cases hn : n = m
  · rw [hn, Finmap.lookup_erase] at h
    cases h
  · rwa [Finmap.lookup_erase_ne hn] at h

section Judged

variable {e : Endpoint} {seen : List (Box (List UInt8) (List UInt8))} {log : List NetEvent} {clock : ℤ}
  {v : Except Rejection Unit × (e.request svc.codec.unmarshal).Obj × NonceTable}

/-- The verdict on a request changes the object of its endpoint. -/
theorem nonceOf_judged_self : NetState.nonceOf ⟨s.server.judged e v, seen, log, clock⟩ e
    = (e.request svc.codec.unmarshal).nonce v.2.1 :=
  congrArg (e.request svc.codec.unmarshal).nonce (judged_objs ..)

theorem nonceOf_judged_ne {e' : Endpoint} (h : e' ≠ e) :
    NetState.nonceOf ⟨s.server.judged e v, seen, log, clock⟩ e' = s.nonceOf e' :=
  congrArg (e'.request svc.codec.unmarshal).nonce (Function.update_of_ne h ..)

end Judged

/-- A request is rejected. -/
theorem NetSound.reject (hs : NetSound holds s) {e : Endpoint} {now : ℤ} (hclock : s.clock ≤ now)
    {r : Rejection} {obj : (e.request svc.codec.unmarshal).Obj}
    (hobj : e ≠ .authCheck → (((e.request svc.codec.unmarshal).nonce obj).length ≠ nonceSize ∨
      ∃ key r, NetEvent.sent key ((e.request svc.codec.unmarshal).nonce obj) r ∈ s.log) ∧
      ∀ t, s.server.nonces.lookup ((e.request svc.codec.unmarshal).nonce obj) = some t →
        t + svc.expireTime < now) :
    NetSound holds ⟨s.server.judged e (.error r, obj, s.server.nonces), s.seen, s.log, now⟩ where
  entries n t h := by
    obtain ⟨hsize, ht, hrest⟩ := hs.entries n t h
    exact ⟨hsize, ht.trans hclock, hrest⟩
  objects e' he' := by
    by_cases heq : e' = e
    · subst heq
      rw [nonceOf_judged_self]
      exact (hobj he').1
    · rw [nonceOf_judged_ne heq]
      exact hs.objects e' he'
  dead e' he' t h := by
    by_cases heq : e' = e
    · subst heq
      rw [nonceOf_judged_self] at h
      exact (hobj he').2 t h
    · rw [nonceOf_judged_ne heq] at h
      exact (hs.dead e' he' t h).trans_le hclock
  boxes := hs.boxes
  justified := hs.justified

/-- A request is accepted. -/
theorem NetSound.accept (hs : NetSound holds s) {e : Endpoint} {now : ℤ} (hclock : s.clock ≤ now)
    {obj : (e.request svc.codec.unmarshal).Obj} {plain : List UInt8} {n : Nonce}
    (hn : (e.request svc.codec.unmarshal).nonce obj = n) {t : ℤ}
    (ht : s.server.nonces.lookup n = some t) (hlive : now ≤ t + svc.expireTime)
    (hsent : e ≠ .authCheck → ∃ r, .sent (svc.keys.of e).key n r ∈ s.log ∧
      r.endpoint ≠ .authCheck ∧ r.marshal svc.codec n = .ok plain) :
    NetSound holds ⟨s.server.judged e (.ok (), obj, s.server.nonces.erase n), s.seen,
      .accepted e plain n now :: s.log, now⟩ where
  entries m t' h := by
    replace h : (s.server.nonces.erase n).lookup m = some t' := h
    obtain ⟨hsize, ht', hissued, hfresh⟩ := hs.entries m t' (lookup_of_lookup_erase h)
    refine ⟨hsize, ht'.trans hclock, List.mem_cons_of_mem _ hissued, fun e' plain' t₂ hacc => ?_⟩
    rcases List.mem_cons.mp hacc with hacc | hacc
    · cases hacc
      rw [Finmap.lookup_erase] at h
      cases h
    · exact hfresh e' plain' t₂ hacc
  objects e' he' := by
    by_cases heq : e' = e
    · subst heq
      rw [nonceOf_judged_self]
      obtain ⟨r, hr, -⟩ := hsent he'
      exact Or.inr ⟨_, r, List.mem_cons_of_mem _ (hn ▸ hr)⟩
    · rw [nonceOf_judged_ne heq]
      exact (hs.objects e' he').imp id fun ⟨key, r, h⟩ => ⟨key, r, List.mem_cons_of_mem _ h⟩
  dead e' he' t' h := by
    by_cases heq : e' = e
    · subst heq
      rw [nonceOf_judged_self] at h
      replace h : (s.server.nonces.erase n).lookup ((e'.request svc.codec.unmarshal).nonce obj)
        = some t' := h
      rw [hn, Finmap.lookup_erase] at h
      cases h
    · rw [nonceOf_judged_ne heq] at h
      exact (hs.dead e' he' t' (lookup_of_lookup_erase h)).trans_le hclock
  boxes b hb hkey := (hs.boxes b hb hkey).mono _
  justified := by
    obtain ⟨-, hpast, hissued, hfresh⟩ := hs.entries n t ht
    exact ⟨⟨hfresh, t, hissued, hpast.trans hclock, hlive, hsent⟩, hs.justified⟩

/-- **A message is delivered.** -/
theorem NetSound.deliver (hs : NetSound holds s) (hcodec : svc.codec.Lawful)
    (hsecret : ∀ e, holds (svc.keys.of e).key = false) {e : Endpoint}
    {box : Box (List UInt8) (List UInt8)} {now : ℤ} (hclock : s.clock ≤ now)
    (hcan : canSend holds s.seen box = true) {server : svc.State}
    (hstep : serverStep svc.lib svc.expireTime s.server (.receive e (deliveredBody svc e box) now)
      = some server) :
    NetSound holds ⟨server, s.seen, logVerdict e box.plain server now s.log, now⟩ := by
  by_cases hkey : box.key = (svc.keys.of e).key
  · rw [deliveredBody, if_pos hkey] at hstep
    obtain ⟨-, -, rfl⟩ := serverStep_receive hstep
    have hbox : Origin svc s.log box :=
      hs.boxes box (mem_of_canSend hcan (by rw [hkey]; exact hsecret e)) (by rw [hkey]; exact hsecret e)
    rcases hu : (e.request svc.codec.unmarshal).unmarshal (e.plain svc.codec.unmarshal box.plain)
      (s.server.objs e) with ⟨obj, failure⟩
    rcases handleValidateNonce_cases hu svc.expireTime now s.server.nonces with
      ⟨r, heq, hdead⟩ | ⟨rfl, t, ht, hlive, heq⟩
    · rw [heq]
      refine hs.reject hclock fun he => ?_
      rcases hs.plaintext hcodec hbox he hu with ⟨hok, r, hsent, -⟩ | ⟨horigin, hold⟩
      · exact ⟨Or.inr ⟨_, r, hsent⟩, hdead hok⟩
      · exact ⟨horigin.symm, fun t ht => (hold t ht).trans_le hclock⟩
    · rw [heq]
      rw [logVerdict_ok]
      refine hs.accept hclock rfl ht hlive fun he => ?_
      rcases hs.plaintext hcodec hbox he hu with ⟨-, r, hsent, hr⟩ | ⟨-, hold⟩
      · exact ⟨r, hkey ▸ hsent, hr⟩
      · exact absurd (hold t ht) (by omega)
  · rw [deliveredBody, if_neg hkey] at hstep
    obtain rfl := serverStep_undecrypted hstep
    exact hs.reject hclock fun he =>
      ⟨hs.objects e he, fun t ht => (hs.dead e he t ht).trans_le hclock⟩

theorem mem_sealed {key : List UInt8} {text : Except String (List UInt8)}
    {b : Box (List UInt8) (List UInt8)} (h : b ∈ sealed key text) : text = .ok b.plain := by
  cases text with
  | error e => exact absurd h List.not_mem_nil
  | ok bytes =>
    obtain rfl := List.mem_singleton.mp h
    rfl

/-- What a handler answers is a message of the server. -/
theorem mem_answered {e : Endpoint} {r : EStateM.Result Failure (Guarded β) Message}
    {b : Box (List UInt8) (List UInt8)} (h : b ∈ answered svc e r) :
    ∃ m : Message, m.marshal svc.codec = .ok b.plain := by
  cases r with
  | ok m g => exact ⟨m, mem_sealed h⟩
  | error f g => exact absurd h List.not_mem_nil

/-- **One step.** -/
theorem NetSound.step (hcodec : svc.codec.Lawful) (hsecret : ∀ e, holds (svc.keys.of e).key = false)
    (s : NetState svc) (a : NetAct svc) (s' : NetState svc) (hs : NetSound holds s) (ha : NetGuard s a)
    (hstep : netStep svc holds s a = some s') : NetSound holds s' := by
  cases a with
  | nonce peer now reads =>
    obtain ⟨⟨r, nonces⟩, hr, rfl⟩ := Option.map_eq_some_iff.mp hstep
    rcases handleNonce_cases hr with ⟨e, rfl, rfl⟩ | ⟨n, rfl, hsize, -, rfl⟩
    · exact hs.quiet rfl ha.1 (fun _ _ h => h) (fun _ => rfl) fun b hb => Or.inl hb
    · exact hs.issue hsize ha.1 (ha.2 n _ hr)
  | request reply r =>
    rw [netStep] at hstep
    split at hstep
    · cases hmarshal : r.marshal svc.codec reply.plain with
      | error e =>
        rw [hmarshal] at hstep
        cases hstep
        exact hs
      | ok bytes =>
        rw [hmarshal] at hstep
        cases hstep
        exact hs.send ha hmarshal
    · cases hstep
  | foreign key m =>
    cases hstep
    refine hs.quiet rfl (le_refl _) (fun _ _ h => h) (fun _ => rfl) fun b hb => ?_
    rcases List.mem_append.mp hb with hb | hb
    · exact Or.inr ⟨m, mem_sealed hb⟩
    · exact Or.inl hb
  | deliver e box now =>
    rw [netStep] at hstep
    split at hstep
    next hcan =>
      obtain ⟨server, hserver, rfl⟩ := Option.map_eq_some_iff.mp hstep
      exact hs.deliver hcodec hsecret ha hcan hserver
    next => cases hstep
  | handle env uptime left =>
    obtain ⟨e, he, hstep⟩ := Option.bind_eq_some_iff.mp hstep
    obtain ⟨server, hserver, rfl⟩ := Option.map_eq_some_iff.mp hstep
    obtain ⟨_, -, rfl⟩ := Option.map_eq_some_iff.mp hserver
    refine hs.quiet rfl (le_refl _) (fun _ _ h => h) ha fun b hb => ?_
    rcases List.mem_append.mp hb with hb | hb
    · exact Or.inr (mem_answered hb)
    · exact Or.inl hb
  | edit node =>
    cases hstep
    exact hs.quiet rfl (le_refl _) (fun _ _ h => h) (fun _ => rfl) fun b hb => Or.inl hb
  | sweep now n =>
    cases hstep
    refine hs.quiet rfl (le_refl _) (fun m t h => ?_) (fun _ => rfl) fun b hb => Or.inl hb
    replace h : (sweepEntry svc.expireTime now s.server.nonces n).lookup m = some t := h
    rcases sweepEntry_cases svc.expireTime now s.server.nonces n with heq | ⟨_, -, -, heq⟩
    · rwa [heq] at h
    · rw [heq] at h
      exact lookup_of_lookup_erase h

/-- **Only clients with the key make the server act, and each nonce once.**  In every run of a server
that handles one request at a time, whoever controls the network: when a plaintext is accepted at an
endpoint with a JSON body, a client has sealed it, with the key of this endpoint and the nonce that
is accepted; the server had issued that nonce before the client sealed the request, and not longer
ago than a nonce lives; and the nonce is not accepted at any other time, at any endpoint. -/
theorem accepted_authentic (hcodec : svc.codec.Lawful)
    (hsecret : ∀ e, holds (svc.keys.of e).key = false) {node : Node β} {clock : ℤ}
    {as : List (NetAct svc)} (hG : Along (netStep svc holds) NetGuard (.init svc node clock) as)
    (hrun : run (netStep svc holds) (.init svc node clock) as = some s)
    {newer older : List NetEvent} {e : Endpoint} {plain : List UInt8} {n : Nonce} {now : ℤ}
    (hlog : s.log = newer ++ .accepted e plain n now :: older) :
    (∀ e' plain' t, .accepted e' plain' n t ∉ newer ∧ .accepted e' plain' n t ∉ older) ∧
    (e ≠ .authCheck → ∃ r t since before, older = since ++ .sent (svc.keys.of e).key n r :: before ∧
      .issued n t ∈ before ∧ t ≤ now ∧ now ≤ t + svc.expireTime ∧ r.endpoint ≠ .authCheck ∧
      r.marshal svc.codec n = .ok plain) := by
  have hs : NetSound holds s :=
    run_invariant_along (NetSound.step hcodec hsecret) (netSound_init holds node clock) hG hrun
  have hjustified := hs.justified
  rw [hlog] at hjustified
  obtain ⟨⟨honce, t, hissued, hpast, hlive, hsent⟩, hold⟩ := hjustified.split
  refine ⟨fun e' plain' t' => ⟨fun hnew => ?_, honce e' plain' t'⟩, fun he => ?_⟩
  · -- an acceptance in the newer part would have this one before it
    obtain ⟨x, y, rfl⟩ := List.append_of_mem hnew
    rw [List.append_assoc, List.cons_append] at hjustified
    exact hjustified.split.1.1 e plain now (List.mem_append_right y List.mem_cons_self)
  · obtain ⟨r, hr, hendpoint, hmarshal⟩ := hsent he
    obtain ⟨since, before, heq, hbefore⟩ := hold.precedes hissued hr (by simp)
      fun _ hunused => hunused.2 _ _
    exact ⟨r, t, since, before, heq, hbefore, hpast, hlive, hendpoint, hmarshal⟩

end Network

/-- Nobody has been given a key. -/
def noKeysHeld (_ : List UInt8) : Bool := false

/-- A client has been given a nonce, and has sealed a request to reload the configuration. -/
def sentReload : NetState plainService :=
  ⟨plainState oneNonce, [⟨[1], nonceOnlyBody zeroRead.byt⟩, ⟨[1], zeroRead.byt⟩],
    [.sent [1] zeroRead.byt .configReload, .issued zeroRead.byt 0], 0⟩

/-- The steps to there. -/
def sendReload : List (NetAct plainService) :=
  [.nonce false 0 [zeroRead], .request ⟨[1], zeroRead.byt⟩ .configReload]

theorem run_sendReload :
    run (netStep plainService noKeysHeld) (.init plainService onePeerNode 0) sendReload
      = some sentReload := rfl

theorem lookup_oneNonce : oneNonce.lookup zeroRead.byt = some 0 := Finmap.lookup_insert _

/-- The request is accepted at another endpoint of the same key. -/
def acceptedReload : NetState plainService :=
  ⟨(plainState oneNonce).judged .identifyPublisher
      (.ok (), NonceOnly.mk zeroRead.byt, oneNonce.erase zeroRead.byt), sentReload.seen,
    .accepted .identifyPublisher (nonceOnlyBody zeroRead.byt) zeroRead.byt 30 :: sentReload.log, 30⟩

/-- It is delivered there at the last moment of its nonce. -/
def redirectReload : NetAct plainService :=
  .deliver .identifyPublisher ⟨[1], nonceOnlyBody zeroRead.byt⟩ 30

theorem netStep_redirectReload :
    netStep plainService noKeysHeld sentReload redirectReload = some acceptedReload := by
  have hu := unmarshal_nonceOnlyBody "identifyPublisher" zeroRead.byt
    (sentReload.server.objs .identifyPublisher)
  have hlive : (30 : ℤ) ≤ 0 + plainService.expireTime := le_refl 30
  exact @netStep_accept _ plainService noKeysHeld sentReload .identifyPublisher
    ⟨[1], nonceOnlyBody zeroRead.byt⟩ List.mem_cons_self rfl rfl rfl (NonceOnly.mk zeroRead.byt) hu
    0 30 lookup_oneNonce hlive

theorem guard_sendReload : Along (netStep plainService noKeysHeld) NetGuard
    (.init plainService onePeerNode 0) (sendReload ++ [redirectReload]) := by
  refine ⟨⟨le_refl 0, fun n _ _ => ⟨fun _ => List.not_mem_nil, fun _ _ => List.not_mem_nil⟩⟩,
    fun s' hs' => ⟨trivial, fun s'' hs'' => ⟨?_, fun _ _ => trivial⟩⟩⟩
  have hrun : run (netStep plainService noKeysHeld) (.init plainService onePeerNode 0) sendReload
      = some s'' := by
    rw [sendReload, run_cons, hs', Option.bind_some, run_cons, hs'']
    rfl
  obtain rfl : sentReload = s'' := Option.some.inj (run_sendReload.symm.trans hrun)
  show (0 : ℤ) ≤ 30
  decide

/-- The acceptance goes back to the request to reload the configuration. -/
theorem accepted_authentic_reload :
    run (netStep plainService noKeysHeld) (.init plainService onePeerNode 0)
        (sendReload ++ [redirectReload]) = some acceptedReload ∧
      ∃ r t since before, sentReload.log = since ++ .sent [1] zeroRead.byt r :: before ∧
        .issued zeroRead.byt t ∈ before ∧ t ≤ 30 ∧ 30 ≤ t + 30 ∧ r.endpoint ≠ .authCheck ∧
        r.marshal octCodec zeroRead.byt = .ok (nonceOnlyBody zeroRead.byt) := by
  have hrun : run (netStep plainService noKeysHeld) (.init plainService onePeerNode 0)
      (sendReload ++ [redirectReload]) = some acceptedReload :=
    (run_concat run_sendReload).trans netStep_redirectReload
  have hlog : acceptedReload.log = [] ++ .accepted .identifyPublisher (nonceOnlyBody zeroRead.byt)
      zeroRead.byt 30 :: sentReload.log := rfl
  exact ⟨hrun, (accepted_authentic lawful_octCodec (fun _ => rfl) guard_sendReload hrun hlog).2
    (by decide)⟩

/-! ## Requests that are delivered to another endpoint -/

section Redirect

variable {β : Type} {svc : Service β} {holds : List UInt8 → Bool} {s s' : NetState svc}

/-- A wedged server stays wedged, whatever happens on the network. -/
theorem wedged_netStep (s : NetState svc) (a : NetAct svc) (s' : NetState svc)
    (hs : Wedged s.server) (hstep : netStep svc holds s a = some s') : Wedged s'.server := by
  rcases netStep_server hstep with heq | ⟨b, hb⟩
  · rw [heq]
    exact hs
  · exact wedged_step hs hb

/-- No message is received by a wedged server. -/
theorem netStep_deliver_wedged (hs : Wedged s.server) (e : Endpoint)
    (box : Box (List UInt8) (List UInt8)) (now : ℤ) :
    netStep svc holds s (.deliver e box now) = none := by
  have hbody : ∀ msg, deliveredBody svc e box ≠ .unparsed msg := by
    intro msg
    rw [deliveredBody]
    split <;> simp
  rw [netStep, hs.receive e hbody now]
  split <;> rfl

/-- **A request that is delivered to `configUpdate` stops the server.**  Somebody who controls the
network and holds no key takes any request that a client has sealed with the key of the CLI, and
that carries no configuration: to reload, to register a peer, or to ask for the publisher.  When it
is delivered to `configUpdate` of an idle server that has not received an update yet, while the
nonce in it is still in the table and has not expired, it is accepted there, the handler panics
under `configMutex`, and from then on no message is ever received again, at any endpoint. -/
theorem redirected_wedges (hcodec : svc.codec.Lawful) {r : APIRequest} (hformed : r.Formed)
    (hr : r.endpoint ≠ .authCheck) (hupdate : r.endpoint ≠ .configUpdate) {n bytes : List UInt8}
    (hmarshal : r.marshal svc.codec n = .ok bytes)
    (hseen : ⟨svc.keys.authKey.key, bytes⟩ ∈ s.seen) (hidle : s.server.pending = none)
    (hfree : s.server.held = false)
    (hclear : ConfigUpdate.config (s.server.objs .configUpdate) = none) {t now : ℤ}
    (hn : s.server.nonces.lookup n = some t) (hlive : now ≤ t + svc.expireTime) (env : Env)
    (uptime : ℤ) (left : ∀ e : Endpoint, (e.request svc.codec.unmarshal).Obj) :
    ∃ s', run (netStep svc holds) s [.deliver .configUpdate ⟨svc.keys.authKey.key, bytes⟩ now,
        .handle env uptime left] = some s' ∧
      ∀ as s'', run (netStep svc holds) s' as = some s'' →
        Wedged s''.server ∧ ∀ e box now, netStep svc holds s'' (.deliver e box now) = none := by
  obtain ⟨rest, rfl, hrest, hno⟩ := marshal_document hcodec hformed hr hmarshal
  obtain ⟨config, hu, hkept⟩ := configUpdate_of_document hrest n (s.server.objs .configUpdate)
  have hconfig : config = none := (hkept (hno hupdate)).trans hclear
  subst hconfig
  -- the server after the verdict
  let server : svc.State :=
    s.server.judged .configUpdate (.ok (), ConfigUpdate.mk n none, s.server.nonces.erase n)
  let bytes : List UInt8 := render (.obj (("nonce", encodeBytes n) :: rest))
  have hdeliver : netStep svc holds s (.deliver .configUpdate ⟨svc.keys.authKey.key, bytes⟩ now)
      = some ⟨server, s.seen, .accepted .configUpdate bytes n now :: s.log, now⟩ :=
    netStep_accept .configUpdate hseen rfl hidle hfree hu hn hlive
  obtain ⟨server', hhandle⟩ : ∃ server', serverStep svc.lib svc.expireTime server
      (.handle env uptime left) = some server' := ⟨_, rfl⟩
  have hwedged : Wedged server' := by
    obtain ⟨-, -, hdone, -⟩ := serverStep_handle hhandle
    refine ⟨?_, hdone⟩
    rw [← Bool.not_eq_false, held_of_handle (show server.held = false from hfree) hhandle]
    intro hnil
    have hsome := hnil .configUpdate rfl
    rw [show server.objs .configUpdate = _ from judged_objs ..] at hsome
    cases hsome
  have hrun : run (netStep svc holds) s [.deliver .configUpdate ⟨svc.keys.authKey.key, bytes⟩ now,
      .handle env uptime left]
      = some ⟨server', answered svc .configUpdate ((handler svc.codec.unmarshal svc.lib env uptime
          .configUpdate (server.objs .configUpdate)).run server.toGuarded) ++ s.seen,
        .accepted .configUpdate bytes n now :: s.log, now⟩ := by
    rw [run_cons, hdeliver, Option.bind_some, run_cons, netStep_handle rfl hhandle]
    rfl
  refine ⟨_, hrun, fun as s'' hrun => ?_⟩
  have hlater : Wedged s''.server :=
    run_invariant (P := fun s => Wedged s.server) wedged_netStep hwedged hrun
  exact ⟨hlater, netStep_deliver_wedged hlater⟩

end Redirect

/-- The request to reload the configuration is delivered to `configUpdate`. -/
theorem redirected_wedges_reload :
    ∃ s', run (netStep plainService noKeysHeld) (.init plainService onePeerNode 0)
        (sendReload ++ [.deliver .configUpdate ⟨[1], nonceOnlyBody zeroRead.byt⟩ 30,
          .handle calmEnv 0 sentReload.server.objs]) = some s' ∧
      ∀ as s'', run (netStep plainService noKeysHeld) s' as = some s'' →
        Wedged s''.server ∧
          ∀ e box now, netStep plainService noKeysHeld s'' (.deliver e box now) = none := by
  have hlive : (30 : ℤ) ≤ 0 + plainService.expireTime := le_refl 30
  obtain ⟨s', hrun, hlater⟩ := @redirected_wedges _ plainService noKeysHeld sentReload lawful_octCodec
    .configReload trivial (by decide) (by decide) zeroRead.byt _ rfl List.mem_cons_self rfl rfl rfl
    0 30 lookup_oneNonce hlive calmEnv 0 sentReload.server.objs
  exact ⟨s', (run_append run_sendReload).trans hrun, hlater⟩

end Border
