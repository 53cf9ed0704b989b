/-
# The messages between a client and the control server

Model of `Marshal`, `SetNonce` and `Response` in `pkg/api`: the bytes that a client writes for a
request, the bytes that the server writes for an answer, and what the other side reads from
them.  Requests and answers are JSON objects, but for an `AuthCheck`, which is the nonce itself.

* `unmarshal_marshal` : the server reads the request that was written, into an object that holds
  no configuration and no peer of an earlier request;
* `decodeResponse_marshal` : the client reads the answer that was written.
-/
import Border.ConfigDocument
import Border.Reflection

namespace Border

open GoJson

/-! ## Requests -/

/-- The requests of `pkg/api` to the `PUT` endpoints: their fields but the nonce. -/
inductive APIRequest
  | authCheck
  | configUpdate (config : Option ConfigData)
  | configReload
  | peerRegister (peer : Option Peer)
  | identifyPublisher
  | uptime
  | ping
  | configChain
  | configFetch

/-- `Endpoint`. -/
def APIRequest.endpoint : APIRequest → Endpoint
  | .authCheck => .authCheck
  | .configUpdate _ => .configUpdate
  | .configReload => .configReload
  | .peerRegister _ => .peerRegister
  | .identifyPublisher => .identifyPublisher
  | .uptime => .uptime
  | .ping => .ping
  | .configChain => .configChain
  | .configFetch => .configFetch

/-- The body of a request that carries nothing but a nonce. -/
def nonceOnlyBody (nonce : List UInt8) : List UInt8 := render (.obj [("nonce", encodeBytes nonce)])

/-- `SetNonce` and `Marshal`. -/
def APIRequest.marshal (codec : KeyCodec) (nonce : List UInt8) :
    APIRequest → Except String (List UInt8)
  | .authCheck => .ok (authCheckRequest.new.copy nonce).val
  | .configUpdate config => do
    let j ← encodePtr (encodeConfigData codec) config
    .ok (render (.obj [("nonce", encodeBytes nonce), ("config", j)]))
  | .configReload => .ok (nonceOnlyBody nonce)
  | .peerRegister peer => do
    let j ← encodePtr (encodePeer codec) peer
    .ok (render (.obj [("nonce", encodeBytes nonce), ("peer", j)]))
  | .identifyPublisher => .ok (nonceOnlyBody nonce)
  | .uptime => .ok (nonceOnlyBody nonce)
  | .ping => .ok (nonceOnlyBody nonce)
  | .configChain => .ok (nonceOnlyBody nonce)
  | .configFetch => .ok (nonceOnlyBody nonce)

/-- The configuration a request carries is within the ranges of its types. -/
def APIRequest.Formed : APIRequest → Prop
  | .configUpdate (some d) => d.Formed
  | _ => True

/-- What the server should find in the object of the endpoint. -/
def APIRequest.object (unmarshalKey : Json → Except String JSONWebKey) (nonce : List UInt8) :
    (r : APIRequest) → (r.endpoint.request unmarshalKey).Obj
  | .authCheck => authCheckRequest.new.copy nonce
  | .configUpdate config =>
    ConfigUpdate.mk nonce (config.map fun d => { Config.new [] with toConfigData := d.normal })
  | .configReload => NonceOnly.mk nonce
  | .peerRegister peer => PeerRegistration.mk nonce (peer.map Peer.normal)
  | .identifyPublisher => NonceOnly.mk nonce
  | .uptime => NonceOnly.mk nonce
  | .ping => NonceOnly.mk nonce
  | .configChain => NonceOnly.mk nonce
  | .configFetch => NonceOnly.mk nonce

/-- The object of the endpoint holds no configuration and no peer. -/
def ClearObject (unmarshalKey : Json → Except String JSONWebKey) :
    (e : Endpoint) → (e.request unmarshalKey).Obj → Prop
  | .configUpdate, obj => ConfigUpdate.config obj = none
  | .peerRegister, obj => PeerRegistration.peer obj = none
  | _, _ => True

theorem readBody_render (j : Json) : readBody (render j) = .ok j := by
  rw [readBody, parse_render]
  rfl

/-- A request that carries nothing but a nonce is read into any object. -/
theorem unmarshal_nonceOnlyBody (endpoint : String) (nonce : List UInt8) (obj : NonceOnly) :
    (nonceOnlyRequest endpoint).unmarshal (readBody (nonceOnlyBody nonce)) obj
      = (⟨nonce⟩, none) := by
  have hread : readBody (nonceOnlyBody nonce) = .ok (.obj [("nonce", encodeBytes nonce)]) :=
    readBody_render _
  show unmarshalJSON decodeNonceOnly (readBody (nonceOnlyBody nonce)) obj = _
  rw [hread]
  simp [unmarshalJSON, decodeNonceOnly, decodeStruct, decodeFields, findField, field,
    decodeBytes_encodeBytes, Status.andThen, Status.error]
  rfl

/-- A full buffer overwrites another one. -/
theorem AuthCheck.copy_val (ac other : AuthCheck) : ac.copy other.val = other := by
  apply Subtype.ext
  show other.val.take nonceSize ++ ac.val.drop other.val.length = other.val
  rw [other.property, List.drop_eq_nil_of_le ac.property.le, List.append_nil,
    List.take_of_length_le other.property.le]

section Lawful

variable {codec : KeyCodec} (hcodec : codec.Lawful)

include hcodec

/-- A pointer to a configuration is read back. -/
theorem reads_configPtr {config : Option ConfigData} (hformed : ∀ d, config = some d → d.Formed)
    {j : Json} (h : encodePtr (encodeConfigData codec) config = .ok j) :
    decodePtr (Config.new []) (decodeConfig codec.unmarshal) j none
      = (config.map fun d => { Config.new [] with toConfigData := d.normal }, .ok) := by
  cases config with
  | none =>
    cases h
    rfl
  | some d =>
    have hread := reads_configData hcodec (hformed d rfl) h
    have hconfig : decodeConfig codec.unmarshal j (Config.new [])
        = ({ Config.new [] with toConfigData := d.normal }, .ok) := by
      have hzero : (Config.new []).toConfigData = ConfigData.zero := rfl
      unfold decodeConfig
      rw [hzero, hread]
    obtain ⟨_, -, h⟩ := exists_of_bind h
    obtain ⟨_, -, h⟩ := exists_of_bind h
    obtain ⟨_, -, h⟩ := exists_of_bind h
    cases h
    show (some (decodeConfig codec.unmarshal _ (Config.new [])).1,
      (decodeConfig codec.unmarshal _ (Config.new [])).2) = _
    rw [hconfig]
    rfl

/-- **The server reads the request that was written.** -/
theorem unmarshal_marshal {r : APIRequest} (hformed : r.Formed) {nonce bytes : List UInt8}
    (h : r.marshal codec nonce = .ok bytes) {obj : (r.endpoint.request codec.unmarshal).Obj}
    (hclear : ClearObject codec.unmarshal r.endpoint obj) :
    (r.endpoint.request codec.unmarshal).unmarshal (r.endpoint.plain codec.unmarshal bytes) obj
      = (r.object codec.unmarshal nonce, none) := by
  cases r with
  | authCheck =>
    cases h
    exact congrArg (fun buffer => (buffer, none)) (AuthCheck.copy_val obj _)
  | configUpdate config =>
    obtain ⟨j, hj, h⟩ := exists_of_bind h
    cases h
    have hconfig := reads_configPtr hcodec (fun d hd => by subst hd; exact hformed) hj
    obtain ⟨oldNonce, oldConfig⟩ : ConfigUpdate := obj
    obtain rfl : oldConfig = none := hclear
    show unmarshalJSON _ (readBody (render _)) _ = _
    rw [readBody_render]
    simp [unmarshalJSON, decodeStruct, decodeFields, findField, field, decodeBytes_encodeBytes,
      hconfig, Status.andThen, Status.error, APIRequest.object]
    rfl
  | peerRegister peer =>
    obtain ⟨j, hj, h⟩ := exists_of_bind h
    cases h
    have hpeer : decodePeerPtr codec.unmarshal j none = (peer.map Peer.normal, .ok) :=
      reads_ptr hj fun p j _ hj => reads_peer hcodec hj
    obtain ⟨oldNonce, oldPeer⟩ : PeerRegistration := obj
    obtain rfl : oldPeer = none := hclear
    show unmarshalJSON _ (readBody (render _)) _ = _
    rw [readBody_render]
    simp [unmarshalJSON, decodeStruct, decodeFields, findField, field, decodeBytes_encodeBytes,
      hpeer, Status.andThen, Status.error, APIRequest.object]
    rfl
  | configReload =>
    cases h
    exact unmarshal_nonceOnlyBody _ nonce obj
  | identifyPublisher =>
    cases h
    exact unmarshal_nonceOnlyBody _ nonce obj
  | uptime =>
    cases h
    exact unmarshal_nonceOnlyBody _ nonce obj
  | ping =>
    cases h
    exact unmarshal_nonceOnlyBody _ nonce obj
  | configChain =>
    cases h
    exact unmarshal_nonceOnlyBody _ nonce obj
  | configFetch =>
    cases h
    exact unmarshal_nonceOnlyBody _ nonce obj

end Lawful

/-! ## Answers -/

/-- `Marshal` of what the server answers. -/
def Message.marshal (codec : KeyCodec) : Message → Except String (List UInt8)
  | .nonce bytes => .ok bytes.val
  | .nil => .ok (['\x7b', '\x7d'].map ascii)
  | .identifyPublisher publisher =>
    .ok (render (.obj [("nonce", .null), ("publisher", .str publisher)]))
  | .uptime since => .ok (render (.obj [("uptime", .num since 0)]))
  | .configChain chain =>
    .ok (render (.obj [("nonce", .null), ("chain", .arr (chain.map .str))]))
  | .configFetch config chain => do
    let j ← encodeConfigData codec config
    .ok (render (.obj [("nonce", .null), ("config", j), ("chain", .arr (chain.map .str))]))

/-- The values in an answer are within the ranges of their types. -/
def Message.Formed : Message → Prop
  | .uptime since => -2 ^ 63 ≤ since ∧ since < 2 ^ 63
  | .configFetch config _ => config.Formed
  | _ => True

/-- `NilResponse`. -/
def decodeNilResponse : Decoder Unit := decodeStruct "api.NilResponse" []

/-- The fields of `IdentifyPublisherResponse`. -/
structure IdentifyPublisherResponse where
  nonceValue : List UInt8
  publisher : String

/-- The fields of `ConfigChainResponse`. -/
structure ConfigChainResponse where
  nonceValue : List UInt8
  chain : Slice String

/-- The fields of `ConfigFetchResponse`. -/
structure ConfigFetchResponse where
  nonceValue : List UInt8
  config : Option Config
  chain : Slice String

/-- What `Exchange` returns: an object of the type that `Response` makes. -/
inductive Response
  | nil
  | identifyPublisher (r : IdentifyPublisherResponse)
  | uptime (uptime : ℤ)
  | configChain (r : ConfigChainResponse)
  | configFetch (r : ConfigFetchResponse)

def decodeIdentifyPublisherResponse : Decoder IdentifyPublisherResponse :=
  decodeStruct "api.IdentifyPublisherResponse" [
    field "nonce" IdentifyPublisherResponse.nonceValue (fun r v => { r with nonceValue := v })
      decodeBytes,
    field "publisher" IdentifyPublisherResponse.publisher (fun r v => { r with publisher := v })
      decodeString]

def decodeUptimeResponse : Decoder ℤ :=
  decodeStruct "api.UptimeResponse" [
    field "uptime" (fun r : ℤ => r) (fun _ v => v) (decodeInt64 "time.Duration")]

def decodeConfigChainResponse : Decoder ConfigChainResponse :=
  decodeStruct "api.ConfigChainResponse" [
    field "nonce" ConfigChainResponse.nonceValue (fun r v => { r with nonceValue := v }) decodeBytes,
    field "chain" ConfigChainResponse.chain (fun r v => { r with chain := v })
      (decodeSlice "" decodeString)]

def decodeConfigFetchResponse (unmarshalKey : Json → Except String JSONWebKey) :
    Decoder ConfigFetchResponse :=
  decodeStruct "api.ConfigFetchResponse" [
    field "nonce" ConfigFetchResponse.nonceValue (fun r v => { r with nonceValue := v }) decodeBytes,
    field "config" ConfigFetchResponse.config (fun r v => { r with config := v })
      (decodePtr (Config.new []) (decodeConfig unmarshalKey)),
    field "chain" ConfigFetchResponse.chain (fun r v => { r with chain := v })
      (decodeSlice "" decodeString)]

/-- `json.Unmarshal` into a new object. -/
def unmarshalNew {σ : Type} (d : Decoder σ) (zero : σ) (make : σ → Response) (bytes : List UInt8) :
    Except UnmarshalError Response :=
  match unmarshalJSON d (readBody bytes) zero with
  | (r, none) => .ok (make r)
  | (_, some e) => .error e

/-- `Response` and the `json.Unmarshal` of `Exchange`. -/
def decodeResponse (unmarshalKey : Json → Except String JSONWebKey) :
    Endpoint → List UInt8 → Except UnmarshalError Response
  | .authCheck => unmarshalNew decodeNilResponse () fun _ => .nil
  | .configUpdate => unmarshalNew decodeNilResponse () fun _ => .nil
  | .configReload => unmarshalNew decodeNilResponse () fun _ => .nil
  | .peerRegister => unmarshalNew decodeNilResponse () fun _ => .nil
  | .identifyPublisher =>
    unmarshalNew decodeIdentifyPublisherResponse ⟨[], ""⟩ .identifyPublisher
  | .uptime => unmarshalNew decodeUptimeResponse 0 .uptime
  | .ping => unmarshalNew decodeNilResponse () fun _ => .nil
  | .configChain => unmarshalNew decodeConfigChainResponse ⟨[], none⟩ .configChain
  | .configFetch =>
    unmarshalNew (decodeConfigFetchResponse unmarshalKey) ⟨[], none, none⟩ .configFetch

/-- What the client should find in the answer. -/
def Message.response : Message → Response
  | .nonce _ => .nil
  | .nil => .nil
  | .identifyPublisher publisher => .identifyPublisher ⟨[], publisher⟩
  | .uptime since => .uptime since
  | .configChain chain => .configChain ⟨[], some chain⟩
  | .configFetch config chain =>
    .configFetch ⟨[], some { Config.new [] with toConfigData := config.normal }, some chain⟩

/-- The kind of answer that an endpoint gives. -/
def Message.Answers : Endpoint → Message → Prop
  | .identifyPublisher, .identifyPublisher _ => True
  | .uptime, .uptime _ => True
  | .configChain, .configChain _ => True
  | .configFetch, .configFetch _ _ => True
  | .authCheck, .nil => True
  | .configUpdate, .nil => True
  | .configReload, .nil => True
  | .peerRegister, .nil => True
  | .ping, .nil => True
  | _, _ => False

theorem unmarshalNew_nil :
    unmarshalNew decodeNilResponse () (fun _ => .nil) (['\x7b', '\x7d'].map ascii) = .ok .nil := rfl

theorem unmarshalNew_render {σ : Type} {d : Decoder σ} {zero r : σ} {j : Json}
    (h : d j zero = (r, .ok)) (make : σ → Response) :
    unmarshalNew d zero make (render j) = .ok (make r) := by
  unfold unmarshalNew
  rw [readBody_render, unmarshalJSON, h]
  rfl

/-- **The client reads the answer that was written.** -/
theorem decodeResponse_marshal {codec : KeyCodec} (hcodec : codec.Lawful) {m : Message}
    (hformed : m.Formed) {e : Endpoint} (he : m.Answers e) {bytes : List UInt8}
    (h : m.marshal codec = .ok bytes) :
    decodeResponse codec.unmarshal e bytes = .ok m.response := by
  cases m with
  | nonce b => cases e <;> exact absurd he id
  | nil =>
    cases h
    cases e <;> first | exact absurd he id | exact unmarshalNew_nil
  | identifyPublisher publisher =>
    cases h
    cases e <;> first | exact absurd he id | skip
    refine unmarshalNew_render (r := ⟨[], publisher⟩) ?_ .identifyPublisher
    simp [decodeIdentifyPublisherResponse, decodeStruct, decodeFields, findField, field,
      decodeBytes, decodeString, Status.andThen]
  | uptime since =>
    cases h
    cases e <;> first | exact absurd he id | skip
    refine unmarshalNew_render (r := since) ?_ .uptime
    simp [decodeUptimeResponse, decodeStruct, decodeFields, findField, field,
      decodeInt64_num "time.Duration" hformed.1 hformed.2, Status.andThen]
  | configChain chain =>
    cases h
    cases e <;> first | exact absurd he id | skip
    refine unmarshalNew_render (r := ⟨[], some chain⟩) ?_ .configChain
    simp [decodeConfigChainResponse, decodeStruct, decodeFields, findField, field, decodeBytes,
      decodeSlice, reads_strings, Status.andThen]
  | configFetch config chain =>
    obtain ⟨j, hj, h⟩ := exists_of_bind h
    cases h
    cases e <;> first | exact absurd he id | skip
    have hconfig := reads_configPtr hcodec
      (fun d (hd : some config = some d) => by cases hd; exact hformed) hj
    refine unmarshalNew_render
      (r := ⟨[], some { Config.new [] with toConfigData := config.normal }, some chain⟩) ?_ .configFetch
    simp [decodeConfigFetchResponse, decodeStruct, decodeFields, findField, field, decodeBytes,
      hconfig, decodeSlice, reads_strings, Status.andThen]

/-- An answer that is written is a plaintext of the server's message. -/
theorem plaintext_marshal {codec : KeyCodec} {m : Message} {bytes : List UInt8}
    (h : m.marshal codec = .ok bytes) :
    m.Plaintext (fun d => ((encodeConfigData codec d).toOption).getD .null) bytes := by
  cases m with
  | nonce b =>
    cases h
    exact .nonce b
  | nil =>
    cases h
    exact .nil
  | identifyPublisher publisher =>
    cases h
    exact .json rfl (parse_render _)
  | uptime since =>
    cases h
    exact .json rfl (parse_render _)
  | configChain chain =>
    cases h
    exact .json rfl (parse_render _)
  | configFetch config chain =>
    obtain ⟨j, hj, h⟩ := exists_of_bind h
    cases h
    refine .json (j := .obj [("nonce", .null), ("config", j), ("chain", .arr (chain.map .str))]) ?_
      (parse_render _)
    rw [Message.document, hj]
    rfl

section Handlers

variable {β : Type} {unmarshalKey : Json → Except String JSONWebKey} {lib : Libraries β} {env : Env}
  {uptime : ℤ}

/-- The inversion of a sequence that succeeds. -/
theorem Handler.run_bind_ok {α γ : Type} {x : Handler β α} {f : α → Handler β γ} {c : γ}
    {g g' : Guarded β} (h : (x >>= f).run g = .ok c g') :
    ∃ a g₁, x.run g = .ok a g₁ ∧ (f a).run g₁ = .ok c g' := by
  have hbind : (x >>= f).run g = EStateM.bind x f g := rfl
  rw [hbind, EStateM.bind] at h
  cases hx : x g with
  | ok a g₁ =>
    rw [hx] at h
    exact ⟨a, g₁, hx, h⟩
  | error e g₁ =>
    rw [hx] at h
    cases h

/-- What a handler that ends with its answer answers. -/
theorem Handler.pure_of_bind {α γ : Type} {x : Handler β α} {c c' : γ} {g g' : Guarded β}
    (h : (x >>= fun _ => pure c).run g = .ok c' g') : c' = c := by
  obtain ⟨_, _, -, h⟩ := Handler.run_bind_ok h
  cases h
  rfl

/-- **Every handler answers in the kind of its endpoint.** -/
theorem handler_answers {e : Endpoint} {req : (e.request unmarshalKey).Obj} {g g' : Guarded β}
    {m : Message} (h : (handler unmarshalKey lib env uptime e req).run g = .ok m g') :
    m.Answers e := by
  cases e with
  | authCheck =>
    cases h
    trivial
  | configUpdate =>
    obtain ⟨_, _, -, h⟩ := Handler.run_bind_ok h
    rw [Handler.pure_of_bind h]
    trivial
  | configReload =>
    rw [Handler.pure_of_bind h]
    trivial
  | peerRegister =>
    obtain ⟨_, _, -, h⟩ := Handler.run_bind_ok h
    rw [Handler.pure_of_bind h]
    trivial
  | identifyPublisher =>
    cases hname : Peer.name g.node.config.publisher with
    | error e =>
      have hrun : (handler unmarshalKey lib env uptime .identifyPublisher req).run g
          = .error e { g with node := g.node } := by
        show (Handler.lift handleIdentifyPublisher).run g = _
        simp only [Handler.lift, EStateM.run, handleIdentifyPublisher, hname]
      rw [hrun] at h
      cases h
    | ok name =>
      have hrun : (handler unmarshalKey lib env uptime .identifyPublisher req).run g
          = .ok (.identifyPublisher name) { g with node := g.node } := by
        show (Handler.lift handleIdentifyPublisher).run g = _
        simp only [Handler.lift, EStateM.run, handleIdentifyPublisher, hname]
      rw [hrun] at h
      cases h
      trivial
  | uptime =>
    cases h
    trivial
  | ping =>
    cases h
    trivial
  | configChain =>
    cases h
    trivial
  | configFetch =>
    cases h
    trivial

end Handlers

end Border
