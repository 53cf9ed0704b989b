/-
# Requests to the control server

Model of `pkg/api`: the request types with a `PUT` endpoint, how the decrypted body of an
HTTP request is unmarshalled into a request object, and the nonce the object carries.
Unmarshalling writes into the object it is given: what the body does not name stays as it
was (`GoJson`), and a short body of an `AuthCheck` leaves the rest of the buffer.

The decoding of a `jose.JSONWebKey` is a parameter.  It replaces the whole key or fails.

`Overwrites` names the bodies for which the old content of the object does not matter;
`overwrites_nonceOnly` says which ones of the requests that carry only a nonce are such.
-/
import Border.Config
import Border.NonceTable

namespace Border

open GoJson NetAddr

/-! ## Decoding a configuration -/

/-- `IP.UnmarshalText`. -/
def decodeIP : Decoder IP
  | .null, _ => ([], .ok)
  | .str s, ip =>
    if s = "" then ([], .ok)
    else
      match parseIP s with
      | some parsed => (parsed, .ok)
      | none => (ip, .aborted (.custom ("invalid IP address: " ++ s)))
  | j, ip => mismatch j "net.IP" ip

/-- `json:"listen"`. -/
def decodeListen : Decoder ListenConfig :=
  decodeStruct "config.ListenConfig" [
    field "dns" ListenConfig.dns (fun l v => { l with dns := v }) decodeString,
    field "control" ListenConfig.control (fun l v => { l with control := v }) decodeString]

/-- A `dnsconfig.SOA`: its fields have no JSON names of their own. -/
def decodeSOA : Decoder SOA :=
  decodeStruct "dnsconfig.SOA" [
    field "Domain" SOA.domain (fun s v => { s with domain := v }) decodeString,
    field "Admin" SOA.admin (fun s v => { s with admin := v }) decodeString,
    field "MinTTL" SOA.minTTL (fun s v => { s with minTTL := v }) decodeUint32,
    field "Serial" SOA.serial (fun s v => { s with serial := v }) decodeUint32,
    field "Refresh" SOA.refresh (fun s v => { s with refresh := v }) decodeUint32,
    field "Retry" SOA.retry (fun s v => { s with retry := v }) decodeUint32,
    field "Expire" SOA.expire (fun s v => { s with expire := v }) decodeUint32]

/-- A `dnsconfig.NS`. -/
def decodeNS : Decoder NS :=
  decodeStruct "dnsconfig.NS" [
    field "Servers" (fun ns => some ns.servers)
      (fun ns v => { ns with servers := Slice.elems v }) (decodeSlice "" decodeString),
    field "TTL" NS.ttl (fun ns v => { ns with ttl := v }) decodeUint32]

/-- The type of a record. -/
def decodeRecordType : Decoder RecordType
  | .null, t => (t, .ok)
  | .str s, _ => (.ofString s, .ok)
  | j, t => mismatch j "string" t

/-- A `config.Record`; its converted value is not decoded. -/
def decodeRecord : Decoder Record :=
  decodeStruct "config.Record" [
    field "type" Record.type (fun r v => { r with type := v }) decodeRecordType,
    field "name" Record.name (fun r v => { r with name := v }) decodeString,
    field "value" Record.literalValue (fun r v => { r with literalValue := v }) decodeAnyMap]

/-- A `config.Zone`. -/
def decodeZone : Decoder Zone :=
  decodeStruct "config.Zone" [
    field "soa" Zone.soa (fun z v => { z with soa := v })
      (decodePtr ⟨"", "", 0, 0, 0, 0, 0⟩ decodeSOA),
    field "ns" Zone.ns (fun z v => { z with ns := v }) (decodePtr ⟨[], 0⟩ decodeNS),
    field "records" Zone.records (fun z v => { z with records := v })
      (decodeSlice none (decodePtr ⟨.other "", "", none, none⟩ decodeRecord))]

section Keys

variable (unmarshalKey : Json → Except String JSONWebKey)

/-- A `jose.JSONWebKey`. -/
def decodeKey : Decoder JSONWebKey := fun j key =>
  match unmarshalKey j with
  | .ok decoded => (decoded, .ok)
  | .error e => (key, .aborted (.custom e))

/-- A pointer to a key. -/
def decodeKeyPtr : Decoder (Option JSONWebKey) :=
  decodePtr ⟨[], "", ""⟩ (decodeKey unmarshalKey)

/-- A `config.Peer`. -/
def decodePeer : Decoder Peer :=
  decodeStruct "config.Peer" [
    field "ips" Peer.ips (fun p v => { p with ips := v }) (decodeSlice [] decodeIP),
    field "control_server" Peer.controlServer (fun p v => { p with controlServer := v })
      decodeString,
    field "key" Peer.key (fun p v => { p with key := v }) (decodeKeyPtr unmarshalKey)]

/-- A pointer to a peer. -/
def decodePeerPtr : Decoder (Option Peer) :=
  decodePtr ⟨none, "", none⟩ (decodePeer unmarshalKey)

/-- The fields of a `config.Config` that are in a document. -/
def decodeConfigData : Decoder ConfigData :=
  decodeStruct "config.Config" [
    field "shutdown_wait" ConfigData.shutdownWait (fun c v => { c with shutdownWait := v })
      (decodeInt64 "time.Duration"),
    field "auth_key" ConfigData.authKey (fun c v => { c with authKey := v })
      (decodeKeyPtr unmarshalKey),
    field "listen" ConfigData.listen (fun c v => { c with listen := v }) decodeListen,
    field "peers" ConfigData.peers (fun c v => { c with peers := v })
      (decodeSlice none (decodePeerPtr unmarshalKey)),
    field "zones" ConfigData.zones (fun c v => { c with zones := v })
      (decodeMap none (decodePtr ⟨none, none, none⟩ decodeZone))]

/-- A `config.Config`. -/
def decodeConfig : Decoder Config := fun j c =>
  let r := decodeConfigData unmarshalKey j c.toConfigData
  ({ c with toConfigData := r.1 }, r.2)

end Keys

/-! ## The request types -/

/-- The error of an `Unmarshal`. -/
inductive UnmarshalError
  /-- The body is not JSON. -/
  | malformed (msg : String)
  | decode (e : DecodeError)
  deriving DecidableEq, Repr

/-- What the server uses of an `api.Request`.  `Plain` is what a decrypted body is seen
as. -/
structure RequestType where
  Plain : Type
  Obj : Type
  /-- `Endpoint`. -/
  endpoint : String
  /-- `New`. -/
  new : Obj
  /-- `Unmarshal` into an object: what it leaves there, and its error. -/
  unmarshal : Plain → Obj → Obj × Option UnmarshalError
  /-- `Nonce`. -/
  nonce : Obj → Nonce

/-- A body that should be JSON: the document, or why it is none. -/
abbrev JsonBody := Except String Json

/-- `json.Unmarshal`: a body that is not JSON leaves the object alone. -/
def unmarshalJSON {σ : Type} (d : Decoder σ) : JsonBody → σ → σ × Option UnmarshalError
  | .error msg, s => (s, some (.malformed msg))
  | .ok j, s => ((d j s).1, (d j s).2.error.map .decode)

/-- The requests that carry nothing but a nonce. -/
structure NonceOnly where
  nonceValue : List UInt8
  deriving DecidableEq, Repr

def decodeNonceOnly : Decoder NonceOnly :=
  decodeStruct "api.Request" [
    field "nonce" NonceOnly.nonceValue (fun r v => { r with nonceValue := v }) decodeBytes]

def nonceOnlyRequest (endpoint : String) : RequestType where
  Plain := JsonBody
  Obj := NonceOnly
  endpoint := endpoint
  new := ⟨[]⟩
  unmarshal := unmarshalJSON decodeNonceOnly
  nonce := NonceOnly.nonceValue

/-- `api.ConfigReloadRequest`. -/
def configReloadRequest : RequestType := nonceOnlyRequest "configReload"

/-- `api.IdentifyPublisherRequest`. -/
def identifyPublisherRequest : RequestType := nonceOnlyRequest "identifyPublisher"

/-- `api.UptimeRequest`. -/
def uptimeRequest : RequestType := nonceOnlyRequest "uptime"

/-- `api.PingRequest`. -/
def pingRequest : RequestType := nonceOnlyRequest "ping"

/-- `api.ConfigChainRequest`. -/
def configChainRequest : RequestType := nonceOnlyRequest "configChain"

/-- `api.ConfigFetchRequest`. -/
def configFetchRequest : RequestType := nonceOnlyRequest "configFetch"

/-- The fields of `api.ConfigUpdateRequest`. -/
structure ConfigUpdate where
  nonceValue : List UInt8
  config : Option Config

/-- `api.ConfigUpdateRequest`. -/
def configUpdateRequest (unmarshalKey : Json → Except String JSONWebKey) : RequestType where
  Plain := JsonBody
  Obj := ConfigUpdate
  endpoint := "configUpdate"
  new := ⟨[], none⟩
  unmarshal := unmarshalJSON (decodeStruct "api.ConfigUpdateRequest" [
    field "nonce" ConfigUpdate.nonceValue (fun r v => { r with nonceValue := v }) decodeBytes,
    field "config" ConfigUpdate.config (fun r v => { r with config := v })
      (decodePtr (Config.new []) (decodeConfig unmarshalKey))])
  nonce := ConfigUpdate.nonceValue

/-- The fields of `api.PeerRegistrationRequest`. -/
structure PeerRegistration where
  nonceValue : List UInt8
  peer : Option Peer
  deriving DecidableEq

/-- `api.PeerRegistrationRequest`. -/
def peerRegistrationRequest (unmarshalKey : Json → Except String JSONWebKey) : RequestType where
  Plain := JsonBody
  Obj := PeerRegistration
  endpoint := "peerRegister"
  new := ⟨[], none⟩
  unmarshal := unmarshalJSON (decodeStruct "api.PeerRegistrationRequest" [
    field "nonce" PeerRegistration.nonceValue (fun r v => { r with nonceValue := v }) decodeBytes,
    field "peer" PeerRegistration.peer (fun r v => { r with peer := v })
      (decodePeerPtr unmarshalKey)])
  nonce := PeerRegistration.nonceValue

/-- `api.AuthCheck`: a buffer of `NonceSize` bytes. -/
abbrev AuthCheck := { buffer : List UInt8 // buffer.length = nonceSize }

/-- `copy(ac, byt)`. -/
def AuthCheck.copy (ac : AuthCheck) (byt : List UInt8) : AuthCheck where
  val := byt.take nonceSize ++ ac.val.drop byt.length
  property := by
    rw [List.length_append, List.length_take, List.length_drop, ac.property]
    omega

/-- The requests to `authCheck`, whose body is the nonce itself. -/
def authCheckRequest : RequestType where
  Plain := List UInt8
  Obj := AuthCheck
  endpoint := "authCheck"
  new := ⟨List.replicate nonceSize 0, length_zeroBytes⟩
  unmarshal := fun byt ac => (ac.copy byt, none)
  nonce := Subtype.val

/-! ## Bodies for which the old content does not matter -/

namespace RequestType

variable (rt : RequestType)

/-- The payload of a body: what unmarshalling it into a new object gives. -/
def payload (p : rt.Plain) : rt.Obj := (rt.unmarshal p rt.new).1

/-- Unmarshalling the body gives the same in every object. -/
def Overwrites (p : rt.Plain) : Prop := ∀ obj, rt.unmarshal p obj = rt.unmarshal p rt.new

/-- Whether a body can be unmarshalled does not depend on the object. -/
def Steady : Prop := ∀ p obj obj', (rt.unmarshal p obj).2 = (rt.unmarshal p obj').2

theorem Overwrites.payload_eq {rt : RequestType} {p : rt.Plain} (h : rt.Overwrites p)
    (obj : rt.Obj) : (rt.unmarshal p obj).1 = rt.payload p := by
  rw [h obj]
  rfl

end RequestType

/-! ## Which bodies can be unmarshalled -/

section Steady

theorem steady_IP : GoJson.Steady decodeIP := by
  intro j a b
  cases j with
  | str s =>
    simp only [decodeIP]
    split
    · rfl
    · cases parseIP s with
      | some ip => rfl
      | none => rfl
  | _ => rfl

theorem steady_listen : GoJson.Steady decodeListen :=
  steady_struct (by simp [steady_field, steady_string])

variable (unmarshalKey : Json → Except String JSONWebKey)

theorem steady_keyPtr : GoJson.Steady (decodeKeyPtr unmarshalKey) := by
  refine steady_ptr fun j a b => ?_
  simp only [decodeKey]
  cases unmarshalKey j with
  | ok key => rfl
  | error e => rfl

theorem steady_peerPtr : GoJson.Steady (decodePeerPtr unmarshalKey) :=
  steady_ptr (steady_struct (by
    simp [steady_field, steady_slice, steady_IP, steady_string, steady_keyPtr]))

theorem steady_configData : GoJson.Steady (decodeConfigData unmarshalKey) :=
  steady_struct (by
    simp [steady_field, decodeInt64, steady_int, steady_keyPtr, steady_listen, steady_slice,
      steady_peerPtr, steady_map])

end Steady

/-! ## Bodies that name everything -/

/-- A body that names the nonce, and nothing else, replaces all of a request that carries
only a nonce. -/
theorem overwrites_nonceOnly (endpoint : String) {text : String} {bytes : List UInt8}
    (h : base64Decode text = some bytes) :
    (nonceOnlyRequest endpoint).Overwrites (.ok (.obj [("nonce", .str text)])) := by
  have hall : ∀ obj : NonceOnly,
      unmarshalJSON decodeNonceOnly (.ok (.obj [("nonce", .str text)])) obj = (⟨bytes⟩, none) := by
    intro obj
    simp [unmarshalJSON, decodeNonceOnly, decodeStruct, decodeFields, findField, field, decodeBytes,
      h, Status.andThen, Status.error]
  intro obj
  exact (hall obj).trans (hall _).symm

end Border
